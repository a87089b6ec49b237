import Destiny.Prog.Runs
import Destiny.Server.Account
import Destiny.Server.World

/-!
# The server as a machine

`packetControl` dispatches a packet by its opcode; `AddUser` and `DisconnectClient` create
and delete clients. A `Step` is one of the calls that the server makes between two states
in which no handler runs. A run takes its steps in any order: `FillFDS` and `HandleClients`
disconnect a client whenever they see fit, so a disconnection is a step of its own and the
value a handler returns is not looked at.
-/

namespace Destiny

open Text Sql Prog

variable (E : Env) (J : Junk)

/-- The `switch` of `PacketControl`. -/
def dispatch (c : Ptr) (P : Packet) (opcode : Nat) : M Bool :=
  match opcode with
  | 0x020d => checkLogin E J c P
  | 0x020f => charCreate E J c P
  | 0x0211 => charDelete E J c P
  | 0x0213 => sendToWorld E J c P
  | 0x0366 => objectMove c P
  | 0x0369 => return true
  | 0x0333 => sendChat c P
  | 0x0334 => packetCommand J c P
  | 0x0290 => pakGMTele c 1047 1725
  | 0x0376 => changeInventory c P
  | 0x03a0 => return true
  | 0x027b => sendNPCSellItems c P
  | 0x039d => playerAttack c P
  | 0x0215 => gameToCharList c
  | 0x0379 => shopItemBuy J c P
  | 0x4388 => return true
  | _ =>
    -- an unknown packet is written to a file
    if J.fopen then do
      let _ ← rd P 0 P.size
      return true
    else return true

def Packet.opcode (P : Packet) : Nat := ofLE ((P.mem.drop 4).take 2)

def packetControl (c : Ptr) (P : Packet) : M Bool := do
  let opcode ← rdInt P 4 2
  let _cid ← rdInt P 6 2
  dispatch E J c P opcode

def addUser : M Unit := modify fun s =>
  { s with
    heap := fun p => if p = s.nextPtr then some { recvpkts := J.recvpkts, items := J.items }
      else s.heap p
    nextPtr := s.nextPtr + 1
    clientList := s.clientList ++ [s.nextPtr] }

def Server.delete (s : Server) (c : Ptr) : Server :=
  { s with
    heap := fun p => if p = c then none else s.heap p
    clientList := s.clientList.erase c }

def disconnectClient (c : Ptr) : M Unit := do
  let _ ← client c
  modify fun s => s.delete c

inductive Step where
  | addUser (J : Junk)
  | disconnectClient (c : Ptr)
  /-- A received packet, counted and handled. -/
  | packet (c : Ptr) (P : Packet) (J : Junk)
  | visiblityList (c : Ptr) (J : Junk)

/-- What is done for a client only while it is in `ClientList`. -/
def connected (c : Ptr) (x : M Unit) : M Unit := do
  let s ← get
  if c ∈ s.clientList then x else pure ()

theorem connected_apply (c : Ptr) (x : M Unit) (s : Server) :
    connected c x s = if c ∈ s.clientList then x s else .ok () s := by
  change (if c ∈ s.clientList then x else pure ()) s = _
  split <;> rfl

def exec : Step → M Unit
  | .addUser J => addUser J
  | .disconnectClient c => connected c (disconnectClient c)
  | .packet c P J => connected c do
    modifyClient c fun cl => { cl with recvpkts := cl.recvpkts + 1 }
    let _ ← packetControl E J c P
    pure ()
  | .visiblityList c J => connected c do
    let _ ← visiblityList J c
    pure ()

/-- A server nobody has connected to yet. Its tables, its NPCs and the contents of its
buffers are arbitrary. -/
structure Server.Fresh (s : Server) : Prop where
  heap : ∀ p, s.heap p = none
  clientList : s.clientList = []
  trace : s.trace = []

/-! ## Starting -/

/-- A server just started on a database. The constructor does not set the last entry of the id
table; here it holds 1 as the others do. -/
def Server.start (db : Database) : Server where
  heap _ := none
  nextPtr := 0
  clientList := []
  clientIDList _ := 1
  npcList := []
  db := db
  sqlCalls := 0
  keysLogin := []
  hash1 := 0
  packet _ := 0
  npcid := 1000
  reads := []
  trace := []

theorem Server.start_fresh (db : Database) : (Server.start db).Fresh := ⟨fun _ => rfl, rfl, rfl⟩

/-- A server on the reference database that lets every client version in. -/
def Env.plain : Env where
  sql := Engine.reference schema
  getHash1 _ _ := 0
  startChar := none
  lang := default
  autoacc := 0
  cliversion := 0

/-- A packet: twelve bytes of header and a body. -/
def frame (opcode : Nat) (body : Bytes) : Packet where
  data := leBytes 2 (12 + body.length : Nat) ++ [0, 0] ++ leBytes 2 opcode ++
    [0, 0, 0, 0, 0, 0] ++ body
  after := []

def loginFrame (username password : Bytes) : Packet :=
  frame 0x020d ((Field.copy 12 password).bytes ++ (Field.copy 12 username).bytes ++
    List.replicate 60 0)

def worldFrame : Packet := frame 0x0213 [0]

/-- The tables with one more active account. -/
def withAccount (db : Database) (username password : Bytes) (acesslevel : Int) : Database :=
  db.add .accounts [.username, .password, .active, .acesslevel]
    [.text username, .text password, .int 1, .int acesslevel]

/-- The tables with one more character, in the first slot of an account. -/
def withChar (db : Database) (name uid : Bytes) : Database :=
  db.add .characters [.name, .uid, .posid, .classid] [.text name, .text uid, .int 0, .int 0]

/-- One account with one character. -/
def oneAccount (acesslevel : Int) : Database :=
  withChar (withAccount (Db.empty schema) (ascii "bob") (ascii "pw") acesslevel)
    (ascii "hero") (ascii "bob")

end Destiny
