import Destiny.Prog.Frame
import Destiny.Server.Queries

/-!
# The server's state

The records of `game_types.h` and `game_player.h`, the state of a `CConnServer`, and the
operations the handlers are made of: queries, reads of a received packet, writes into the
packet buffer, sends.

A client pointer names an object and is never given out twice, so a pointer to a deleted
client stays dangling. Where the C++ reads memory it has not set, the value comes from
`Junk`, which is arbitrary; where it leaves its objects the handler ends in a `Fault`.
`reads` logs the packet indices a handler reads and `trace` what it does that an observer
cares about, the newest event first; no handler looks at either.
-/

namespace Destiny

open Text Sql Prog

/-! ## Records -/

/-- The first `n` bytes of a zeroed character array whose other bytes stay NUL. -/
structure Field (n : Nat) where
  bytes : Bytes
  len : bytes.length = n

def Field.copy (n : Nat) (b : Bytes) : Field n := ⟨(b ++ List.replicate n 0).take n, by simp⟩

/-- The C string in the array. -/
def Field.str {n : Nat} (f : Field n) : Bytes := cstr f.bytes

instance {n : Nat} : Inhabited (Field n) := ⟨.copy n []⟩

theorem Field.copy_bytes {n : Nat} {b : Bytes} (h : b.length = n) : (Field.copy n b).bytes = b := by
  subst h; simp [copy]

structure FPoint where
  x : ℚ
  y : ℚ

structure CAccount where
  clientid : Nat := 0
  charid : Nat := 0
  userid : Nat := 0
  username : Field 12 := default
  password : Field 12 := default
  accesslevel : Nat := 1
  isLoggedIn : Bool := false
  inGame : Bool := false

structure CStats where
  maxHP : Nat := 0
  maxMP : Nat := 0
  hp : Nat := 0
  mp : Nat := 0
  str : Nat := 0
  dex : Nat := 0
  int : Nat := 0
  con : Nat := 0
  attackPower : Nat := 0
  defense : Nat := 0

structure CItem where
  itemid : Nat := 0
  add1 : Nat := 0
  add2 : Nat := 0
  add3 : Nat := 0
  val1 : Nat := 0
  val2 : Nat := 0
  val3 : Nat := 0
  deriving DecidableEq, Inhabited

structure Currentition where
  current : FPoint := ⟨0, 0⟩
  destiny : FPoint := ⟨0, 0⟩

structure CInfo where
  charName : Bytes := []
  mobid : Nat := 0
  classid : Nat := 0
  exp : Nat := 0
  level : Nat := 0
  gold : Int := 0
  statPoints : Nat := 0
  skillPoints : Nat := 0

/-- An entry of the local array `chars` of the character-list handlers. -/
structure CCharacter where
  charName : Bytes
  level : Nat
  exp : Nat
  mobid : Nat
  str : Nat
  int : Nat
  dex : Nat
  con : Nat
  gold : Int
  eqitems : Nat → CItem

structure CNPC where
  clientid : Nat
  pos : FPoint
  npcname : Bytes
  inventory : Nat → CItem
  shopitems : Nat → CItem
  mobid : Nat
  mobcode : Nat
  level : Nat
  str : Nat
  dex : Nat
  int : Nat
  con : Nat

structure CLanguage where
  idInvalid : Bytes
  idOnline : Bytes
  idNotactive : Bytes
  pwdInvalid : Bytes
  nameAlreadyexist : Bytes
  deriving Inhabited

/-- The name of a `CConnClient` object. -/
abbrev Ptr := Nat

structure CConnClient where
  playerSession : CAccount := {}
  playerStats : CStats := {}
  playerInfo : CInfo := {}
  playerPosition : Currentition := {}
  ready : Bool := false
  isInvisibleMode : Bool := false
  isActive : Bool := true
  recvpkts : Nat
  visibleClients : List Ptr := []
  /-- Indices into `npcList`. -/
  visibleNPCs : List Nat := []
  items : Nat → CItem

/-- An element of an XML document. -/
inductive Xml where
  | node (name : Bytes) (props : List (Bytes × Bytes)) (children : List Xml)

def Xml.name : Xml → Bytes
  | .node n _ _ => n

def Xml.props : Xml → List (Bytes × Bytes)
  | .node _ ps _ => ps

def Xml.children : Xml → List Xml
  | .node _ _ cs => cs

/-! ## The server -/

inductive Fault where
  | nullPtr
  | useAfterFree
  | charsIndex
  | eqitemsIndex
  | storageIndex
  | itemsIndex
  | packetIndex
  | nameBuffer
  | sqlBuffer
  | msgBuffer
  | unmapped
  deriving DecidableEq, Repr

inductive GmAction where
  | notice
  | telexy
  | spawn
  | item
  deriving DecidableEq, Repr

inductive Event where
  /-- `SendPacket` to a client: what was handed to `Encrypt`, and the hash. -/
  | send (c : Ptr) (plain : Bytes) (hash1 : Nat)
  /-- A login packet naming an account reached `CheckLogin`. -/
  | loginTry (c : Ptr) (username : Bytes)
  /-- `CheckLogin` took its success branch: all checks passed, or the account was created. -/
  | loginOk (c : Ptr) (username : Bytes)
  /-- A successful login read this `acesslevel` for the session. -/
  | granted (c : Ptr) (acesslevel : Int)
  | gm (c : Ptr) (a : GmAction)
  /-- A character list was begun. -/
  | listing (c : Ptr)
  /-- A character was written into a slot of a character list. -/
  | slot (c : Ptr) (charpos : Int)
  /-- `SpawnChar` showed a client to another. -/
  | spawnChar (c other : Ptr)
  /-- `SpawnNPC` showed the NPC at an index, under an id. -/
  | spawnNPC (c : Ptr) (npc clientid : Nat)
  deriving DecidableEq

/-- The client an event is about, but for a send. -/
def Event.about : Event → Option Ptr
  | .send .. => none
  | .loginTry c _ | .loginOk c _ | .granted c _ | .gm c _ | .listing c | .slot c _
  | .spawnChar c _ | .spawnNPC c _ _ => some c

/-- The packets that show an object. -/
def Event.isSpawn : Event → Bool
  | .spawnChar .. | .spawnNPC .. => true
  | _ => false

structure Server where
  heap : Ptr → Option CConnClient
  nextPtr : Ptr
  clientList : List Ptr
  clientIDList : Nat → Nat
  npcList : List CNPC
  db : Database
  /-- Number of statements sent to the database. -/
  sqlCalls : Nat
  keysLogin : Bytes
  hash1 : Nat
  /-- The global packet buffer. -/
  packet : Nat → UInt8
  npcid : Int
  reads : List Nat
  trace : List Event

/-- What does not change while the server runs: the database server, the hash function of
the encryption library, and the configuration. -/
structure Env where
  sql : MySQL
  getHash1 : Bytes → Nat → Nat
  /-- The document element of `StartChar.xml`. -/
  startChar : Option Xml
  lang : CLanguage
  autoacc : Int
  cliversion : Int

/-- Unset memory, and what the system tells a handler during one step. -/
structure Junk where
  /-- The stack after the local arrays `newcharname` and `delcharname`. -/
  afterName : Bytes := []
  /-- The stack after the local array `delpassword`. -/
  afterPass : Bytes := []
  /-- The value of the pointer `row2[0]` in `CharDelete`. -/
  rowAddr : Int := 0
  /-- What the unset pointer `cname` points to. -/
  cname : Bytes := []
  charid : Int := 0
  charpos : Nat → Int := fun _ => 0
  /-- The unset items of `chars[4]` and `chars[5]`. -/
  eqitems : Nat → Nat → CItem := fun _ _ => {}
  /-- The unset item `storageitems[125]`. -/
  storageLast : CItem := {}
  /-- The stack from the parameter `co` of `AddStr` or `h` of `AddData` on, when that is a
  pointer to the given bytes and the copy goes to the given offset. -/
  stack : Bytes → Int → Nat → UInt8 := fun _ _ _ => 0
  recvpkts : Nat := 0
  items : Nat → CItem := fun _ => {}
  /-- `time(NULL)`. -/
  now : Int := 0
  asctime : Bytes := []
  /-- Whether `fopen` succeeds. -/
  fopen : Bool := false
  deriving Inhabited

abbrev M := EStateM Fault Server

/-! ## Operations -/

def check (p : Prop) [Decidable p] (e : Fault) : M Unit := if p then pure () else throw e

def note (e : Event) : M Unit := modify fun s => { s with trace := e :: s.trace }

/-- Dereference a client pointer. -/
def client (c : Ptr) : M CConnClient := fun s =>
  match s.heap c with
  | some cl => .ok cl s
  | none => .error .useAfterFree s

def Server.update (s : Server) (c : Ptr) (f : CConnClient → CConnClient) : Server :=
  { s with heap := fun p => if p = c then (s.heap p).map f else s.heap p }

def modifyClient (c : Ptr) (f : CConnClient → CConnClient) : M Unit := modify fun s => s.update c f

def modifySession (c : Ptr) (f : CAccount → CAccount) : M Unit :=
  modifyClient c fun cl => { cl with playerSession := f cl.playerSession }

/-! ### Queries -/

/-- A `%s` argument. -/
abbrev txt (b : Bytes) : Arg := .str b 0

/-- `mysql_query`, and the rows `mysql_store_result` returns after it. -/
def mysqlQuery (E : Env) (text : Bytes) : M (Option (List Fetched)) := fun s =>
  let r := E.sql.query s.sqlCalls s.db text
  .ok r.2 { s with db := r.1, sqlCalls := s.sqlCalls + 1 }

def doSQL (E : Env) (fmt : String) (args : List Arg) : M (Option (List Fetched)) := do
  let text := vsprintf (ascii fmt) args
  check (text.length < 2000) .sqlBuffer
  mysqlQuery E text

/-- `row[i]` as a C string. -/
def col (row : Fetched) (i : Nat) : M Bytes :=
  match row[i]? with
  | some (some b) => pure (cstr b)
  | _ => throw .nullPtr

/-- `atoi(row[i])`. -/
def colInt (row : Fetched) (i : Nat) : M Int := do
  let b ← col row i
  return atoi b

/-- A `strcpy` of a column into a `char[30]`. -/
def colName (row : Fetched) (i : Nat) : M Bytes := do
  let b ← col row i
  check (b.length < 30) .nameBuffer
  return b

/-- The item in columns 1 to 7 of an item row. -/
def colItem (row : Fetched) : M CItem := do
  let itemid ← colInt row 1
  let add1 ← colInt row 2
  let add2 ← colInt row 3
  let add3 ← colInt row 4
  let val1 ← colInt row 5
  let val2 ← colInt row 6
  let val3 ← colInt row 7
  return ⟨u32 itemid, u32 add1, u32 add2, u32 add3, u32 val1, u32 val2, u32 val3⟩

/-- `a` with one entry changed. -/
def setAt {α : Type} (a : Nat → α) (i : Nat) (x : α) : Nat → α := fun j => if j = i then x else a j

/-- The item rows stored into an array of `n` items, each at its `slotnum`. -/
def fetchItems (n : Nat) (e : Fault) : List Fetched → (Nat → CItem) → M (Nat → CItem)
  | [], items => pure items
  | row :: rows, items => do
    let itemnum ← colInt row 0
    check (u32 itemnum < n) e
    let item ← colItem row
    fetchItems n e rows (setAt items (u32 itemnum) item)

/-! ### Reading a packet -/

/-- A received packet: its `packet_size` bytes, and the mapped memory that follows them. -/
structure Packet where
  data : Bytes
  after : Bytes

def Packet.size (P : Packet) : Nat := P.data.length

def Packet.mem (P : Packet) : Bytes := P.data ++ P.after

/-- `n` bytes from `P[off]` on. -/
def rd (P : Packet) (off n : Nat) : M Bytes := do
  modify fun s => { s with reads := s.reads ++ List.range' off n }
  check (off + n ≤ P.mem.length) .unmapped
  return (P.mem.drop off).take n

def rdInt (P : Packet) (off n : Nat) : M Nat := do
  let b ← rd P off n
  return ofLE b

/-! ### Writing the packet buffer -/

/-- A store into the packet buffer. -/
structure Write where
  off : Int
  bytes : Bytes

def addByte (h off : Int) : Write := ⟨off, leBytes 1 h⟩
def addWord (h off : Int) : Write := ⟨off, leBytes 2 h⟩
def addDWord (h off : Int) : Write := ⟨off, leBytes 4 h⟩

/-- `AddStr` copies `strlen(co)` bytes from the address of its parameter `co`. -/
def addStr (J : Junk) (co : Bytes) (off : Int) : Write :=
  ⟨off, (List.range co.length).map (J.stack co off)⟩

/-- `AddData` copies `size` bytes from the address of its parameter `h`. -/
def addData (J : Junk) (h : Bytes) (off : Int) (size : Nat) : Write :=
  ⟨off, (List.range size).map (J.stack h off)⟩

/-- The bytes `P[0]`, …, each stored at its index. -/
def addBytes (b : Bytes) : Write := ⟨0, b⟩

def Write.inBounds (w : Write) : Bool := 0 ≤ w.off ∧ w.off + w.bytes.length ≤ 65355

/-- The buffer after a store. -/
def Write.store (w : Write) (D : Nat → UInt8) : Nat → UInt8 := fun i =>
  if w.off.toNat ≤ i then (w.bytes[i - w.off.toNat]?).getD (D i) else D i

def writes : List Write → M Unit
  | [] => pure ()
  | w :: ws => do
    check (w.inBounds = true) .packetIndex
    modify fun s => { s with packet := w.store s.packet }
    writes ws

/-- `packet->Free()`. -/
def packetFree : M Unit := modify fun s => { s with packet := fun _ => 0 }

def Server.sent (s : Server) (c : Ptr) (n : Nat) : Server :=
  { s with trace := .send c ((List.range n).map s.packet) s.hash1 :: s.trace }

/-- `Encrypt` of the buffer's first `n` bytes and `SendPacket` to a client. -/
def sendPacket (c : Ptr) (n : Nat) : M Unit := do
  let _ ← client c
  modify fun s => s.sent c n

end Destiny
