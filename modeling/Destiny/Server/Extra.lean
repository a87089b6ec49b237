import Destiny.Server.State

/-!
# Sending, ids and texts

The helper functions of `game_extrafunctions.cpp`, with `SendServerMsg` and the packets
that show a character or an NPC to a client.
-/

namespace Destiny

open Text Sql Prog

/-! ## Ids -/

/-- The first id from `i` to `0xffff` whose entry is set and more than ten seconds old. -/
def Server.freeID (s : Server) (now : Int) (i : Nat) : Option Nat :=
  (List.range' i (0x10000 - i)).find? fun j =>
    s.clientIDList j ≠ 0 ∧ now - s.clientIDList j > 10

/-- `GetNewClientID` and `GetNewMobID` search from different ids. -/
def getNewID (J : Junk) (i : Nat) : M Nat := fun s =>
  match s.freeID J.now i with
  | some j => .ok j { s with clientIDList := setAt s.clientIDList j 0 }
  | none => .ok 0 s

def getNewClientID (J : Junk) : M Nat := getNewID J 1

def getNewMobID (J : Junk) : M Nat := getNewID J 2000

/-! ## Sends -/

def sendEach (size : Nat) : List Ptr → M Unit
  | [] => pure ()
  | p :: ps => do
    sendPacket p size
    sendEach size ps

/-- `SendToVisible`. -/
def sendToVisible (c : Ptr) (size : Nat) (dothisclient : Bool) : M Unit := do
  let thisclient ← client c
  sendEach size thisclient.visibleClients
  if dothisclient then sendPacket c size else pure ()

def sendInGame (size : Nat) : List Ptr → M Unit
  | [] => pure ()
  | p :: ps => do
    let otherclient ← client p
    if otherclient.playerSession.inGame then sendPacket p size else pure ()
    sendInGame size ps

def sendToAll (size : Nat) : M Unit := do
  let s ← get
  sendInGame size s.clientList

def sendServerMsg (J : Junk) (c : Ptr) (format : Bytes) (args : List Arg) : M Bool := do
  let buffer := vsprintf (cstr format) args
  check (buffer.length < 2000) .msgBuffer
  packetFree
  writes [addWord 108 0, addByte 0x01 4, addByte 0x01 5, addStr J buffer 12]
  sendPacket c 108
  return true

/-! ## Positions -/

/-- A float converted to an integer. -/
def trunc (q : ℚ) : Int := q.num.tdiv q.den

/-- The square of `distance`. -/
def distSq (p q : FPoint) : ℚ := (p.x - q.x) * (p.x - q.x) + (p.y - q.y) * (p.y - q.y)

/-! ## Spawn packets -/

/-- The packet that shows a character. -/
def spawnCharFields (J : Junk) (o : CConnClient) : List Write :=
  [addWord 172 0, addWord 0x0364 4, addWord 30000 6,
    addWord (trunc o.playerPosition.current.x) 12, addWord (trunc o.playerPosition.current.y) 14,
    addWord o.playerSession.clientid 16] ++
  (List.range 12).map (fun i : Nat => addByte 0xcc (18 + i)) ++
  [addStr J o.playerInfo.charName 18, addByte 150 30, addByte o.playerInfo.mobid 34] ++
  (List.range 15).map (fun i : Nat => addWord (o.items i).itemid (2 * i + 36)) ++
  [addWord o.playerSession.clientid 66, addWord 0 69, addWord o.playerInfo.level 100,
    addWord o.playerStats.attackPower 102, addWord o.playerStats.defense 104,
    addByte 0 106, addByte 84 107, addWord o.playerStats.maxHP 108, addWord o.playerStats.maxMP 110,
    addWord o.playerStats.hp 112, addWord o.playerStats.mp 114, addWord o.playerStats.str 116,
    addWord o.playerStats.int 118, addWord o.playerStats.dex 120, addWord o.playerStats.con 122,
    addWord 2 128, addWord 0 130] ++
  (List.range 29).map (fun i : Nat => addByte 0xcc (147 + i)) ++
  [addByte 0x00 172]

def spawnChar (J : Junk) (thisclient otherclient : Ptr) : M Bool := do
  let o ← client otherclient
  packetFree
  writes (spawnCharFields J o)
  sendPacket thisclient 172
  note (.spawnChar thisclient otherclient)
  return true

def spawnNPCFields (J : Junk) (n : CNPC) : List Write :=
  [addWord 172 0, addWord 0x0364 4, addWord 30000 6,
    addWord (trunc n.pos.x) 12, addWord (trunc n.pos.y) 14, addWord n.clientid 16] ++
  (List.range 12).map (fun i : Nat => addByte 0xcc (18 + i)) ++
  [addStr J n.npcname 18] ++
  (if n.mobcode = 0 then [addByte 150 30] else []) ++
  [addWord n.mobid 34] ++
  (List.range 15).map (fun i : Nat => addWord (n.inventory i).itemid (2 * i + 36)) ++
  [addByte 0 66, addByte 0 67, addWord 0 69, addWord n.level 100, addWord 3 102, addWord 93 104,
    addByte n.mobcode 106, addByte 1 107, addWord 800 108, addWord 0 110, addWord 800 112,
    addWord 0 114, addWord n.str 116, addWord n.int 118, addWord n.dex 120, addWord n.con 122,
    addWord 2047 124, addWord 2047 126, addWord 0 128, addWord 0 130] ++
  (List.range 29).map (fun i : Nat => addByte 0xcc (147 + i)) ++
  [addByte 0x00 172]

/-- `SpawnNPC` of the NPC at an index of `npcList`, which gets a new id. -/
def spawnNPC (J : Junk) (thisclient : Ptr) (i : Nat) : M Bool := do
  let id ← getNewMobID J
  modify fun s => { s with npcList := s.npcList.modify i fun n => { n with clientid := u16 id } }
  packetFree
  let s ← get
  match s.npcList[i]? with
  | none => throw .nullPtr
  | some n => do
    writes (spawnNPCFields J n)
    sendPacket thisclient 172
    note (.spawnNPC thisclient i n.clientid)
    return true

/-- `GetNPCByID`. -/
def Server.getNPCByID (s : Server) (id : Nat) : Option CNPC :=
  s.npcList.find? fun n => n.clientid = id

end Destiny
