import Destiny.Server.Extra

/-!
# The world

World entry, what a player does in the world, the commands of `game_commands.cpp` and
`VisiblityList`.
-/

namespace Destiny

open Text Sql Prog

variable (E : Env) (J : Junk)

/-! ## World entry -/

def loaddata (c : Ptr) : M Bool := do
  let cl ← client c
  match ← doSQL E Query.charData [txt cl.playerInfo.charName, txt cl.playerSession.username.str] with
  | none => return false
  | some [] => throw .nullPtr
  | some (row :: _) => do
    let charid ← colInt row 0
    let exp ← colInt row 1
    let level ← colInt row 2
    let gold ← colInt row 3
    let skillPoints ← colInt row 4
    let statPoints ← colInt row 5
    let maxHP ← colInt row 6
    let maxMP ← colInt row 7
    let str ← colInt row 8
    let int ← colInt row 9
    let dex ← colInt row 10
    let con ← colInt row 11
    let mobid ← colInt row 12
    let posX ← colInt row 13
    let posY ← colInt row 14
    let classid ← colInt row 15
    modifySession c fun a => { a with charid := u32 charid }
    modifyClient c fun cl => { cl with
      playerInfo := { cl.playerInfo with
        exp := u32 exp, level := u32 level, gold := gold, skillPoints := u32 skillPoints,
        statPoints := u32 statPoints, mobid := u32 mobid, classid := u32 classid }
      playerStats := { cl.playerStats with
        maxHP := u16 maxHP, maxMP := u16 maxMP, hp := u16 maxHP, mp := u16 maxMP, str := u16 str,
        int := u16 int, dex := u16 dex, con := u16 con }
      playerPosition := { cl.playerPosition with current := ⟨posX, posY⟩ } }
    let owner ← col row 0
    match ← doSQL E Query.charItems [txt owner] with
    | none => return true
    | some rows => do
      -- the last item is not cleared
      let items ← fetchItems 78 .itemsIndex rows fun j => if j < 77 then {} else cl.items j
      modifyClient c fun cl => { cl with items := items }
      modifySession c fun a => { a with isLoggedIn := true }
      return true

/-- The rows of the selected slot. -/
def selectName (c : Ptr) : List Fetched → M Unit
  | [] => pure ()
  | row :: rows => do
    let charName ← colName row 0
    modifyClient c fun cl => { cl with playerInfo := { cl.playerInfo with charName := charName } }
    selectName c rows

/-- Stores of single bytes from an offset on. -/
def addByteRun (off : Nat) (bs : List Int) : List Write :=
  bs.mapIdx fun i b => addByte b (off + i : Nat)

/-- The world-entry packet after its header. -/
def worldFields (cl : CConnClient) : List Write :=
  [addWord (trunc cl.playerPosition.current.x) 12, addWord (trunc cl.playerPosition.current.y) 14,
    addStr J cl.playerInfo.charName 16, addByte 150 28, addDWord cl.playerInfo.gold 40,
    addDWord cl.playerInfo.exp 44, addWord (trunc cl.playerPosition.current.x) 48,
    addWord (trunc cl.playerPosition.current.y) 50, addByte cl.playerInfo.classid 36,
    addWord 1536 38] ++
  addByteRun 52 [0x20, 0x00, 0x24, 0x00, 0x05, 0x00, 0x00, 0x52, 0x78, 0x00, 0xCF, 0x00, 0x46, 0x00,
    0x37, 0x00, 0x3D, 0x00, 0x32, 0x00, 0x33, 0x00, 0x0E, 0x00, 0x0D, 0x00, 0x2C, 0x01] ++
  [addWord cl.playerInfo.level 80, addWord cl.playerStats.defense 82,
    addWord cl.playerStats.attackPower 84, addByte 4 87,
    addWord cl.playerStats.maxHP 88, addWord cl.playerStats.maxMP 90, addWord cl.playerStats.hp 92,
    addWord cl.playerStats.mp 94, addWord cl.playerStats.str 96, addWord cl.playerStats.int 98,
    addWord cl.playerStats.dex 100, addWord cl.playerStats.con 102] ++
  addByteRun 104 [1, 2, 3, 4] ++
  [addByte cl.playerInfo.mobid 108] ++
  addByteRun 110 [43, 0, 86, 0, 28, 1] ++
  -- skills
  addByteRun 744 [0x4D, 0x4D, 0x4D, 0x00, 0x7F, 0x7F, 0x7F, 0x00] ++
  [addWord 750 752, addWord 400 754, addWord 290 756] ++
  addByteRun 760 [0xFF, 0xFF, 0xFF, 0xFF] ++
  addByteRun 768 [18, 18, 18, 18] ++
  -- quick slots
  addByteRun 778 (List.replicate 16 0xFF) ++
  addByteRun 794 [0xCC, 0xCC] ++
  addByteRun 828 [0x22, 0x00, 0x06, 0x00, 0x51, 0x4A, 0x01, 0x00] ++
  [addWord cl.playerSession.clientid 774] ++
  (List.range 78).flatMap fun i : Nat =>
    let item := cl.items i
    let off : Int := 8 * i
    [addWord item.itemid (off + 116), addByte item.add1 (off + 118), addByte item.val1 (off + 119),
      addByte item.add2 (off + 120), addByte item.val2 (off + 121), addByte item.add3 (off + 122),
      addByte item.val3 (off + 123)]

/-- The packet of `SendToWorld` that shows a player his own character. -/
def selfFields (thisclient : CConnClient) : List Write :=
  [addWord 172 0, addWord 0x0364 4, addWord 30000 6,
    addWord (trunc thisclient.playerPosition.current.x) 12,
    addWord (trunc thisclient.playerPosition.current.y) 14,
    addWord thisclient.playerSession.clientid 16] ++
  (List.range 12).map (fun i : Nat => addByte 0xcc (18 + i)) ++
  [addStr J thisclient.playerInfo.charName 18, addByte 150 30,
    addByte thisclient.playerInfo.mobid 34] ++
  (List.range 15).map (fun i : Nat => addWord (thisclient.items i).itemid (2 * i + 36)) ++
  [addWord thisclient.playerSession.clientid 66, addWord 0 69,
    addWord thisclient.playerInfo.level 100, addWord thisclient.playerStats.attackPower 102,
    addWord thisclient.playerStats.defense 104, addByte 0 106, addByte 84 107,
    addWord thisclient.playerStats.maxHP 108, addWord thisclient.playerStats.maxMP 110,
    addWord thisclient.playerStats.hp 112, addWord thisclient.playerStats.mp 114,
    addWord thisclient.playerStats.str 116, addWord thisclient.playerStats.int 118,
    addWord thisclient.playerStats.dex 120, addWord thisclient.playerStats.con 122,
    addWord 2 128, addWord 0 130] ++
  (List.range 29).map (fun i : Nat => addByte 0xcc (147 + i)) ++
  [addByte 0x00 172]

def sendToWorld (c : Ptr) (P : Packet) : M Bool := do
  packetFree
  let thisclient ← client c
  let session := thisclient.playerSession
  let slot ← rdInt P 12 1
  match ← doSQL E Query.charAt [txt session.username.str, .int slot] with
  | none => return false
  | some rows => do
    writes [addWord 1244 0, addWord 276 4, addWord session.clientid 6]
    selectName c rows
    let _ ← loaddata E c
    let thisclient ← client c
    writes (worldFields J thisclient)
    sendPacket c 1244
    modifySession c fun a => { a with inGame := true }
    modifyClient c fun cl => { cl with ready := true }
    packetFree
    writes (selfFields J thisclient)
    sendPacket c 172
    return true

/-! ## In the world -/

/-- `PlayerAttack` and `SendChat`: the received bytes relayed to those who see the player. -/
def relay (c : Ptr) (P : Packet) (copied sent : Nat) : M Bool := do
  packetFree
  let b ← rd P 0 copied
  writes [addBytes b]
  sendToVisible c sent false
  return true

def playerAttack (c : Ptr) (P : Packet) : M Bool := relay c P 96 96

def sendChat (c : Ptr) (P : Packet) : M Bool := relay c P 109 108

def objectMove (c : Ptr) (P : Packet) : M Bool := do
  let _sdid ← rdInt P 6 2
  let _cx ← rdInt P 12 2
  let _cy ← rdInt P 14 2
  let dx ← rdInt P 24 2
  let dy ← rdInt P 26 2
  let _ ← relay c P 53 52
  modifyClient c fun cl => { cl with playerPosition := ⟨⟨dx, dy⟩, ⟨dx, dy⟩⟩ }
  return true

def changeInventory (c : Ptr) (P : Packet) : M Bool := do
  packetFree
  let b ← rd P 0 21
  writes [addBytes b]
  sendPacket c 20
  return true

def shopItemBuy (c : Ptr) (P : Packet) : M Bool := do
  let thisclient ← client c
  if thisclient.playerInfo.gold < 66000 then do
    let _ ← sendServerMsg J c (ascii "You need more gold") []
    return true
  else do
    packetFree
    let b ← rd P 0 24
    writes [addBytes b, addWord 30000 6, addDWord 66000 20]
    sendPacket c 24
    let gold := thisclient.playerInfo.gold - 66000
    modifyClient c fun cl => { cl with playerInfo := { cl.playerInfo with gold := gold } }
    packetFree
    writes [addWord 16 0, addWord 0x03af 4, addWord thisclient.playerSession.clientid 6,
      addDWord gold 12]
    sendPacket c 16
    let itemid ← rdInt P 12 2
    packetFree
    let b ← rd P 14 6
    writes ([addWord 24 0, addWord 0x0182 4, addWord thisclient.playerSession.clientid 6,
      addByte 1 12, addByte 2 14, addWord itemid 16] ++
      addByteRun 18 (b.map fun x => (x.toNat : Int)))
    sendPacket c 24
    return true

def shopFields (n : CNPC) : List Write :=
  (List.range 26).flatMap fun i : Nat =>
    let item := n.shopitems i
    let off : Int := 8 * i
    [addWord item.itemid (off + 16), addByte item.add1 (off + 18), addByte item.val1 (off + 19),
      addByte item.add2 (off + 20), addByte item.val2 (off + 21), addByte item.add3 (off + 22),
      addByte item.val3 (off + 23)]

def sendNPCSellItems (c : Ptr) (P : Packet) : M Bool := do
  let tmpid ← rdInt P 12 2
  let s ← get
  packetFree
  writes [addWord 236 0, addWord 0x017C 4, addWord 30000 6]
  match s.getNPCByID tmpid with
  | none => throw .nullPtr
  | some thisnpc => do
    writes (if thisnpc.mobcode = 1 then addWord 1 12 :: shopFields thisnpc
      else if thisnpc.mobcode = 19 then addWord 3 12 :: shopFields thisnpc
      else [])
    writes [addByte 10 232]
    sendPacket c 236
    return true

def gameToCharList (c : Ptr) : M Bool := do
  let thisclient ← client c
  writes [addWord 12 0, addWord 0x0116 4, addWord thisclient.playerSession.clientid 6]
  sendPacket c 12
  return true

/-! ## Commands -/

/-- The index of the first byte that is not a blank. -/
def skipBlanks : Bytes → Nat → Option Nat
  | [], _ => none
  | c :: r, i => if c = 32 then skipBlanks r (i + 1) else some i

/-- The index of the blank or the NUL that ends a token. -/
def tokenEnd : Bytes → Nat → Option Nat
  | [], _ => none
  | c :: r, i => if c = 0 ∨ c = 32 then some i else tokenEnd r (i + 1)

/-- What a call of `strtok` with the delimiter `" "` finds, and the last index it reads. -/
structure Scan where
  token : Option Bytes
  last : Nat

/-- The scan from an index on; `none` when it leaves the memory. -/
def scan (mem : Bytes) (i : Nat) : Option Scan := do
  let j ← skipBlanks (mem.drop i) i
  if mem[j]? = some 0 then return ⟨none, j⟩
  let k ← tokenEnd (mem.drop j) j
  return ⟨some ((mem.take k).drop j), k⟩

/-- `strtok`: the token, the index to continue from, and the memory with the token ended. -/
def strtok (mem : Bytes) (i : Nat) : M (Option Bytes × Nat × Bytes) :=
  match scan mem i with
  | none => do
    modify fun s => { s with reads := s.reads ++ List.range' i (mem.length - i + 1) }
    throw .unmapped
  | some r => do
    modify fun s => { s with reads := s.reads ++ List.range' i (r.last - i + 1) }
    let next := if mem[r.last]? = some 0 then r.last else r.last + 1
    return (r.token, next, mem.set r.last 0)

/-- `n` further tokens; `none` when there are fewer. -/
def strtokMany : Nat → Bytes → Nat → M (Option (List Bytes))
  | 0, _, _ => return some []
  | n + 1, mem, i => do
    let (token, next, mem) ← strtok mem i
    match token with
    | none => return none
    | some t =>
      match ← strtokMany n mem next with
      | none => return none
      | some ts => return some (t :: ts)

/-- The arguments of a command. The first is used without a check. -/
def arguments (n : Nat) (mem : Bytes) : M (Option (List Bytes)) := do
  let (token, next, mem) ← strtok mem 28
  match token with
  | none => throw .nullPtr
  | some t =>
    match ← strtokMany n mem next with
    | none => return none
    | some ts => return some (t :: ts)

def pakGMTele (c : Ptr) (x y : Int) : M Bool := do
  packetFree
  let thisclient ← client c
  let current := thisclient.playerPosition.current
  writes ([addByte 52 0, addWord 0x0366 4, addWord thisclient.playerSession.clientid 6,
    addWord (trunc current.x) 12, addWord (trunc current.x) 14, addWord 2 16, addWord 1 20,
    addWord x 24, addWord y 26] ++
    (List.range 23).map fun i : Nat => addWord 0xcc (28 + i))
  sendToVisible c 52 true
  return true

def pakGMNotice (c : Ptr) (mem : Bytes) : M Bool := do
  let (token, _, _) ← strtok mem 28
  match token with
  | none => do
    let _ ← sendServerMsg J c (ascii "Usage:_/notice_<msg>") []
    return true
  | some tmp => do
    packetFree
    writes [addWord 108 0, addByte 0x01 4, addByte 0x01 5, addStr J tmp 12]
    note (.gm c .notice)
    sendToAll 108
    return true

def pakGMSpawn (c : Ptr) (mobcode mobid : Int) (name : Bytes) : M Bool := do
  packetFree
  let thisclient ← client c
  let s ← get
  writes ([addWord 172 0, addWord 0x0364 4, addWord 30000 6,
    addWord (trunc thisclient.playerPosition.current.x) 12,
    addWord (trunc thisclient.playerPosition.current.y) 14, addWord s.npcid 16] ++
    (List.range 12).map (fun i : Nat => addByte 0xcc (18 + i)) ++
    [addStr J name 18, addByte mobid 34, addByte 1 66, addByte 34 67, addWord 0 69, addWord 2 100,
      addWord 3 102, addWord 93 104, addByte mobcode 106, addByte 1 107, addWord 800 108,
      addWord 100 110, addWord 200 112, addWord 100 114, addWord 10 116, addWord 70 118,
      addWord 30 120, addWord 200 122, addWord 2047 124, addWord 2047 126, addWord 0 128,
      addByte 0 130] ++
    (List.range 29).map (fun i : Nat => addByte 0xcc (147 + i)) ++
    [addByte 0x01 172])
  note (.gm c .spawn)
  sendToVisible c 172 true
  modify fun s => { s with npcid := s.npcid + 1 }
  return true

def pakGMItem (c : Ptr) (slotnum itemid add1 val1 add2 val2 add3 val3 : Int) : M Bool := do
  packetFree
  let thisclient ← client c
  writes [addWord 24 0, addWord 0x0182 4, addWord thisclient.playerSession.clientid 6,
    addByte 1 12, addByte slotnum 14, addWord itemid 16, addByte add1 18, addByte val1 19,
    addByte add2 20, addByte val2 21, addByte add3 22, addByte val3 23]
  note (.gm c .item)
  sendToVisible c 24 true
  return true

def itemUsage : Bytes :=
  ascii "Usage:_/item_<slotnum>_<itemid>_<add1>_<val1>_<add2>_<val2>_<add3>_<val3>"

/-- The branches of `packetCommand`. -/
def command (c : Ptr) (accesslevel : Nat) (mem name : Bytes) : M Bool := do
  if name = ascii "notice" then
    if 90 > accesslevel then return true else pakGMNotice J c mem
  else if name = ascii "telexy" then
    if 90 > accesslevel then return true
    else
      match ← arguments 1 mem with
      | some [x, y] => do
        note (.gm c .telexy)
        pakGMTele c (atoi x) (atoi y)
      | _ => do
        let _ ← sendServerMsg J c (ascii "Usage:_/telexy_<x>_<y>") []
        return true
  else if name = ascii "spawn" then
    if 90 > accesslevel then return true
    else
      match ← arguments 2 mem with
      | some [mobcode, mobid, name] => pakGMSpawn J c (atoi mobcode) (atoi mobid) name
      | _ => do
        let _ ← sendServerMsg J c (ascii "Usage:_/spawn_<mobcode>_<mobid>_<name>") []
        return true
  else if name = ascii "time" then do
    let _ ← sendServerMsg J c (ascii "%s") [txt J.asctime]
    return true
  else if name = ascii "srv" then do
    let _ ← strtokMany 3 mem 28
    return true
  else if name = ascii "item" then
    if 90 > accesslevel then return true
    else
      match ← arguments 7 mem with
      | some [slotnum, itemid, add1, val1, add2, val2, add3, val3] =>
        pakGMItem c (atoi slotnum) (atoi itemid) (atoi add1) (atoi val1) (atoi add2) (atoi val2)
          (atoi add3) (atoi val3)
      | _ => do
        let _ ← sendServerMsg J c itemUsage []
        return true
  else return true

def packetCommand (c : Ptr) (P : Packet) : M Bool := do
  let thisclient ← client c
  let (token, _, mem) ← strtok P.mem 12
  match token with
  | none => return true
  | some name => command J c thisclient.playerSession.accesslevel mem name

/-! ## Visibility -/

/-- `ClearObject`, whose packet is commented out. -/
def clearObject (_otherclientid : Nat) : M Bool := return true

/-- The clients `VisiblityList` makes visible to `c`, which has `seen` visible now. -/
def visiblityClients (c : Ptr) (seen : List Ptr) : List Ptr → M (List Ptr)
  | [] => return []
  | p :: ps => do
    let this ← client c
    let otherclient ← client p
    if c = p ∨ ¬ otherclient.playerSession.inGame then visiblityClients c seen ps
    else
      let d := distSq this.playerPosition.current otherclient.playerPosition.current
      if p ∈ seen then
        if d < 2500 ∧ ¬ otherclient.isInvisibleMode then do
          let new ← visiblityClients c seen ps
          return p :: new
        else do
          let _ ← clearObject otherclient.playerSession.clientid
          visiblityClients c seen ps
      else
        if d < 900 ∧ ¬ otherclient.isInvisibleMode then do
          let _ ← spawnChar J c p
          let new ← visiblityClients c seen ps
          return p :: new
        else visiblityClients c seen ps

/-- The same for the NPCs at the given indices. -/
def visiblityNPCs (c : Ptr) (seen : List Nat) : List Nat → M (List Nat)
  | [] => return []
  | i :: is => do
    let this ← client c
    let s ← get
    match s.npcList[i]? with
    | none => throw .nullPtr
    | some thisnpc =>
      let d := distSq this.playerPosition.current thisnpc.pos
      if i ∈ seen then
        if d < 2500 then do
          let new ← visiblityNPCs c seen is
          return i :: new
        else do
          let _ ← clearObject thisnpc.clientid
          visiblityNPCs c seen is
      else
        if d < 900 then do
          let _ ← spawnNPC J c i
          let new ← visiblityNPCs c seen is
          return i :: new
        else visiblityNPCs c seen is

def visiblityList (c : Ptr) : M Bool := do
  let this ← client c
  let s ← get
  let newVisibleClients ← visiblityClients J c this.visibleClients s.clientList
  let newVisibleNPCs ← visiblityNPCs J c this.visibleNPCs (List.range s.npcList.length)
  modifyClient c fun cl => { cl with
    visibleClients := newVisibleClients, visibleNPCs := newVisibleNPCs }
  return true

end Destiny
