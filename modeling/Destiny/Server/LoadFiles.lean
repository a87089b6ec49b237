import Destiny.Server.Account
import Destiny.Server.World

/-!
# Files read at the start

The NPC files and the item list. Each loader allocates one object before it walks the document,
and what the object holds then is whatever the memory held.
-/

namespace Destiny

open Text

/-- `readXMLString`. -/
def readXMLString (node : Xml) (tag : String) : Option Bytes :=
  (node.props.find? fun p => p.1 == ascii tag).map fun p => cstr p.2

/-- An attribute stored into an `unsigned int` field, when the element has it. -/
def readInto {α : Type} (node : Xml) (tag : String) (set : Nat → α → α) (a : α) : α :=
  match readXMLInteger node tag with
  | some intvalue => set (u32 intvalue) a
  | none => a

/-! ## NPC files -/

/-- The fields of an item that are read after its `slotnum`. -/
def slotFields : List (String × (Nat → CItem → CItem)) :=
  [("itemid", fun v item => { item with itemid := v }), ("add1", fun v item => { item with add1 := v }),
    ("val1", fun v item => { item with val1 := v }), ("add2", fun v item => { item with add2 := v }),
    ("val2", fun v item => { item with val2 := v }), ("add3", fun v item => { item with add3 := v }),
    ("val3", fun v item => { item with val3 := v })]

/-- The fields that an element has, stored at `slotnum` into an array of `n` items. -/
def storeFields (n : Nat) (z2 : Xml) (slotnum : Int) :
    List (String × (Nat → CItem → CItem)) → (Nat → CItem) → Except Fault (Nat → CItem)
  | [], items => .ok items
  | (tag, set) :: fields, items =>
    if (readXMLInteger z2 tag).isSome ∧ ¬ (0 ≤ slotnum ∧ slotnum < n) then .error .itemsIndex
    else
      storeFields n z2 slotnum fields
        (setAt items slotnum.toNat (readInto z2 tag set (items slotnum.toNat)))

/-- The `item` elements; `slotnum` keeps its value from one to the next. -/
def loadSlots (n : Nat) : List Xml → Int → (Nat → CItem) → Except Fault (Int × (Nat → CItem))
  | [], slotnum, items => .ok (slotnum, items)
  | z2 :: rest, slotnum, items =>
    if z2.name = ascii "item" then do
      let slotnum := (readXMLInteger z2 "slotnum").getD slotnum
      let items ← storeFields n z2 slotnum slotFields items
      loadSlots n rest slotnum items
    else loadSlots n rest slotnum items

/-- The elements inside an `npc` element. -/
def loadNPCItems : List Xml → Int → CNPC → Except Fault (Int × CNPC)
  | [], slotnum, thisnpc => .ok (slotnum, thisnpc)
  | p2 :: rest, slotnum, thisnpc =>
    if p2.name = ascii "inventory" then do
      let (slotnum, inventory) ← loadSlots 15 p2.children slotnum thisnpc.inventory
      loadNPCItems rest slotnum { thisnpc with inventory := inventory }
    else if p2.name = ascii "shopitems" then do
      let (slotnum, shopitems) ← loadSlots 30 p2.children slotnum thisnpc.shopitems
      loadNPCItems rest slotnum { thisnpc with shopitems := shopitems }
    else loadNPCItems rest slotnum thisnpc

/-- The attributes of an `npc` element. -/
def readNPC (root2 : Xml) (thisnpc : CNPC) : CNPC :=
  let thisnpc := { thisnpc with npcname := (readXMLString root2 "name").getD thisnpc.npcname }
  let thisnpc := readInto root2 "mobid" (fun v n => { n with mobid := v }) thisnpc
  let thisnpc := readInto root2 "mobcode" (fun v n => { n with mobcode := v }) thisnpc
  let thisnpc := readInto root2 "level" (fun v n => { n with level := v }) thisnpc
  let thisnpc := readInto root2 "str" (fun v n => { n with str := v }) thisnpc
  let thisnpc := readInto root2 "int" (fun v n => { n with int := v }) thisnpc
  let thisnpc := readInto root2 "dex" (fun v n => { n with dex := v }) thisnpc
  readInto root2 "con" (fun v n => { n with con := v }) thisnpc

/-- The document element of an NPC file and what follows it, and how many times the object was
put into `NPCList`. -/
def loadNPCRoots : List Xml → Int → CNPC → Nat → Except Fault (CNPC × Nat)
  | [], _, thisnpc, count => .ok (thisnpc, count)
  | root2 :: rest, slotnum, thisnpc, count =>
    if root2.name = ascii "npc" then do
      let (slotnum, thisnpc) ← loadNPCItems root2.children slotnum (readNPC root2 thisnpc)
      loadNPCRoots rest slotnum thisnpc (count + 1)
    else loadNPCRoots rest slotnum thisnpc count

/-- The object for an NPC file, in memory that held `fresh`. -/
def newNPC (fresh : CNPC) (posx posy : Int) : CNPC :=
  { fresh with
    npcname := []
    inventory := fun j => if j < 15 then {} else fresh.inventory j
    pos := ⟨posx, posy⟩ }

/-- `LoadNPCFile`: its result and `NPCList`, given what the new object and the variable `slotnum`
held before. -/
def loadNPCFile (fresh : CNPC) (slotnum : Int) (doc2 : Option (List Xml)) (posx posy : Int)
    (npcList : List CNPC) : Except Fault (Bool × List CNPC) :=
  match doc2 with
  | none => .ok (false, npcList)
  | some roots => do
    let (thisnpc, count) ← loadNPCRoots roots slotnum (newNPC fresh posx posy) 0
    return (true, npcList ++ List.replicate count thisnpc)

/-! ## The item list -/

structure CEffect where
  effectid : Nat
  value : Nat

structure CEquip where
  itemid : Nat
  name : Bytes
  rlvl : Nat
  pos : Nat
  mesh : Nat
  wtype : Nat
  reqStr : Nat
  reqInt : Nat
  reqDex : Nat
  reqCon : Nat
  price : Nat
  effects : Nat → CEffect

/-- The attributes of the effects, in the order they are read. -/
def effectTags : List (String × String) :=
  [("N0", "V0"), ("N1", "V1"), ("N2", "V2"), ("N3", "V3"), ("N4", "V4"), ("N5", "V5"), ("N6", "V6"),
    ("N7", "V7"), ("N8", "V8"), ("N9", "V9"), ("N10", "V10"), ("N11", "V11")]

/-- The attributes of an effect stored at an index of `effects`. -/
def readEffect (p : Xml) (newitem : CEquip) (i : Nat) (tags : String × String) : CEquip :=
  let effect := readInto p tags.1 (fun v e => { e with effectid := v }) (newitem.effects i)
  let effect := readInto p tags.2 (fun v e => { e with value := v }) effect
  { newitem with effects := setAt newitem.effects i effect }

/-- The attributes of an `item` element. -/
def readEquip (p : Xml) (newitem : CEquip) : CEquip :=
  let newitem := readInto p "id" (fun v e => { e with itemid := v }) newitem
  let newitem := { newitem with name := (readXMLString p "name").getD newitem.name }
  let newitem := readInto p "mesh" (fun v e => { e with mesh := v }) newitem
  let newitem := readInto p "req_lvl" (fun v e => { e with rlvl := v }) newitem
  let newitem := readInto p "req_str" (fun v e => { e with reqStr := v }) newitem
  let newitem := readInto p "req_int" (fun v e => { e with reqInt := v }) newitem
  let newitem := readInto p "req_dex" (fun v e => { e with reqDex := v }) newitem
  let newitem := readInto p "req_con" (fun v e => { e with reqCon := v }) newitem
  let newitem := readInto p "price" (fun v e => { e with price := v }) newitem
  let newitem := readInto p "pos" (fun v e => { e with pos := v }) newitem
  let newitem := readInto p "equip_type" (fun v e => { e with wtype := v }) newitem
  let newitem := readInto p "pos" (fun v e => { e with pos := v }) newitem
  effectTags.zipIdx.foldl (fun newitem ti => readEffect p newitem ti.2 ti.1) newitem

/-- The indices of `effects` that an element stores to. -/
def effectIndices (p : Xml) : List Nat :=
  (effectTags.zipIdx.filter fun ti =>
    (readXMLInteger p ti.1.1).isSome ∨ (readXMLInteger p ti.1.2).isSome).map (·.2)

/-- The objects that `EquipList` points to, and the list. -/
structure Equips where
  heap : Ptr → Option CEquip
  equipList : List Ptr
  /-- The indices of `effects` that were stored to. -/
  indices : List Nat

/-- The `item` elements, each read into the one object. -/
def loadEquips (newitem : Ptr) : List Xml → Equips → Equips
  | [], s => s
  | p :: rest, s =>
    if p.name = ascii "item" then
      loadEquips newitem rest
        { heap := fun q => if q = newitem then (s.heap q).map (readEquip p) else s.heap q
          equipList := s.equipList ++ [newitem]
          indices := s.indices ++ effectIndices p }
    else loadEquips newitem rest s

/-- `LoadItemList`, when the new object is at `newitem` and the memory held `fresh`. -/
def loadItemList (newitem : Ptr) (fresh : CEquip) (doc : Option Xml) (s : Equips) : Bool × Equips :=
  let s := { s with
    heap := fun q => if q = newitem then some { fresh with name := [] } else s.heap q }
  match doc with
  | none => (false, s)
  | some root =>
    if root.name ≠ ascii "itemlist" then (false, s) else (true, loadEquips newitem root.children s)

end Destiny
