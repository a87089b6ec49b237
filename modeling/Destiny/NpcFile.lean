import Destiny.Prog.Filled
import Destiny.Server.LoadFiles
import Destiny.Shop

/-!
# NPC files

`LoadNPCFile` clears the inventory of the new object and not its shop, so a shop slot that the
file does not list holds what the memory held, and so does what `SendNPCSellItems` sends of it.
-/

namespace Destiny

open Text Sql Prog

/-- The items inside the elements of a name. -/
def childItems (nodes : List Xml) (name : Bytes) : List Xml :=
  (nodes.filter fun p => p.name = name).flatMap fun p => p.children.filter fun z => z.name = ascii "item"

/-- The items that a file lists in an array, in order. -/
def fileItems (roots : List Xml) (name : Bytes) : List Xml :=
  (roots.filter fun r => r.name = ascii "npc").flatMap fun r => childItems r.children name

/-- The slot of an item element, and the item. -/
def Xml.slotnum (z : Xml) : Nat := ((readXMLInteger z "slotnum").getD 0).toNat

def Xml.item (z : Xml) : CItem := slotFields.foldl (fun item f => readInto z f.1 f.2 item) {}

/-- An item element with all its attributes, for an array of `n` items. -/
structure Xml.FullSlot (n : Nat) (z : Xml) : Prop where
  slot : ∃ v, readXMLInteger z "slotnum" = some v ∧ 0 ≤ v ∧ v < n
  fields : ∀ f ∈ slotFields, (readXMLInteger z f.1).isSome

/-- What a slot holds: the last item listed for it, or none. -/
def slotItem (zs : List Xml) (k : Nat) : CItem := ((lastAt Xml.slotnum zs k).map Xml.item).getD {}

/-- An NPC that sells sends, of the first 26 slots, what the file lists. -/
def Sells (shop : List Xml) (npc : CNPC) : Prop :=
  npc.mobcode = 1 ∨ npc.mobcode = 19 → ∀ (c : Ptr) (P : Packet) (s : Server), (s.heap c).isSome →
    14 ≤ P.size → s.getNPCByID (ofLE ((P.mem.drop 12).take 2)) = some npc →
    ∃ t b, sendNPCSellItems c P s = .ok true t ∧ s.since t = [.send c b s.hash1] ∧
      ∀ j < 26, itemIn b (8 * j + 16) = (slotItem shop j).wire

/-- An NPC holds what its file lists. -/
structure NPCLoaded (roots : List Xml) (npc : CNPC) : Prop where
  inventory : ∀ k < 15, npc.inventory k = slotItem (fileItems roots (ascii "inventory")) k
  shopitems : ∀ k < 30, npc.shopitems k = slotItem (fileItems roots (ascii "shopitems")) k
  sells : Sells (fileItems roots (ascii "shopitems")) npc

variable {z : Xml} {zs nodes roots : List Xml} {n count : Nat} {slotnum : Int} {items : Nat → CItem}
  {npc fresh : CNPC} {posx posy : Int} {npcList : List CNPC}

/-! ## One item -/

theorem setAt_eq_update {α : Type} (a : Nat → α) (i : Nat) (x : α) :
    setAt a i x = Function.update a i x := by
  funext j
  rw [setAt, Function.update_apply]

theorem setAt_setAt {α : Type} (a : Nat → α) (i : Nat) (x y : α) :
    setAt (setAt a i x) i y = setAt a i y := by
  rw [setAt_eq_update, setAt_eq_update, setAt_eq_update, Function.update_idem]

/-- The fields of an element are all stored at its slot. -/
theorem storeFields_ok (hslot : 0 ≤ slotnum ∧ slotnum < n)
    (fields : List (String × (Nat → CItem → CItem))) (items : Nat → CItem) :
    storeFields n z slotnum fields items = .ok (setAt items slotnum.toNat
      (fields.foldl (fun item f => readInto z f.1 f.2 item) (items slotnum.toNat))) := by
  induction fields generalizing items with
  | nil => rw [storeFields, List.foldl_nil, setAt_self]
  | cons f fields ih =>
    rw [storeFields, if_neg fun h => h.2 hslot, ih, setAt_setAt, List.foldl_cons, setAt, if_pos rfl]

/-- An element with all fields replaces what a slot held. -/
theorem readFields_eq (hfields : ∀ f ∈ slotFields, (readXMLInteger z f.1).isSome) (item : CItem) :
    slotFields.foldl (fun item f => readInto z f.1 f.2 item) item = z.item := by
  simp only [slotFields, List.forall_mem_cons, List.not_mem_nil, false_imp_iff, implies_true,
    and_true, Option.isSome_iff_exists] at hfields
  obtain ⟨⟨v1, h1⟩, ⟨v2, h2⟩, ⟨v3, h3⟩, ⟨v4, h4⟩, ⟨v5, h5⟩, ⟨v6, h6⟩, ⟨v7, h7⟩⟩ := hfields
  simp only [Xml.item, slotFields, List.foldl_cons, List.foldl_nil, readInto, h1, h2, h3, h4, h5, h6, h7]

/-! ## The elements -/

/-- Items that are all complete are stored one after another. -/
theorem loadSlots_ok
    (hzs : ∀ z ∈ zs.filter fun z => z.name = ascii "item", z.FullSlot n) (slotnum : Int)
    (items : Nat → CItem) : ∃ slotnum', loadSlots n zs slotnum items =
      .ok (slotnum', filled Xml.slotnum Xml.item (zs.filter fun z => z.name = ascii "item") items) := by
  induction zs generalizing slotnum items with
  | nil => exact ⟨slotnum, rfl⟩
  | cons z zs ih =>
    by_cases hz : z.name = ascii "item"
    · rw [List.filter_cons_of_pos (by simpa using hz)] at hzs ⊢
      obtain ⟨hfull, hzs⟩ := List.forall_mem_cons.mp hzs
      obtain ⟨v, hv, hslot⟩ := hfull.slot
      obtain ⟨slotnum', hrest⟩ := ih hzs v (setAt items v.toNat z.item)
      refine ⟨slotnum', ?_⟩
      have hkey : z.slotnum = v.toNat := by rw [Xml.slotnum, hv, Option.getD_some]
      have hstore := storeFields_ok (z := z) hslot slotFields items
      rw [readFields_eq hfull.fields] at hstore
      rw [filled_cons, hkey, ← setAt_eq_update, ← hrest, loadSlots, if_pos hz, hv, Option.getD_some]
      exact congrArg (· >>= loadSlots n zs v) hstore
    · rw [List.filter_cons_of_neg (by simpa using hz)] at hzs ⊢
      obtain ⟨slotnum', hrest⟩ := ih hzs slotnum items
      exact ⟨slotnum', by rw [loadSlots, if_neg hz, hrest]⟩

theorem childItems_cons (p : Xml) (nodes : List Xml) (name : Bytes) :
    childItems (p :: nodes) name =
      (if p.name = name then p.children.filter fun z => z.name = ascii "item" else []) ++
        childItems nodes name := by
  unfold childItems
  by_cases hp : p.name = name
  · rw [if_pos hp, List.filter_cons_of_pos (by simpa using hp), List.flatMap_cons]
  · rw [if_neg hp, List.filter_cons_of_neg (by simpa using hp), List.nil_append]

/-- The arrays of an NPC with items stored into them. -/
def CNPC.given (npc : CNPC) (inventory shopitems : List Xml) : CNPC :=
  { npc with
    inventory := filled Xml.slotnum Xml.item inventory npc.inventory
    shopitems := filled Xml.slotnum Xml.item shopitems npc.shopitems }

theorem CNPC.given_given (npc : CNPC) (a b a' b' : List Xml) :
    (npc.given a b).given a' b' = npc.given (a ++ a') (b ++ b') := by
  unfold CNPC.given
  simp only [filled_append]

theorem loadNPCItems_ok
    (hinventory : ∀ z ∈ childItems nodes (ascii "inventory"), z.FullSlot 15)
    (hshop : ∀ z ∈ childItems nodes (ascii "shopitems"), z.FullSlot 30) (slotnum : Int) (npc : CNPC) :
    ∃ slotnum', loadNPCItems nodes slotnum npc = .ok (slotnum',
      npc.given (childItems nodes (ascii "inventory")) (childItems nodes (ascii "shopitems"))) := by
  have hne : ascii "inventory" ≠ ascii "shopitems" := by decide
  induction nodes generalizing slotnum npc with
  | nil => exact ⟨slotnum, rfl⟩
  | cons p nodes ih =>
    rw [childItems_cons] at hinventory hshop
    obtain ⟨hhere, hinventory⟩ := List.forall_mem_append.mp hinventory
    obtain ⟨hhere', hshop⟩ := List.forall_mem_append.mp hshop
    rw [loadNPCItems, childItems_cons, childItems_cons]
    by_cases h1 : p.name = ascii "inventory"
    · have h2 : p.name ≠ ascii "shopitems" := h1 ▸ hne
      rw [if_pos h1] at hhere
      obtain ⟨slotnum1, hload⟩ := loadSlots_ok hhere slotnum npc.inventory
      obtain ⟨slotnum2, hrest⟩ := ih hinventory hshop slotnum1
        (npc.given (p.children.filter fun z => z.name = ascii "item") [])
      refine ⟨slotnum2, ?_⟩
      rw [if_pos h1, if_pos h1, if_neg h2, hload, ← CNPC.given_given, ← hrest]
      rfl
    by_cases h2 : p.name = ascii "shopitems"
    · rw [if_pos h2] at hhere'
      obtain ⟨slotnum1, hload⟩ := loadSlots_ok hhere' slotnum npc.shopitems
      obtain ⟨slotnum2, hrest⟩ := ih hinventory hshop slotnum1
        (npc.given [] (p.children.filter fun z => z.name = ascii "item"))
      refine ⟨slotnum2, ?_⟩
      rw [if_neg h1, if_neg h1, if_pos h2, if_pos h2, hload, ← CNPC.given_given, ← hrest]
      rfl
    · obtain ⟨slotnum2, hrest⟩ := ih hinventory hshop slotnum npc
      rw [if_neg h1, if_neg h1, if_neg h2, if_neg h2]
      exact ⟨slotnum2, hrest⟩

/-! ## The file -/

theorem readInto_keeps {α β : Type} (f : α → β) {tag : String} {set : Nat → α → α}
    (hset : ∀ v a, f (set v a) = f a) (a : α) : f (readInto z tag set a) = f a := by
  unfold readInto
  split
  · exact hset _ _
  · rfl

def CNPC.arrays (npc : CNPC) : (Nat → CItem) × (Nat → CItem) := (npc.inventory, npc.shopitems)

/-- The attributes of an element leave the items. -/
theorem readNPC_arrays (root : Xml) (npc : CNPC) : (readNPC root npc).arrays = npc.arrays := by
  unfold readNPC
  dsimp only
  iterate 7 rw [readInto_keeps CNPC.arrays (by intro v npc; rfl)]
  rfl

/-- The one object takes the items of all elements, and is listed once for each. -/
theorem loadNPCRoots_ok
    (hinventory : ∀ z ∈ fileItems roots (ascii "inventory"), z.FullSlot 15)
    (hshop : ∀ z ∈ fileItems roots (ascii "shopitems"), z.FullSlot 30) (slotnum : Int) (npc : CNPC)
    (count : Nat) :
    ∃ npc', loadNPCRoots roots slotnum npc count =
        .ok (npc', count + (roots.filter fun r => r.name = ascii "npc").length) ∧
      npc'.inventory = filled Xml.slotnum Xml.item (fileItems roots (ascii "inventory")) npc.inventory ∧
      npc'.shopitems = filled Xml.slotnum Xml.item (fileItems roots (ascii "shopitems")) npc.shopitems := by
  induction roots generalizing slotnum npc count with
  | nil => exact ⟨npc, rfl, rfl, rfl⟩
  | cons root roots ih =>
    unfold fileItems at hinventory hshop ⊢
    by_cases hroot : root.name = ascii "npc"
    · rw [List.filter_cons_of_pos (by simpa using hroot)] at hinventory hshop ⊢
      rw [List.flatMap_cons] at hinventory hshop ⊢
      obtain ⟨hhere, hinventory⟩ := List.forall_mem_append.mp hinventory
      obtain ⟨hhere', hshop⟩ := List.forall_mem_append.mp hshop
      obtain ⟨slotnum1, hload⟩ := loadNPCItems_ok hhere hhere' slotnum (readNPC root npc)
      obtain ⟨npc', hrest, hinv, hshops⟩ := ih hinventory hshop slotnum1
        ((readNPC root npc).given (childItems root.children (ascii "inventory"))
          (childItems root.children (ascii "shopitems"))) (count + 1)
      obtain ⟨hinv0, hshop0⟩ := Prod.mk.inj (readNPC_arrays root npc)
      refine ⟨npc', ?_, ?_, ?_⟩
      · rw [loadNPCRoots, if_pos hroot, hload]
        refine hrest.trans ?_
        rw [List.length_cons, Nat.add_assoc, Nat.add_comm 1]
      · rw [hinv, filled_append, ← hinv0]
        rfl
      · rw [List.flatMap_cons, hshops, filled_append, ← hshop0]
        rfl
    · rw [List.filter_cons_of_neg (by simpa using hroot)] at hinventory hshop ⊢
      obtain ⟨npc', hrest⟩ := ih hinventory hshop slotnum npc count
      exact ⟨npc', by rw [loadNPCRoots, if_neg hroot]; exact hrest⟩

/-! ## What is sold -/

theorem shopFields_eq (npc : CNPC) : shopFields npc = itemBlock npc.shopitems 16 26 := by
  unfold shopFields itemBlock itemStores
  refine congrArg (fun f => (List.range 26).flatMap f) (funext fun i => ?_)
  simp only [add_assoc, Int.reduceAdd]

/-- The stores of the packet of an NPC that sells. -/
def sellFields (kind : Int) (npc : CNPC) : List Write :=
  [addWord 236 0, addWord 0x017C 4, addWord 30000 6] ++ (addWord kind 12 :: shopFields npc) ++
    [addByte 10 232]

theorem sellFields_inBounds (kind : Int) (npc : CNPC) : ∀ w ∈ sellFields kind npc, w.inBounds = true := by
  unfold sellFields
  refine List.forall_mem_append.mpr ⟨List.forall_mem_append.mpr ⟨?_, List.forall_mem_cons.mpr
    ⟨?_, fun w hw => ?_⟩⟩, ?_⟩
  · simp [Write.inBounds, addWord]
  · simp [Write.inBounds, addWord]
  · rw [shopFields_eq] at hw
    have hw := mem_itemBlock hw
    simp only [Write.inBounds, Bool.and_eq_true, decide_eq_true_eq]
    omega
  · simp [Write.inBounds, addByte]

/-- An entry of the packet is the item of its slot. -/
theorem itemIn_sellFields (kind : Int) (npc : CNPC) {j : Nat} (hj : j < 26) :
    itemIn (sentPacket (sellFields kind npc) 236) (8 * j + 16) = (npc.shopitems j).wire := by
  rw [sentPacket, itemIn_range (by omega), sellFields, stores_append, stores_append, shopFields_eq]
  have hclear : ∀ w ∈ [addByte 10 232], w.clear (8 * j + 16) 8 ∧ 0 ≤ w.off := by
    simp only [List.forall_mem_cons, List.not_mem_nil, false_imp_iff, implies_true, and_true,
      Write.clear, addByte, leBytes_length]
    omega
  rw [itemAt_clear hclear, stores_cons]
  exact itemAt_itemBlock hj (by push_cast; ring) (by decide)

theorem sendNPCSellItems_apply {c : Ptr} {P : Packet} {s : Server} {kind : Int} (hc : (s.heap c).isSome)
    (hP : 14 ≤ P.size) (hid : s.getNPCByID (ofLE ((P.mem.drop 12).take 2)) = some npc)
    (hkind : npc.mobcode = 1 ∧ kind = 1 ∨ npc.mobcode = 19 ∧ kind = 3) :
    ∃ t, sendNPCSellItems c P s = .ok true t ∧
      s.since t = [.send c (sentPacket (sellFields kind npc) 236) s.hash1] := by
  obtain ⟨cl, hcl⟩ := Option.isSome_iff_exists.mp hc
  have hmem : 14 ≤ P.mem.length := by
    rw [Packet.mem, List.length_append]
    exact hP.trans (Nat.le_add_right _ _)
  let head : List Write := [addWord 236 0, addWord 0x017C 4, addWord 30000 6]
  let body : List Write := addWord kind 12 :: shopFields npc
  let s0 : Server := { s with reads := s.reads ++ List.range' 12 2 }
  let s1 : Server := { s0 with packet := fun _ => 0 }
  let s2 : Server := { s1 with packet := stores head s1.packet }
  let s3 : Server := { s2 with packet := stores body s2.packet }
  have hin := sellFields_inBounds kind npc
  have hhead : writes head s1 = .ok () s2 := writes_apply (fun w hw => hin w (by
    simp only [head, sellFields, List.mem_append, List.mem_cons] at hw ⊢
    tauto)) s1
  have hbody : writes (if npc.mobcode = 1 then addWord 1 12 :: shopFields npc
      else if npc.mobcode = 19 then addWord 3 12 :: shopFields npc else []) s2 = .ok () s3 := by
    have hsame : (if npc.mobcode = 1 then addWord 1 12 :: shopFields npc
        else if npc.mobcode = 19 then addWord 3 12 :: shopFields npc else []) = body := by
      rcases hkind with ⟨hmob, rfl⟩ | ⟨hmob, rfl⟩
      · exact if_pos hmob
      · rw [if_neg (by omega), if_pos hmob]
    rw [hsame]
    exact writes_apply (fun w hw => hin w (by
      simp only [body, sellFields, List.mem_append, List.mem_cons] at hw ⊢
      tauto)) s2
  refine ⟨({ s3 with packet := stores [addByte 10 232] s3.packet } : Server).sent c 236, ?_, ?_⟩
  · refine (bind_ok (rdInt_apply (by omega) s)).trans ?_
    refine (bind_ok (show (get : M Server) s0 = .ok s0 s0 from rfl)).trans ?_
    refine (bind_ok (show packetFree s0 = .ok () s1 from rfl)).trans ((bind_ok hhead).trans ?_)
    have hid : s0.getNPCByID (ofLE ((P.mem.drop 12).take 2)) = some npc := hid
    rw [hid]
    refine (bind_ok hbody).trans (composed_apply (s := s3) hcl ?_)
    simp [Write.inBounds, addByte]
  · apply since_eq
    have hpacket : stores [addByte 10 232] s3.packet = stores (sellFields kind npc) fun _ => 0 := by
      rw [sellFields, stores_append, stores_append]
    show Event.send c ((List.range 236).map (stores [addByte 10 232] s3.packet)) s.hash1 :: s.trace =
      [_] ++ s.trace
    rw [hpacket]
    rfl

/-- An NPC whose slots are right sells what is in them. -/
theorem sells_of {shop : List Xml} (hshop : ∀ k < 30, npc.shopitems k = slotItem shop k) :
    Sells shop npc := by
  intro hmob c P s hc hP hid
  obtain ⟨kind, hkind⟩ : ∃ kind : Int, npc.mobcode = 1 ∧ kind = 1 ∨ npc.mobcode = 19 ∧ kind = 3 := by
    rcases hmob with h | h
    · exact ⟨1, .inl ⟨h, rfl⟩⟩
    · exact ⟨3, .inr ⟨h, rfl⟩⟩
  obtain ⟨t, hrun, hsince⟩ := sendNPCSellItems_apply hc hP hid hkind
  refine ⟨t, _, hrun, hsince, fun j hj => ?_⟩
  rw [itemIn_sellFields kind npc hj, hshop j (by omega)]

/-- The NPCs of a file hold what it lists, and sell it, exactly when the memory was clear at the
shop slots that the file does not list. -/
theorem loadNPCFile_iff (hroot : ∃ r ∈ roots, r.name = ascii "npc")
    (hinventory : ∀ z ∈ fileItems roots (ascii "inventory"), z.FullSlot 15)
    (hshop : ∀ z ∈ fileItems roots (ascii "shopitems"), z.FullSlot 30) :
    (∃ npcs, npcs ≠ [] ∧
      loadNPCFile fresh slotnum (some roots) posx posy npcList = .ok (true, npcList ++ npcs) ∧
      ∀ npc ∈ npcs, NPCLoaded roots npc) ↔
    ∀ k < 30, (∀ z ∈ fileItems roots (ascii "shopitems"), z.slotnum ≠ k) → fresh.shopitems k = {} := by
  obtain ⟨npc, hload, hinv, hshops⟩ :=
    loadNPCRoots_ok hinventory hshop slotnum (newNPC fresh posx posy) 0
  rw [Nat.zero_add] at hload
  have hfile : loadNPCFile fresh slotnum (some roots) posx posy npcList = .ok (true, npcList ++
      List.replicate (roots.filter fun r => r.name = ascii "npc").length npc) := by
    rw [loadNPCFile, hload]
    rfl
  have hpos : 0 < (roots.filter fun r => r.name = ascii "npc").length := by
    obtain ⟨r, hr, hname⟩ := hroot
    exact List.length_pos_of_mem (List.mem_filter.mpr ⟨hr, decide_eq_true hname⟩)
  have hslots : (∀ k < 30, npc.shopitems k = slotItem (fileItems roots (ascii "shopitems")) k) ↔
      ∀ k < 30, (∀ z ∈ fileItems roots (ascii "shopitems"), z.slotnum ≠ k) → fresh.shopitems k = {} := by
    rw [hshops]
    exact filled_eq_iff
  rw [← hslots]
  constructor
  · rintro ⟨npcs, -, hrun, hall⟩
    rw [hfile] at hrun
    have hnpcs := List.append_cancel_left (congrArg Prod.snd (Except.ok.inj hrun))
    refine (hall npc ?_).shopitems
    rw [← hnpcs]
    exact List.mem_replicate.mpr ⟨hpos.ne', rfl⟩
  · intro hright
    refine ⟨_, fun hnil => ?_, hfile, fun npc' hnpc' => ?_⟩
    · rw [List.replicate_eq_nil_iff] at hnil
      omega
    · obtain rfl := List.eq_of_mem_replicate hnpc'
      refine ⟨fun k hk => ?_, hright, sells_of hright⟩
      have hclear : (newNPC fresh posx posy).inventory k = {} := if_pos hk
      rw [hinv, filled_apply, hclear]
      rfl

/-- An item in a slot, with no additions. -/
def slotElement (k itemid : Int) : Xml :=
  .node (ascii "item") ((ascii "slotnum", decimal k) :: (ascii "itemid", decimal itemid) ::
    (slotFields.map (·.1)).tail.map fun tag => (ascii tag, ascii "0")) []

/-- The file of an NPC that sells one item, in slot 0. -/
def merchant : List Xml :=
  [.node (ascii "npc") [(ascii "mobcode", ascii "1")]
    [.node (ascii "shopitems") [] [slotElement 0 412]]]

/-- The memory of a new NPC, with something in every shop slot. -/
def usedNPC (item : CItem) : CNPC := ⟨7, ⟨7, 7⟩, [], fun _ => item, fun _ => item, 7, 7, 7, 7, 7, 7, 7⟩

theorem merchant_fullSlot : (∀ z ∈ fileItems merchant (ascii "inventory"), z.FullSlot 15) ∧
    ∀ z ∈ fileItems merchant (ascii "shopitems"), z.FullSlot 30 := by
  have hinventory : fileItems merchant (ascii "inventory") = [] := by decide +kernel
  have hshop : fileItems merchant (ascii "shopitems") = [slotElement 0 412] := by rfl
  rw [hinventory, hshop]
  refine ⟨nofun, List.forall_mem_cons.mpr ⟨⟨⟨0, by decide, by decide⟩, by decide⟩, nofun⟩⟩

theorem loadNPCFile_iff_clear : ∃ npcs, npcs ≠ [] ∧
    loadNPCFile (usedNPC {}) 7 (some merchant) 10 20 [] = .ok (true, [] ++ npcs) ∧
      ∀ npc ∈ npcs, NPCLoaded merchant npc :=
  (loadNPCFile_iff (by decide) merchant_fullSlot.1 merchant_fullSlot.2).mpr fun _ _ _ => rfl

/-- What the memory held is sold. -/
theorem usedMemory_sold :
    (loadNPCFile (usedNPC { itemid := 9 }) 7 (some merchant) 10 20 []).toOption.map (fun r =>
      r.2.map fun npc => (npc.mobcode, (npc.shopitems 0).itemid, (npc.shopitems 1).itemid)) =
        some [(1, 412, 9)] ∧
    ¬ ∃ npcs, npcs ≠ [] ∧
      loadNPCFile (usedNPC { itemid := 9 }) 7 (some merchant) 10 20 [] = .ok (true, [] ++ npcs) ∧
        ∀ npc ∈ npcs, NPCLoaded merchant npc := by
  refine ⟨by decide +kernel, fun h => ?_⟩
  have hclear := (loadNPCFile_iff (by decide) merchant_fullSlot.1 merchant_fullSlot.2).mp h 1 (by decide)
    (by decide)
  cases hclear

end Destiny
