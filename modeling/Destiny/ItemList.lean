import Destiny.Server.LoadFiles

/-!
# The item list

`LoadItemList` allocates one object for all elements, so every entry of `EquipList` is that
object and holds what the last element says; and the twelfth pair of an effect is stored behind
an array of eleven.
-/

namespace Destiny

open Text

/-- The fields of an item by the attributes they come from. -/
def equipFields : List (String × (CEquip → Nat)) :=
  [("id", CEquip.itemid), ("mesh", CEquip.mesh), ("req_lvl", CEquip.rlvl), ("req_str", CEquip.reqStr),
    ("req_int", CEquip.reqInt), ("req_dex", CEquip.reqDex), ("req_con", CEquip.reqCon),
    ("price", CEquip.price), ("pos", CEquip.pos), ("equip_type", CEquip.wtype)]

/-- An object holds what an element says. -/
structure CEquip.Carries (e : CEquip) (p : Xml) : Prop where
  name : readXMLString p "name" = some e.name
  fields : ∀ f ∈ equipFields, (readXMLInteger p f.1).map u32 = some (f.2 e)
  effects : ∀ ti ∈ effectTags.zipIdx,
    (readXMLInteger p ti.1.1).map u32 = some (e.effects ti.2).effectid ∧
      (readXMLInteger p ti.1.2).map u32 = some (e.effects ti.2).value

/-- An element with all the attributes that are read. -/
structure Xml.FullItem (p : Xml) : Prop where
  name : (readXMLString p "name").isSome
  fields : ∀ f ∈ equipFields, (readXMLInteger p f.1).isSome
  effects : ∀ tags ∈ effectTags, (readXMLInteger p tags.1).isSome ∧ (readXMLInteger p tags.2).isSome

/-- The elements that describe items. -/
def Xml.items (root : Xml) : List Xml := root.children.filter fun p => p.name = ascii "item"

variable {p root : Xml} {e fresh : CEquip} {newitem : Ptr} {nodes : List Xml} {s : Equips}
  {heap : Ptr → Option CEquip}

/-! ## One element -/

theorem readInto_of_some {α : Type} {tag : String} {v : Int} {set : Nat → α → α}
    (h : readXMLInteger p tag = some v) (a : α) : readInto p tag set a = set (u32 v) a := by
  rw [readInto, h]

/-- An effect that an element has is stored. -/
theorem readEffect_apply (p : Xml) (e : CEquip) (i : Nat) (tags : String × String) :
    (∀ v ∈ readXMLInteger p tags.1, ((readEffect p e i tags).effects i).effectid = u32 v) ∧
      ∀ v ∈ readXMLInteger p tags.2, ((readEffect p e i tags).effects i).value = u32 v := by
  have hat : (readEffect p e i tags).effects i =
      readInto p tags.2 (fun v e => { e with value := v })
        (readInto p tags.1 (fun v e => { e with effectid := v }) (e.effects i)) := if_pos rfl
  rw [hat]
  unfold readInto
  cases readXMLInteger p tags.1 <;> cases readXMLInteger p tags.2 <;> simp

/-- The effects from an index on. -/
theorem readEffects_apply (p : Xml) (ts : List (String × String)) (k : Nat) (e : CEquip) :
    ∃ effects, (ts.zipIdx k).foldl (fun e ti => readEffect p e ti.2 ti.1) e =
        { e with effects := effects } ∧
      (∀ i < k, effects i = e.effects i) ∧
      ∀ ti ∈ ts.zipIdx k, (∀ v ∈ readXMLInteger p ti.1.1, (effects ti.2).effectid = u32 v) ∧
        ∀ v ∈ readXMLInteger p ti.1.2, (effects ti.2).value = u32 v := by
  induction ts generalizing k e with
  | nil => exact ⟨e.effects, rfl, fun _ _ => rfl, nofun⟩
  | cons t ts ih =>
    obtain ⟨effects, hrun, hbefore, hafter⟩ := ih (k + 1) (readEffect p e k t)
    refine ⟨effects, hrun, fun i hi => ?_, ?_⟩
    · rw [hbefore i (by omega)]
      exact if_neg (by omega)
    · rw [List.zipIdx_cons, List.forall_mem_cons, hbefore k (by omega)]
      exact ⟨readEffect_apply p e k t, hafter⟩

/-- An element with all attributes is taken over, whatever the object held. -/
theorem readEquip_carries (hp : p.FullItem) (e : CEquip) : (readEquip p e).Carries p := by
  obtain ⟨name, hname⟩ := Option.isSome_iff_exists.mp hp.name
  have hfields : ∀ f ∈ equipFields, ∃ v, readXMLInteger p f.1 = some v := fun f hf =>
    Option.isSome_iff_exists.mp (hp.fields f hf)
  simp only [equipFields, List.forall_mem_cons, List.not_mem_nil, false_imp_iff, implies_true,
    and_true] at hfields
  obtain ⟨⟨v1, h1⟩, ⟨v2, h2⟩, ⟨v3, h3⟩, ⟨v4, h4⟩, ⟨v5, h5⟩, ⟨v6, h6⟩, ⟨v7, h7⟩, ⟨v8, h8⟩, ⟨v9, h9⟩,
    ⟨v10, h10⟩⟩ := hfields
  unfold readEquip
  simp only [readInto_of_some h1, readInto_of_some h2, readInto_of_some h3, readInto_of_some h4,
    readInto_of_some h5, readInto_of_some h6, readInto_of_some h7, readInto_of_some h8,
    readInto_of_some h9, readInto_of_some h10, hname, Option.getD_some]
  obtain ⟨effects, hrun, -, heffects⟩ := readEffects_apply p effectTags 0
    ⟨u32 v1, name, u32 v3, u32 v9, u32 v2, u32 v10, u32 v4, u32 v5, u32 v6, u32 v7, u32 v8, e.effects⟩
  rw [hrun]
  refine ⟨hname, ?_, fun ti hti => ?_⟩
  · simp only [equipFields, List.forall_mem_cons, List.not_mem_nil, false_imp_iff, implies_true,
      and_true, h1, h2, h3, h4, h5, h6, h7, h8, h9, h10, Option.map_some]
  · obtain ⟨hid, hvalue⟩ := heffects ti hti
    obtain ⟨hhas, hhas'⟩ := hp.effects ti.1 (List.fst_mem_of_mem_zipIdx hti)
    obtain ⟨n, hn⟩ := Option.isSome_iff_exists.mp hhas
    obtain ⟨v, hv⟩ := Option.isSome_iff_exists.mp hhas'
    rw [hn, hv]
    exact ⟨congrArg some (hid n hn).symm, congrArg some (hvalue v hv).symm⟩

/-! ## The document -/

/-- What the walk leaves: one object, which has been given every element in turn, and is in the
list as often. -/
theorem loadEquips_eq (hs : s.heap newitem = some e) :
    let items := nodes.filter fun p => p.name = ascii "item"
    loadEquips newitem nodes s =
      { heap := fun q => if q = newitem then some (items.foldl (fun e p => readEquip p e) e) else s.heap q
        equipList := s.equipList ++ List.replicate items.length newitem
        indices := s.indices ++ items.flatMap effectIndices } := by
  induction nodes generalizing s e with
  | nil =>
    have hheap : s.heap = fun q => if q = newitem then some e else s.heap q := by
      funext q
      by_cases hq : q = newitem
      · rw [if_pos hq, hq, hs]
      · rw [if_neg hq]
    simp only [loadEquips, List.filter_nil, List.foldl_nil, List.length_nil, List.replicate_zero,
      List.flatMap_nil, List.append_nil, ← hheap]
  | cons p nodes ih =>
    rw [loadEquips]
    by_cases hp : p.name = ascii "item"
    · have hnew : (fun q => if q = newitem then (s.heap q).map (readEquip p) else s.heap q) newitem =
          some (readEquip p e) := by
        dsimp only
        rw [if_pos rfl, hs]
        rfl
      rw [if_pos hp, ih hnew, List.filter_cons_of_pos (by simpa using hp)]
      simp only [List.foldl_cons, List.length_cons, List.replicate_succ, List.flatMap_cons,
        List.append_assoc, List.singleton_append]
      congr 1
      funext q
      by_cases hq : q = newitem
      · rw [if_pos hq, if_pos hq]
      · rw [if_neg hq, if_neg hq, if_neg hq]
    · rw [if_neg hp, ih hs, List.filter_cons_of_neg (by simpa using hp)]

/-- The list has an entry for each element, which carries what the element says, and every index
of `effects` is inside the array of eleven. -/
structure ItemsLoaded (root : Xml) (r : Bool × Equips) : Prop where
  loaded : r.1 = true
  length : r.2.equipList.length = root.items.length
  entries : ∀ (i : Nat) (p : Xml), root.items[i]? = some p →
    ∃ q e, r.2.equipList[i]? = some q ∧ r.2.heap q = some e ∧ e.Carries p
  inside : ∀ i ∈ r.2.indices, i < 11

theorem loadItemList_eq (hroot : root.name = ascii "itemlist") :
    loadItemList newitem fresh (some root) ⟨heap, [], []⟩ =
      (true, ⟨fun q => if q = newitem then
          some (root.items.foldl (fun e p => readEquip p e) { fresh with name := [] }) else heap q,
        List.replicate root.items.length newitem, root.items.flatMap effectIndices⟩) := by
  rw [loadItemList]
  dsimp only
  rw [if_neg (not_not_intro hroot), loadEquips_eq (e := { fresh with name := [] }) (if_pos rfl)]
  congr 2
  funext q
  by_cases hq : q = newitem
  · rw [if_pos hq, if_pos hq]
    rfl
  · rw [if_neg hq, if_neg hq]
    exact if_neg hq

/-- Every entry of the list is what the last element says. -/
theorem entries_last {r : Bool × Equips} {q : Ptr} (hroot : root.name = ascii "itemlist")
    (hr : loadItemList newitem fresh (some root) ⟨heap, [], []⟩ = r)
    (hlast : root.items.getLast? = some p) (hp : p.FullItem) (hq : q ∈ r.2.equipList) :
    ∃ e, r.2.heap q = some e ∧ e.Carries p := by
  rw [loadItemList_eq hroot] at hr
  generalize he : root.items.foldl (fun e p => readEquip p e) { fresh with name := [] } = e at hr
  subst hr
  refine ⟨e, if_pos (List.eq_of_mem_replicate hq), ?_⟩
  obtain ⟨before, hbefore⟩ := List.getLast?_eq_some_iff.mp hlast
  rw [hbefore, List.foldl_append, List.foldl_cons, List.foldl_nil] at he
  rw [← he]
  exact readEquip_carries hp _

/-- The twelfth effect of an element is stored behind the array. -/
theorem effectIndices_outside (hp : p.FullItem) : 11 ∈ effectIndices p := by
  have hhas : (readXMLInteger p "N11").isSome = true := (hp.effects ("N11", "V11") (by decide)).1
  unfold effectIndices
  refine List.mem_map.mpr ⟨(("N11", "V11"), 11), List.mem_filter.mpr ⟨by decide, ?_⟩, rfl⟩
  exact decide_eq_true (.inl hhas)

/-- The item list is loaded as it should be exactly when there is no item in it. -/
theorem itemsLoaded_iff (hroot : root.name = ascii "itemlist") (hall : ∀ p ∈ root.items, p.FullItem) :
    ItemsLoaded root (loadItemList newitem fresh (some root) ⟨heap, [], []⟩) ↔ root.items = [] := by
  rw [loadItemList_eq hroot]
  constructor
  · intro h
    by_contra hne
    obtain ⟨p, hp⟩ := List.exists_mem_of_ne_nil _ hne
    have hmem : 11 ∈ root.items.flatMap effectIndices :=
      List.mem_flatMap.mpr ⟨p, hp, effectIndices_outside (hall p hp)⟩
    exact absurd (h.inside 11 hmem) (by decide)
  · intro hnil
    refine ⟨rfl, List.length_replicate, ?_, ?_⟩
    · rw [hnil]
      nofun
    · rw [hnil]
      nofun

/-- An item with an id, and 1 for everything else. -/
def itemElement (id : Int) : Xml :=
  .node (ascii "item") ((ascii "id", decimal id) :: (ascii "name", ascii "x") ::
    ((equipFields.map (·.1)).tail ++ effectTags.flatMap fun tags => [tags.1, tags.2]).map fun tag =>
      (ascii tag, ascii "1")) []

def itemDocument (ids : List Int) : Xml := .node (ascii "itemlist") [] (ids.map itemElement)

/-- What the memory of a new item may hold. -/
def anyEquip : CEquip := ⟨7, [], 7, 7, 7, 7, 7, 7, 7, 7, 7, fun _ => ⟨7, 7⟩⟩

theorem itemsLoaded_iff_empty :
    ItemsLoaded (itemDocument []) (loadItemList 0 anyEquip (some (itemDocument [])) ⟨fun _ => none, [], []⟩) :=
  (itemsLoaded_iff rfl fun _ h => absurd h List.not_mem_nil).mpr rfl

instance (p : Xml) : Decidable p.FullItem :=
  decidable_of_iff ((readXMLString p "name").isSome ∧
      (∀ f ∈ equipFields, (readXMLInteger p f.1).isSome) ∧
      ∀ tags ∈ effectTags, (readXMLInteger p tags.1).isSome ∧ (readXMLInteger p tags.2).isSome)
    ⟨fun h => ⟨h.1, h.2.1, h.2.2⟩, fun h => ⟨h.name, h.fields, h.effects⟩⟩

/-- Two items are both the second one, and their last effects lie outside. -/
theorem twoItems_lost :
    let doc := itemDocument [1, 2]
    let r := loadItemList 0 anyEquip (some doc) ⟨fun _ => none, [], []⟩
    (∀ p ∈ doc.items, p.FullItem) ∧
      r.2.equipList.map (fun q => (r.2.heap q).map (·.itemid)) = [some 2, some 2] ∧
      11 ∈ r.2.indices ∧ ¬ ItemsLoaded doc r := by
  have hall : ∀ p ∈ (itemDocument [1, 2]).items, p.FullItem := by decide +kernel
  refine ⟨hall, by decide +kernel, by decide +kernel, fun h => ?_⟩
  cases (itemsLoaded_iff (by rfl) hall).mp h

end Destiny
