import Destiny.Server.Effects
import Destiny.Server.Statements

/-!
# Rows as the server reads them

The rows of an answer are printed cells, and the server turns them back with `atoi` and
`strcpy`. What it gets is the cell's number, as far as an `int` holds it, or the text up to
its end; a `NULL` is a pointer it does not check. The items of an array are what the last row
of each slot says.
-/

namespace Destiny

open Text Sql Prog

/-- A row as a query returns it. -/
def printed (cols : List Col) (r : Row Col) : Fetched := cols.map fun k => (r k).print

/-- The integer that `atoi` gets from a printed cell. -/
def intOf (c : Cell) : Int := clamp32 c.number

/-- The C string in a printed cell. -/
def textOf : Cell → Bytes
  | .null => []
  | .int n => decimal n
  | .text b => cstr b

def itemRowCols : List Col :=
  [.slotnum, .itemid, .add1, .add2, .add3, .addval1, .addval2, .addval3]

/-- The item that a row of `char_items` or `storage` describes. -/
def CItem.ofRow (r : Row Col) : CItem where
  itemid := u32 (intOf (r .itemid))
  add1 := u32 (intOf (r .add1))
  add2 := u32 (intOf (r .add2))
  add3 := u32 (intOf (r .add3))
  val1 := u32 (intOf (r .addval1))
  val2 := u32 (intOf (r .addval2))
  val3 := u32 (intOf (r .addval3))

/-- The index it is stored at. -/
def slotOf (r : Row Col) : Nat := u32 (intOf (r .slotnum))

/-- The items of an array after the rows are stored into it. -/
def stored (rs : List (Row Col)) (items : Nat → CItem) : Nat → CItem :=
  rs.foldl (fun items r => setAt items (slotOf r) (CItem.ofRow r)) items

/-- The rows of a table with an owner. -/
def ownedBy (db : Database) (tb : Table) (n : Int) : List (Row Col) :=
  (db.rows tb).filter fun r => r .owner = .int n

variable {E : Env} {s t : Server} {cols : List Col} {r : Row Col} {rs : List (Row Col)} {k : Col}
  {i n : Nat} {items : Nat → CItem} {db : Database}

theorem intOf_int {m : Int} (h : -2 ^ 31 ≤ m ∧ m < 2 ^ 31) : intOf (.int m) = m := clamp32_eq_self h

/-! ## Cells -/

theorem printed_getElem? (hk : cols[i]? = some k) : (printed cols r)[i]? = some (r k).print := by
  rw [printed, List.getElem?_map, hk]
  rfl

theorem col_printed (hk : cols[i]? = some k) (hnull : r k ≠ .null) :
    col (printed cols r) i s = .ok (textOf (r k)) s := by
  unfold col
  rw [printed_getElem? hk]
  cases hr : r k with
  | null => exact absurd hr hnull
  | int m =>
    show EStateM.Result.ok (cstr (decimal m)) s = _
    rw [cstr_decimal]
    rfl
  | text b => rfl

/-- A column that is read is not `NULL`. -/
theorem col_printed_ok {b : Bytes} (hk : cols[i]? = some k) (h : col (printed cols r) i s = .ok b t) :
    r k ≠ .null ∧ b = textOf (r k) ∧ t = s := by
  have hnull : r k ≠ .null := fun hr => by
    unfold col at h
    rw [printed_getElem? hk, hr] at h
    cases h
  rw [col_printed hk hnull] at h
  cases h
  exact ⟨hnull, rfl, rfl⟩

theorem atoi_textOf (h : (r k).HasKind .int) (hnull : r k ≠ .null) : atoi (textOf (r k)) = intOf (r k) := by
  cases hr : r k with
  | null => exact absurd hr hnull
  | int m => exact congrArg clamp32 (leading_decimal m)
  | text b => rw [hr] at h; exact h.elim

theorem colInt_printed (hk : cols[i]? = some k) (hkind : (r k).HasKind .int) (hnull : r k ≠ .null) :
    colInt (printed cols r) i s = .ok (intOf (r k)) s := by
  rw [colInt, bind_ok (col_printed hk hnull), atoi_textOf hkind hnull]
  rfl

theorem colInt_printed_ok {m : Int} (hk : cols[i]? = some k) (hkind : (r k).HasKind .int)
    (h : colInt (printed cols r) i s = .ok m t) : r k ≠ .null ∧ m = intOf (r k) ∧ t = s := by
  obtain ⟨b, u, hu, hm⟩ := of_bind_ok h
  obtain ⟨hnull, hb, rfl⟩ := col_printed_ok hk hu
  cases hm
  exact ⟨hnull, by rw [hb, atoi_textOf hkind hnull], rfl⟩

/-! ## Items -/

theorem itemRow_kind (hk : k ∈ itemRowCols) : k.kind = .int := by
  revert k
  decide

section Items
variable (htyped : ∀ k, (r k).HasKind k.kind)
include htyped

/-- An item row is read if none of its columns is `NULL`. -/
theorem colItem_printed (hnull : ∀ k ∈ itemRowCols, r k ≠ .null) :
    colItem (printed itemRowCols r) s = .ok (CItem.ofRow r) s := by
  have hcol : ∀ i k, itemRowCols[i]? = some k →
      colInt (printed itemRowCols r) i s = .ok (intOf (r k)) s := fun i k hk => by
    have hmem := List.mem_of_getElem? hk
    exact colInt_printed hk (itemRow_kind hmem ▸ htyped k) (hnull k hmem)
  rw [colItem, bind_ok (hcol 1 .itemid rfl), bind_ok (hcol 2 .add1 rfl), bind_ok (hcol 3 .add2 rfl),
    bind_ok (hcol 4 .add3 rfl), bind_ok (hcol 5 .addval1 rfl), bind_ok (hcol 6 .addval2 rfl),
    bind_ok (hcol 7 .addval3 rfl)]
  rfl

theorem colItem_printed_ok {item : CItem} (h : colItem (printed itemRowCols r) s = .ok item t) :
    item = CItem.ofRow r ∧ t = s ∧ ∀ k ∈ itemRowCols.tail, r k ≠ .null := by
  have hcol : ∀ {i k m u v}, itemRowCols[i]? = some k →
      colInt (printed itemRowCols r) i u = .ok m v → r k ≠ .null ∧ m = intOf (r k) ∧ v = u :=
    fun hk h => colInt_printed_ok hk (itemRow_kind (List.mem_of_getElem? hk) ▸ htyped _) h
  obtain ⟨_, s1, h1, h⟩ := of_bind_ok h
  obtain ⟨_, s2, h2, h⟩ := of_bind_ok h
  obtain ⟨_, s3, h3, h⟩ := of_bind_ok h
  obtain ⟨_, s4, h4, h⟩ := of_bind_ok h
  obtain ⟨_, s5, h5, h⟩ := of_bind_ok h
  obtain ⟨_, s6, h6, h⟩ := of_bind_ok h
  obtain ⟨_, s7, h7, h⟩ := of_bind_ok h
  cases h
  obtain ⟨n1, rfl, rfl⟩ := hcol (k := .itemid) rfl h1
  obtain ⟨n2, rfl, rfl⟩ := hcol (k := .add1) rfl h2
  obtain ⟨n3, rfl, rfl⟩ := hcol (k := .add2) rfl h3
  obtain ⟨n4, rfl, rfl⟩ := hcol (k := .add3) rfl h4
  obtain ⟨n5, rfl, rfl⟩ := hcol (k := .addval1) rfl h5
  obtain ⟨n6, rfl, rfl⟩ := hcol (k := .addval2) rfl h6
  obtain ⟨n7, rfl, rfl⟩ := hcol (k := .addval3) rfl h7
  refine ⟨rfl, rfl, ?_⟩
  simp only [itemRowCols, List.tail_cons, List.forall_mem_cons]
  exact ⟨n1, n2, n3, n4, n5, n6, n7, fun _ h => absurd h List.not_mem_nil⟩

end Items

/-- A row holds no `NULL`, and its slot is one of the `n` that the array has. -/
def InArray (n : Nat) (r : Row Col) : Prop := (∀ k ∈ itemRowCols, r k ≠ .null) ∧ slotOf r < n

instance (n : Nat) (r : Row Col) : Decidable (InArray n r) :=
  inferInstanceAs (Decidable ((∀ k ∈ itemRowCols, _) ∧ _))

/-- Item rows that fit are stored. -/
theorem fetchItems_printed {e : Fault} (htyped : ∀ r ∈ rs, ∀ k, (r k).HasKind k.kind)
    (hin : ∀ r ∈ rs, InArray n r) :
    fetchItems n e (rs.map (printed itemRowCols)) items s = .ok (stored rs items) s := by
  induction rs generalizing items with
  | nil => rfl
  | cons r rs ih =>
    obtain ⟨hr, htyped⟩ := List.forall_mem_cons.mp htyped
    obtain ⟨⟨hnull, hslot⟩, hin⟩ := List.forall_mem_cons.mp hin
    have hnum : colInt (printed itemRowCols r) 0 s = .ok (intOf (r .slotnum)) s :=
      colInt_printed rfl (hr .slotnum) (hnull .slotnum (by decide))
    have hcheck : check (u32 (intOf (r .slotnum)) < n) e s = .ok () s := by
      rw [check, if_pos (show u32 (intOf (r .slotnum)) < n from hslot)]
      rfl
    rw [List.map_cons, fetchItems, bind_ok hnum, bind_ok hcheck, bind_ok (colItem_printed hr hnull)]
    exact ih htyped hin

theorem fetchItems_printed_ok {e : Fault} {items' : Nat → CItem}
    (htyped : ∀ r ∈ rs, ∀ k, (r k).HasKind k.kind)
    (h : fetchItems n e (rs.map (printed itemRowCols)) items s = .ok items' t) :
    items' = stored rs items ∧ t = s ∧ ∀ r ∈ rs, InArray n r := by
  induction rs generalizing items s with
  | nil =>
    cases h
    exact ⟨rfl, rfl, fun _ hr => absurd hr List.not_mem_nil⟩
  | cons r rs ih =>
    obtain ⟨hr, htyped⟩ := List.forall_mem_cons.mp htyped
    obtain ⟨m, s1, h1, h⟩ := of_bind_ok h
    obtain ⟨_, s2, h2, h⟩ := of_bind_ok h
    obtain ⟨_, s3, h3, h⟩ := of_bind_ok h
    obtain ⟨hnum, rfl, hs1⟩ := colInt_printed_ok (k := .slotnum) rfl (hr .slotnum) h1
    unfold check at h2
    split at h2
    swap
    · cases h2
    next hslot =>
    cases h2
    obtain ⟨rfl, hs3, hnull⟩ := colItem_printed_ok hr h3
    obtain ⟨rfl, ht, hrs⟩ := ih htyped h
    refine ⟨rfl, ht.trans (hs3.trans hs1), List.forall_mem_cons.mpr ⟨⟨?_, hslot⟩, hrs⟩⟩
    exact List.forall_mem_cons.mpr ⟨hnum, hnull⟩

/-- The last row of a slot says what is in it. -/
theorem stored_apply (rs : List (Row Col)) (items : Nat → CItem) (j : Nat) :
    stored rs items j =
      (((rs.filter fun r => slotOf r = j).getLast?).map CItem.ofRow).getD (items j) := by
  induction rs using List.reverseRecOn with
  | nil => rfl
  | append_singleton rs r ih =>
    rw [stored, List.foldl_append, List.foldl_cons, List.foldl_nil, List.filter_append]
    show (if j = slotOf r then _ else stored rs items j) = _
    by_cases hj : slotOf r = j
    · rw [if_pos hj.symm, List.filter_cons_of_pos (by simpa using hj)]
      simp
    · rw [if_neg (Ne.symm hj), List.filter_cons_of_neg (by simpa using hj), ih]
      simp

/-! ## Items of a character -/

theorem parse_charItems (m : Int) :
    parseText schema (vsprintf (ascii Query.charItems) [txt (decimal m)]) =
      some (.select itemRowCols .charItems (ownerCond m)) := by
  have hst : compile schema (items (ascii Query.charItems)) = some (.select itemRowCols .charItems
      [[.eq (.col .owner) (.str [.inr (.s, 0)])]]) := by rfl
  rw [parseText_of_clean hst (by simp [cleanArg, clean_decimal])]
  simp [Stmt.map, Atom.map, Operand.map, ownerCond, fill, Arg.print]

theorem fetch_ownerCond (tb : Table) (m : Int) :
    fetch db cols tb (ownerCond m) = (ownedBy db tb m).map (printed cols) := by
  have hfilter : (db.rows tb).filter (holds (ownerCond m)) = ownedBy db tb m :=
    List.filter_congr fun r hr => by
      rw [Bool.eq_iff_iff, holds_ownerCond hr m, decide_eq_true_eq]
  rw [fetch, hfilter]
  rfl

theorem ownedBy_typed {tb : Table} {m : Int} (hr : r ∈ ownedBy db tb m) (k : Col) :
    (r k).HasKind k.kind := db.typed tb r (List.mem_of_mem_filter hr) k

end Destiny
