import Destiny.Entry
import Destiny.Framing
import Destiny.Loading
import Destiny.Roster
import Destiny.Server.ReadBack

/-!
# The list of characters, read back

`ResendCharList` reads the characters of an account into an array, looks up by name the slot that
each is in, and writes it there: five families of fields at strides of 2, 4, 16, 28 and 128 bytes.
A client that reads a slot gets the character stored in it, as far as the fields have room.
-/

namespace Destiny

open Text Sql Prog

/-! ## What a list says -/

/-- What a client reads in a slot of a list. -/
structure CharView where
  level : Nat
  str : Nat
  int : Nat
  dex : Nat
  con : Nat
  mobid : Nat
  gold : Nat
  exp : Nat
  items : List CItem
  deriving DecidableEq

/-- The fields of slot `n`. -/
def readChar (b : Bytes) (n : Nat) : CharView where
  level := intIn b (28 * n + 92) 2
  str := intIn b (28 * n + 108) 2
  int := intIn b (28 * n + 110) 2
  dex := intIn b (28 * n + 112) 2
  con := intIn b (28 * n + 114) 2
  mobid := intIn b (128 * n + 204) 1
  gold := intIn b (4 * n + 724) 4
  exp := intIn b (4 * n + 740) 4
  items := (List.range 15).map fun j => itemIn b (8 * j + (128 * n + 212))

/-- A slot with nothing in it. -/
def CharView.empty : CharView := ⟨0, 0, 0, 0, 0, 0, 0, 0, List.replicate 15 {}⟩

/-- The id of a row. -/
def idOf (r : Row Col) : Int := (r .id).number

/-- An item row, as far as the fields have room. -/
def CItem.shown (i : Row Col) : CItem where
  itemid := u16 (intOf (i .itemid))
  add1 := u8 (intOf (i .add1))
  add2 := u8 (intOf (i .add2))
  add3 := u8 (intOf (i .add3))
  val1 := u8 (intOf (i .addval1))
  val2 := u8 (intOf (i .addval2))
  val3 := u8 (intOf (i .addval3))

/-- A stored character, as far as the fields have room: of the item rows in one slot the last. -/
def CharView.ofRow (db : Database) (r : Row Col) : CharView where
  level := u16 (intOf (r .clevel))
  str := u16 (intOf (r .cstr))
  int := u16 (intOf (r .cint))
  dex := u16 (intOf (r .cdex))
  con := u16 (intOf (r .ccon))
  mobid := u8 (intOf (r .mobid))
  gold := u32 (intOf (r .gold))
  exp := u32 (intOf (r .cexp))
  items := (List.range 15).map fun j : Nat =>
    ((((ownedBy db .charItems (idOf r)).filter fun i => i .slotnum = .int j).getLast?).map
      CItem.shown).getD {}

/-- The characters of an account. -/
def charsOf (db : Database) (u : Bytes) : List (Row Col) :=
  (db.rows .characters).filter fun r => r .uid = .text u

/-- An account whose list can be shown: at most four characters, in different slots, under names
that no other character has; the texts are C strings without quotes and backslashes. -/
structure Listable (db : Database) (u : Bytes) : Prop where
  user : clean u
  few : (charsOf db u).length ≤ 4
  slots : ∀ r ∈ charsOf db u, IsSlot (r .posid)
  apart : (charsOf db u).Pairwise fun r r' => r .posid ≠ r' .posid
  names : ∀ r ∈ charsOf db u, ∀ b, r .name = .text b → clean b ∧ cstr b = b
  only : ∀ r ∈ charsOf db u, (db.rows .characters).filter (fun r' => r' .name = r .name) = [r]

/-- A character whose row and item rows can be read: no `NULL`, an id that is an `int`, and items in
the fifteen slots. -/
structure Readable (db : Database) (r : Row Col) : Prop where
  full : ∀ k ∈ listCols, r k ≠ .null
  range : -2 ^ 31 ≤ idOf r ∧ idOf r < 2 ^ 31
  items : ∀ i ∈ ownedBy db .charItems (idOf r), InArray 15 i

/-! ## Characters in the array -/

/-- A row of `characters` as it is read into the array. -/
def CCharacter.ofRow (db : Database) (r : Row Col) : CCharacter where
  charName := textOf (r .name)
  level := u32 (intOf (r .clevel))
  exp := u32 (intOf (r .cexp))
  mobid := u32 (intOf (r .mobid))
  str := u32 (intOf (r .cstr))
  int := u32 (intOf (r .cint))
  dex := u32 (intOf (r .cdex))
  con := u32 (intOf (r .ccon))
  gold := intOf (r .gold)
  eqitems := stored (ownedBy db .charItems (idOf r)) fun _ => {}

variable {E : Env} {J : Junk} {c : Ptr} {s t u : Server} {r : Row Col} {rs : List (Row Col)}
  {chars chars' : List CCharacter} {db : Database} {a : CAccount} {b : Bool} {D D' : Nat → UInt8} {n : Nat}

theorem id_of_mem {tb : Table} (hr : r ∈ db.rows tb) : r .id = .int (idOf r) := by
  obtain ⟨k, hk, -⟩ := db.fresh tb r hr
  have hid : r .id = .int k := hk
  rw [idOf, hid]
  rfl

theorem listCols_kind {k : Col} (hk : k ∈ listCols) (hname : k ≠ .name) : k.kind = .int := by
  revert k
  decide

theorem colName_printed_ok {cols : List Col} {i : Nat} {k : Col} {x : Bytes} (hk : cols[i]? = some k)
    (h : colName (printed cols r) i s = .ok x t) : r k ≠ .null ∧ x = textOf (r k) ∧ t = s := by
  obtain ⟨y, s1, h1, h⟩ := of_bind_ok h
  obtain ⟨_, s2, h2, h⟩ := of_bind_ok h
  unfold check at h2
  split at h2 <;> cases h2
  cases h
  exact col_printed_ok hk h1

/-- Rows that are read into the array. -/
theorem fetchChars_printed_ok (hrs : ∀ r ∈ rs, r ∈ s.db.rows .characters)
    (hlen : chars.length + rs.length ≤ 4)
    (h : fetchChars E J (rs.map (printed listCols)) chars s = .ok (some chars') t) :
    chars' = chars ++ rs.map (CCharacter.ofRow s.db) ∧ t = s.asked s.reads t.sqlCalls ∧
      ∀ r ∈ rs, r .name ≠ .null ∧ ∀ i ∈ ownedBy s.db .charItems (idOf r), InArray 15 i := by
  induction rs generalizing chars s with
  | nil =>
    cases h
    exact ⟨(List.append_nil _).symm, rfl, fun _ hr => absurd hr List.not_mem_nil⟩
  | cons r rs ih =>
    obtain ⟨hr, hrs⟩ := List.forall_mem_cons.mp hrs
    have hcol : ∀ {i k x u v}, listCols[i]? = some k → k ≠ .name →
        colInt (printed listCols r) i u = .ok x v → r k ≠ .null ∧ x = intOf (r k) ∧ v = u :=
      fun hk hname h => colInt_printed_ok hk
        (listCols_kind (List.mem_of_getElem? hk) hname ▸ s.db.typed _ r hr _) h
    rw [List.map_cons, fetchChars] at h
    obtain ⟨_, s0, h0, h⟩ := of_bind_ok h
    obtain ⟨name, s1, h1, h⟩ := of_bind_ok h
    obtain ⟨exp, s2, h2, h⟩ := of_bind_ok h
    obtain ⟨level, s3, h3, h⟩ := of_bind_ok h
    obtain ⟨gold, s4, h4, h⟩ := of_bind_ok h
    obtain ⟨str, s5, h5, h⟩ := of_bind_ok h
    obtain ⟨int, s6, h6, h⟩ := of_bind_ok h
    obtain ⟨dex, s7, h7, h⟩ := of_bind_ok h
    obtain ⟨con, s8, h8, h⟩ := of_bind_ok h
    obtain ⟨mobid, s9, h9, h⟩ := of_bind_ok h
    obtain ⟨owner, s10, h10, h⟩ := of_bind_ok h
    obtain ⟨q, s11, h11, h⟩ := of_bind_ok h
    rcases q with _ | rows2
    · cases h
    obtain ⟨eqitems, s12, h12, hrest⟩ := of_bind_ok h
    obtain rfl : s0 = s := by
      unfold check at h0
      split at h0 <;> cases h0
      rfl
    obtain ⟨hname, rfl, rfl⟩ := colName_printed_ok (k := .name) rfl h1
    obtain ⟨-, rfl, rfl⟩ := hcol (k := .cexp) rfl (by decide) h2
    obtain ⟨-, rfl, rfl⟩ := hcol (k := .clevel) rfl (by decide) h3
    obtain ⟨-, rfl, rfl⟩ := hcol (k := .gold) rfl (by decide) h4
    obtain ⟨-, rfl, rfl⟩ := hcol (k := .cstr) rfl (by decide) h5
    obtain ⟨-, rfl, rfl⟩ := hcol (k := .cint) rfl (by decide) h6
    obtain ⟨-, rfl, rfl⟩ := hcol (k := .cdex) rfl (by decide) h7
    obtain ⟨-, rfl, rfl⟩ := hcol (k := .ccon) rfl (by decide) h8
    obtain ⟨-, rfl, rfl⟩ := hcol (k := .mobid) rfl (by decide) h9
    obtain ⟨-, rfl, rfl⟩ := col_printed_ok (k := .id) rfl h10
    rw [id_of_mem hr] at h11
    have hs11 := doSQL_asked (by simp [Query.selects]) h11
    obtain rfl := doSQL_rows (parse_charItems (idOf r)) h11
    rw [fetch_ownerCond] at h12
    obtain ⟨heq, hs12, hin⟩ := fetchItems_printed_ok (fun r hr k => ownedBy_typed hr k) h12
    have hslot : chars.length < 4 := by
      rw [List.length_cons] at hlen
      omega
    rw [if_pos hslot] at heq
    have hdb : s12.db = s10.db := by
      rw [hs12, hs11]
      rfl
    obtain ⟨hchars, ht, hread⟩ := ih (by rw [hdb]; exact hrs) (by simp at hlen ⊢; omega) hrest
    rw [hdb] at hread
    refine ⟨?_, ?_, List.forall_mem_cons.mpr ⟨⟨hname, hin⟩, hread⟩⟩
    · rw [hchars, hdb, heq, List.append_assoc]
      rfl
    · rw [ht, hs12, hs11]
      rfl

theorem textOf_length (hr : r ∈ db.rows .characters) : (textOf (r .name)).length ≤ 16 := by
  have hkind : (r .name).HasKind (.text 16) := db.typed _ r hr .name
  cases hname : r .name with
  | null => exact Nat.zero_le _
  | int m =>
    rw [hname] at hkind
    exact hkind.elim
  | text x => exact (cstr_length_le x).trans (name_length_le hr hname)

theorem colName_printed {cols : List Col} {i : Nat} {k : Col} (hk : cols[i]? = some k)
    (hnull : r k ≠ .null) (hlen : (textOf (r k)).length < 30) :
    colName (printed cols r) i s = .ok (textOf (r k)) s := by
  rw [colName, bind_ok (col_printed hk hnull), check, if_pos hlen]
  rfl

/-- The columns of a character that are read. -/
def readCols : List Col := [.name, .cexp, .clevel, .gold, .cstr, .cint, .cdex, .ccon, .mobid, .id]

/-- A row without `NULL` is read, and then its items. -/
theorem fetchChars_step (hE : E.sql.Answers) (hr : r ∈ s.db.rows .characters)
    (hfull : ∀ k ∈ readCols, r k ≠ .null) (hrange : -2 ^ 31 ≤ idOf r ∧ idOf r < 2 ^ 31)
    (hlen : chars.length < 4) (rows : List Fetched) :
    fetchChars E J (printed listCols r :: rows) chars s =
      (fetchItems 15 .eqitemsIndex ((ownedBy s.db .charItems (idOf r)).map (printed itemRowCols))
          (fun _ => {}) >>= fun eqitems =>
        fetchChars E J rows (chars ++ [{ CCharacter.ofRow s.db r with eqitems := eqitems }]))
        (s.asked s.reads (s.sqlCalls + 1)) := by
  have hcol : ∀ i k, listCols[i]? = some k → k ≠ .name → k ∈ readCols →
      colInt (printed listCols r) i s = .ok (intOf (r k)) s := fun i k hk hname hread => by
    have hmem := List.mem_of_getElem? hk
    exact colInt_printed hk (listCols_kind hmem hname ▸ s.db.typed _ r hr k) (hfull k hread)
  have hcheck : check (chars.length < 6) .charsIndex s = .ok () s := by
    rw [check, if_pos (by omega)]
    rfl
  have hname : colName (printed listCols r) 1 s = .ok (textOf (r .name)) s :=
    colName_printed rfl (hfull .name (by decide)) ((textOf_length hr).trans_lt (by decide))
  have hid : col (printed listCols r) 0 s = .ok (textOf (r .id)) s :=
    col_printed rfl (hfull .id (by decide))
  have hdigits : ∀ a ∈ [txt (decimal (idOf r))], Short a := by
    simp [short_txt ((length_decimal_le hrange).trans (by decide : 11 ≤ 16))]
  have hq : doSQL E Query.charItems [txt (textOf (r .id))] s =
      .ok (some ((ownedBy s.db .charItems (idOf r)).map (printed itemRowCols)))
        (s.asked s.reads (s.sqlCalls + 1)) := by
    rw [id_of_mem hr]
    refine (doSQL_answer hE (parse_charItems (idOf r)) (fits (by decide +kernel) hdigits)).trans ?_
    rw [← fetch_ownerCond]
    rfl
  rw [fetchChars, bind_ok hcheck, bind_ok hname, bind_ok (hcol 2 .cexp rfl (by decide) (by decide)),
    bind_ok (hcol 3 .clevel rfl (by decide) (by decide)),
    bind_ok (hcol 4 .gold rfl (by decide) (by decide)),
    bind_ok (hcol 5 .cstr rfl (by decide) (by decide)),
    bind_ok (hcol 6 .cint rfl (by decide) (by decide)),
    bind_ok (hcol 7 .cdex rfl (by decide) (by decide)),
    bind_ok (hcol 8 .ccon rfl (by decide) (by decide)),
    bind_ok (hcol 9 .mobid rfl (by decide) (by decide)), bind_ok hid, bind_ok hq]
  dsimp only
  rw [if_pos hlen]
  rfl

/-- Readable rows are read into the array. -/
theorem fetchChars_printed (hE : E.sql.Answers)
    (hrs : ∀ r ∈ rs, r ∈ s.db.rows .characters ∧ Readable s.db r) (hlen : chars.length + rs.length ≤ 4) :
    ∃ n, fetchChars E J (rs.map (printed listCols)) chars s =
      .ok (some (chars ++ rs.map (CCharacter.ofRow s.db))) (s.asked s.reads n) := by
  induction rs generalizing chars s with
  | nil => exact ⟨s.sqlCalls, by rw [List.map_nil, List.map_nil, List.append_nil]; rfl⟩
  | cons r rs ih =>
    obtain ⟨⟨hr, hread⟩, hrs⟩ := List.forall_mem_cons.mp hrs
    have hslot : chars.length < 4 := by
      rw [List.length_cons] at hlen
      omega
    have hfull : ∀ k ∈ readCols, r k ≠ .null := fun k hk =>
      hread.full k ((by decide : ∀ k ∈ readCols, k ∈ listCols) k hk)
    let v : Server := s.asked s.reads (s.sqlCalls + 1)
    have hitems : fetchItems 15 .eqitemsIndex
        ((ownedBy s.db .charItems (idOf r)).map (printed itemRowCols)) (fun _ => {}) v =
          .ok (stored (ownedBy s.db .charItems (idOf r)) fun _ => {}) v :=
      fetchItems_printed (fun i hi k => ownedBy_typed hi k) hread.items
    have hfew : (chars ++ [CCharacter.ofRow s.db r]).length + rs.length ≤ 4 := by
      simp only [List.length_append, List.length_cons, List.length_nil] at hlen ⊢
      omega
    obtain ⟨n, hn⟩ := ih (s := v) hrs hfew
    refine ⟨n, ?_⟩
    rw [List.map_cons, fetchChars_step hE hr hfull hread.range hslot]
    refine (bind_ok hitems).trans ?_
    rw [List.append_assoc] at hn
    exact hn

/-! ## Characters in the list -/

/-- A row whose slot is found by its name. -/
structure FoundByName (db : Database) (r : Row Col) : Prop where
  slot : IsSlot (r .posid)
  name : ∃ b, r .name = .text b ∧ clean b ∧ cstr b = b
  only : (db.rows .characters).filter (fun r' => r' .name = r .name) = [r]

theorem Listable.found {x : Bytes} (h : Listable db x) (hr : r ∈ charsOf db x) (hnull : r .name ≠ .null) :
    FoundByName db r := by
  refine ⟨h.slots r hr, ?_, h.only r hr⟩
  have hkind : (r .name).HasKind (.text 16) := db.typed _ r (List.mem_of_mem_filter hr) .name
  cases hname : r .name with
  | null => exact absurd hname hnull
  | int m =>
    rw [hname] at hkind
    exact hkind.elim
  | text y => exact ⟨y, rfl, h.names r hr y hname⟩

/-- The query for the slot finds the row itself. -/
theorem FoundByName.fetch (h : FoundByName db r) : clean (textOf (r .name)) ∧
    Sql.fetch db [.posid] .characters (nameCond (textOf (r .name))) = [[some (decimal (intOf (r .posid)))]] := by
  obtain ⟨x, hx, hclean, hcstr⟩ := h.name
  obtain ⟨n, hn, hrange⟩ := h.slot
  have htext : textOf (r .name) = x := by rw [hx]; exact hcstr
  have hfilter : (db.rows .characters).filter (holds (nameCond x)) = [r] := by
    rw [← h.only]
    refine List.filter_congr fun r' hr' => ?_
    rw [Bool.eq_iff_iff, holds_nameCond hr', decide_eq_true_eq, hx]
  rw [htext, Sql.fetch, hfilter, List.map_singleton, List.map_singleton, hn, intOf_int (by omega)]
  exact ⟨hclean, rfl⟩

/-- The characters are written where their names are found. -/
theorem writeChars_printed_ok {k : Nat} (hrs : ∀ r ∈ rs, FoundByName s.db r)
    (h : writeChars E J c k (rs.map (CCharacter.ofRow db)) s = .ok true t) :
    t.packet = stores (rs.flatMap fun r => charFields J (CCharacter.ofRow db r) (intOf (r .posid)))
      s.packet := by
  induction rs generalizing k s with
  | nil =>
    cases h
    rfl
  | cons r rs ih =>
    obtain ⟨hr, hrs⟩ := List.forall_mem_cons.mp hrs
    obtain ⟨q, s1, h1, h⟩ := of_bind_ok h
    rcases q with _ | rows
    · cases h
    obtain ⟨charpos, s2, h2, h⟩ := of_bind_ok h
    obtain ⟨_, s3, h3, h⟩ := of_bind_ok h
    obtain ⟨_, s4, h4, hrest⟩ := of_bind_ok h
    obtain ⟨hclean, hfetch⟩ := hr.fetch
    have hs1 := doSQL_asked (by simp [Query.selects]) h1
    have hrows : rows = [[some (decimal (intOf (r .posid)))]] :=
      (doSQL_rows (parse_posid hclean) h1).trans hfetch
    obtain ⟨n, hn, hrange⟩ := hr.slot
    have hint : intOf (r .posid) = n := by rw [hn, intOf_int (by omega)]
    rw [hrows, hint, lastPosid_single hrange] at h2
    cases h2
    cases h3
    obtain ⟨hs4, -⟩ := writes_stores h4
    have hdb : s4.db = s.db := by
      rw [hs4, hs1]
      rfl
    rw [ih (by rw [hdb]; exact hrs) hrest, hs4, hs1, List.flatMap_cons, stores_append, hint]
    rfl

theorem charFields_eq (ch : CCharacter) (n : Int) : charFields J ch n =
    [addByte 0x41 (2 * n + 12), addByte 0x08 (2 * n + 13), addByte 0x30 (2 * n + 20),
      addByte 0x08 (2 * n + 21), addWord ch.level (28 * n + 92), addStr J ch.charName (16 * n + 28),
      addByte ch.mobid (128 * n + 204), addWord ch.str (28 * n + 108), addWord ch.int (28 * n + 110),
      addWord ch.dex (28 * n + 112), addWord ch.con (28 * n + 114), addDWord ch.gold (4 * n + 724),
      addDWord ch.exp (4 * n + 740)] ++ itemBlock ch.eqitems (128 * n + 212) 15 := by
  rw [charFields]
  congr 1
  refine List.flatMap_congr fun i _ => ?_
  simp only [itemStores, Int.add_assoc, Int.reduceAdd]

theorem charFields_bounds {ch : CCharacter} {p : Int} (hname : ch.charName.length ≤ 16)
    (hp : 0 ≤ p ∧ p ≤ 3) {w : Write} (hw : w ∈ charFields J ch p) :
    0 ≤ w.off ∧ w.off + w.bytes.length ≤ 756 := by
  rw [charFields_eq] at hw
  rcases List.mem_append.mp hw with hw | hw
  · simp only [List.mem_cons, List.not_mem_nil, or_false] at hw
    rcases hw with rfl | rfl | rfl | rfl | rfl | rfl | rfl | rfl | rfl | rfl | rfl | rfl | rfl <;>
      simp only [addByte, addWord, addDWord, addStr, leBytes_length, List.length_map,
        List.length_range] <;> omega
  · have := mem_itemBlock hw
    omega

theorem writeChars_printed {k : Nat} (hE : E.sql.Answers)
    (hrs : ∀ r ∈ rs, FoundByName s.db r ∧ (textOf (r .name)).length ≤ 16) :
    ∃ t, writeChars E J c k (rs.map (CCharacter.ofRow db)) s = .ok true t ∧ t.heap = s.heap := by
  induction rs generalizing k s with
  | nil => exact ⟨s, rfl, rfl⟩
  | cons r rs ih =>
    obtain ⟨⟨hr, hname⟩, hrs⟩ := List.forall_mem_cons.mp hrs
    obtain ⟨hclean, hfetch⟩ := hr.fetch
    obtain ⟨n, hn, hrange⟩ := hr.slot
    have hint : intOf (r .posid) = n := by rw [hn, intOf_int (by omega)]
    have hq : doSQL E Query.posid [txt (textOf (r .name))] s =
        .ok (some [[some (decimal n)]]) (s.asked s.reads (s.sqlCalls + 1)) := by
      refine (doSQL_answer hE (parse_posid hclean)
        (fits (by decide +kernel) (by simp [short_txt hname]))).trans ?_
      rw [← hint, ← hfetch]
      rfl
    let ws := charFields J (CCharacter.ofRow db r) n
    have hin : ∀ w ∈ ws, w.inBounds = true := fun w hw => by
      have := charFields_bounds hname hrange hw
      simp only [Write.inBounds, decide_eq_true_eq]
      omega
    let v : Server := { s.asked s.reads (s.sqlCalls + 1) with
      trace := .slot c n :: s.trace, packet := stores ws s.packet }
    obtain ⟨t, ht, hheap⟩ := ih (s := v) (k := k + 1) hrs
    refine ⟨t, ?_, hheap⟩
    have hnote : ∀ w : Server, note (.slot c n) w = .ok () { w with trace := .slot c n :: w.trace } :=
      fun _ => rfl
    refine (bind_ok hq).trans ((bind_ok (lastPosid_single hrange)).trans ?_)
    exact (bind_ok (hnote _)).trans ((bind_ok (writes_apply hin _)).trans ht)

/-! ## Reading a slot -/

/-- The fields of slot `n` of a buffer. -/
def viewAt (D : Nat → UInt8) (n : Nat) : CharView where
  level := intAt D (28 * n + 92) 2
  str := intAt D (28 * n + 108) 2
  int := intAt D (28 * n + 110) 2
  dex := intAt D (28 * n + 112) 2
  con := intAt D (28 * n + 114) 2
  mobid := intAt D (128 * n + 204) 1
  gold := intAt D (4 * n + 724) 4
  exp := intAt D (4 * n + 740) 4
  items := (List.range 15).map fun j => itemAt D (8 * j + (128 * n + 212))

theorem readChar_range (hn : n < 4) : readChar ((List.range 756).map D) n = viewAt D n := by
  have hitems : ((List.range 15).map fun j => itemIn ((List.range 756).map D) (8 * j + (128 * n + 212))) =
      (List.range 15).map fun j => itemAt D (8 * j + (128 * n + 212)) := by
    refine List.map_congr_left fun j hj => ?_
    have hj := List.mem_range.mp hj
    exact itemIn_range (by omega)
  unfold readChar viewAt
  rw [hitems]
  simp (disch := omega) only [intIn_range]

/-- What a slot says is in its fields. -/
theorem viewAt_congr (h : ∀ i : Nat, Fields n i → D i = D' i) : viewAt D n = viewAt D' n := by
  have hint : ∀ i k : Nat, (∀ j < k, Fields n (i + j : Nat)) → intAt D i k = intAt D' i k :=
    fun i k hik => intAt_congr fun j hj => h _ (hik j hj)
  have hitems : ((List.range 15).map fun j => itemAt D (8 * j + (128 * n + 212))) =
      (List.range 15).map fun j => itemAt D' (8 * j + (128 * n + 212)) := by
    refine List.map_congr_left fun j hj => itemAt_congr fun i hi => h _ ?_
    have hj := List.mem_range.mp hj
    unfold Fields
    omega
  unfold viewAt
  rw [hitems]
  simp (disch := intro j hj; unfold Fields; omega) only [hint]

/-- A character as it is written, as far as the fields have room. -/
def CCharacter.view (ch : CCharacter) : CharView where
  level := u16 ch.level
  str := u16 ch.str
  int := u16 ch.int
  dex := u16 ch.dex
  con := u16 ch.con
  mobid := u8 ch.mobid
  gold := u32 ch.gold
  exp := u32 ch.exp
  items := (List.range 15).map fun j => (ch.eqitems j).wire

/-- A character is read back where it is written. -/
theorem viewAt_charFields {ch : CCharacter} (hname : ch.charName.length ≤ 16) (hn : n < 4) :
    viewAt (stores (charFields J ch n) D) n = ch.view := by
  rw [charFields_eq, stores_append]
  have hitems : ∀ D' : Nat → UInt8, ((List.range 15).map fun j => itemAt
      (stores (itemBlock ch.eqitems (128 * n + 212) 15) D') (8 * j + (128 * n + 212))) =
      (List.range 15).map fun j => (ch.eqitems j).wire := fun D' => by
    refine List.map_congr_left fun j hj => ?_
    exact itemAt_itemBlock (List.mem_range.mp hj) (by push_cast; ring) (by omega)
  unfold viewAt CCharacter.view
  rw [hitems]
  simp (disch := first | decide | omega) only [stores_cons, stores_nil, intAt_itemBlock_ne,
    intAt_addByte_ne, intAt_addWord_ne, intAt_addDWord_ne, intAt_addStr_ne, intAt_addByte,
    intAt_addWord, intAt_addDWord]

/-- A character in another slot is not seen. -/
theorem viewAt_charFields_ne {ch : CCharacter} {p : Int} (hname : ch.charName.length ≤ 16)
    (hp : 0 ≤ p ∧ p ≤ 3) (hn : n < 4) (hne : p ≠ n) :
    viewAt (stores (charFields J ch p) D) n = viewAt D n := by
  refine viewAt_congr fun i hi => stores_clear fun w hw => ⟨?_, (charFields_bounds hname hp hw).1⟩
  by_contra hclear
  have hcovers : w.covers i := by
    unfold Write.clear at hclear
    unfold Write.covers
    omega
  exact hne (fields_unique hp (by omega) (fields_of_covers hname hw hcovers) hi)

theorem viewAt_zero : viewAt (fun _ => 0) n = CharView.empty := by rfl

/-! ## Slots of an account -/

/-- Each slot says what the last character written there is. -/
theorem viewAt_chars (hrs : ∀ r ∈ rs, IsSlot (r .posid) ∧ (textOf (r .name)).length ≤ 16)
    (hapart : rs.Pairwise fun r r' => r .posid ≠ r' .posid) (hn : n < 4) :
    (∀ r ∈ rs, r .posid = .int n → viewAt (stores (rs.flatMap fun r =>
      charFields J (CCharacter.ofRow db r) (intOf (r .posid))) D) n = (CCharacter.ofRow db r).view) ∧
    ((∀ r ∈ rs, r .posid ≠ .int n) → viewAt (stores (rs.flatMap fun r =>
      charFields J (CCharacter.ofRow db r) (intOf (r .posid))) D) n = viewAt D n) := by
  induction rs generalizing D with
  | nil => exact ⟨fun _ hr => absurd hr List.not_mem_nil, fun _ => rfl⟩
  | cons r rs ih =>
    obtain ⟨⟨⟨p, hp, hrange⟩, hname⟩, hrs⟩ := List.forall_mem_cons.mp hrs
    obtain ⟨hhead, hapart⟩ := List.pairwise_cons.mp hapart
    have hint : intOf (r .posid) = p := by rw [hp, intOf_int (by omega)]
    rw [List.flatMap_cons, stores_append, hint]
    obtain ⟨hsome, hnone⟩ := ih hrs hapart (D := stores (charFields J (CCharacter.ofRow db r) p) D)
    refine ⟨List.forall_mem_cons.mpr ⟨fun hposid => ?_, hsome⟩, fun hno => ?_⟩
    · obtain rfl : p = n := Cell.int.inj (hp.symm.trans hposid)
      rw [hnone fun r' hr' h' => hhead r' hr' (hposid.trans h'.symm)]
      exact viewAt_charFields hname hn
    · obtain ⟨hno, hnos⟩ := List.forall_mem_cons.mp hno
      rw [hnone hnos]
      exact viewAt_charFields_ne hname hrange hn fun h => hno (hp.trans (congrArg Cell.int h))

theorem u32_u32 (x : Int) : u32 (u32 x) = u32 x := by
  unfold u32 unsigned
  omega

theorem u16_u32 (x : Int) : u16 (u32 x) = u16 x := by
  unfold u16 u32 unsigned
  omega

theorem u8_u32 (x : Int) : u8 (u32 x) = u8 x := by
  unfold u8 u32 unsigned
  omega

theorem wire_ofRow (i : Row Col) : (CItem.ofRow i).wire = CItem.shown i := by
  simp only [CItem.ofRow, CItem.wire, CItem.shown, u16_u32, u8_u32]

/-- The slot that an item row is stored in, where the array has one. -/
theorem slotOf_eq_iff {i : Row Col} {j : Nat} (hi : (i .slotnum).HasKind .int) (hj : j < 2 ^ 31 - 1)
    (hnull : i .slotnum ≠ .null) : slotOf i = j ↔ i .slotnum = .int j := by
  cases hslot : i .slotnum with
  | null => exact absurd hslot hnull
  | text b =>
    rw [hslot] at hi
    exact hi.elim
  | int k =>
    have hclamp : slotOf i = u32 (clamp32 k) := by
      rw [slotOf, hslot]
      rfl
    rw [hclamp, Cell.int.injEq]
    unfold clamp32 u32 unsigned
    omega

/-- What a list shows of a character that is stored. -/
theorem view_ofRow (hin : ∀ i ∈ ownedBy db .charItems (idOf r), i .slotnum ≠ .null) :
    (CCharacter.ofRow db r).view = CharView.ofRow db r := by
  have hitems : ((List.range 15).map fun j => ((CCharacter.ofRow db r).eqitems j).wire) =
      (List.range 15).map fun j : Nat =>
        ((((ownedBy db .charItems (idOf r)).filter fun i => i .slotnum = .int j).getLast?).map
          CItem.shown).getD {} := by
    refine List.map_congr_left fun j hj => ?_
    have hj := List.mem_range.mp hj
    have hfilter : (ownedBy db .charItems (idOf r)).filter (fun i => slotOf i = j) =
        (ownedBy db .charItems (idOf r)).filter fun i => i .slotnum = .int j :=
      List.filter_congr fun i hi => decide_eq_decide.mpr
        (slotOf_eq_iff (ownedBy_typed hi .slotnum) (by omega) (hin i hi))
    show (stored (ownedBy db .charItems (idOf r)) (fun _ => {}) j).wire = _
    rw [stored_apply, hfilter]
    cases (((ownedBy db .charItems (idOf r)).filter fun i => i .slotnum = .int j).getLast?) with
    | none => rfl
    | some i => exact wire_ofRow i
  unfold CCharacter.view
  rw [hitems]
  simp only [CCharacter.ofRow, CharView.ofRow, u32_u32, u16_u32, u8_u32]

/-! ## The packet -/

/-- The buffer after the header of the list. -/
def listHeader : Nat → UInt8 := stores [addWord 1824 0, addWord 274 4] fun _ => 0

theorem viewAt_listHeader (hn : n < 4) : viewAt listHeader n = CharView.empty := by
  rw [← viewAt_zero]
  refine viewAt_congr fun i hi => stores_clear fun w hw => ?_
  unfold Fields at hi
  simp only [List.mem_cons, List.not_mem_nil, or_false] at hw
  rcases hw with rfl | rfl <;> simp only [Write.clear, addWord, leBytes_length] <;> omega

theorem fetch_uidCond {x : Bytes} (cols : List Col) :
    fetch db cols .characters (uidCond x) = (charsOf db x).map (printed cols) := by
  have hfilter : (db.rows .characters).filter (holds (uidCond x)) = charsOf db x :=
    List.filter_congr fun r hr => by
      rw [Bool.eq_iff_iff, holds_uidCond hr, decide_eq_true_eq]
  rw [fetch, hfilter]
  rfl

theorem not_sent {p : Ptr} {packet : Bytes} {k : Nat} (h : (sending fun _ => False).rel s t) :
    .send p packet k ∉ s.since t := by
  obtain ⟨es, hes, hnone⟩ := h
  rw [since_eq hes]
  exact fun hmem => hnone _ hmem p packet rfl

/-- A list that is sent, taken apart. -/
theorem resendCharList_parts {p : Ptr} {packet : Bytes} {k : Nat}
    (h : resendCharList E J c s = .ok b t) (hsent : .send p packet k ∈ s.since t) :
    ∃ rows chars s3 s4 s5 s6,
      s3 = { s with packet := listHeader, trace := .listing c :: s.trace } ∧
      selectChars E c s3 = .ok (some rows) s4 ∧ fetchChars E J rows [] s4 = .ok (some chars) s5 ∧
      writeChars E J c 0 chars s5 = .ok true s6 ∧ packet = (List.range 756).map s6.packet ∧
      t.trace = .send p packet k :: s6.trace := by
  have hquiet : ∀ {v : Server}, (sending fun _ => False).rel s v → v ≠ t := by
    rintro v hv rfl
    exact not_sent hv hsent
  obtain ⟨_, s1, h1, h⟩ := of_bind_ok h
  obtain ⟨_, s2, h2, h⟩ := of_bind_ok h
  obtain ⟨_, s3, h3, h⟩ := of_bind_ok h
  obtain ⟨q, s4, h4, h⟩ := of_bind_ok h
  have hs3 : s3 = { s with packet := listHeader, trace := .listing c :: s.trace } := by
    cases h1
    cases h3
    rw [(writes_stores h2).1]
    rfl
  have hq3 : (sending fun _ => False).rel s s3 :=
    ⟨[.listing c], by rw [hs3]; rfl, by simp [Event.plain]⟩
  have hq4 := Frame.trans _ hq3 (Keeps.rel_ok (calm_sending.selectChars (E := E) (c := c)) h4)
  rcases q with _ | rows
  · cases h
    exact absurd rfl (hquiet hq4)
  obtain ⟨q, s5, h5, h⟩ := of_bind_ok h
  have hq5 := Frame.trans _ hq4 (Keeps.rel_ok (calm_sending.fetchChars rows []) h5)
  rcases q with _ | chars
  · cases h
    exact absurd rfl (hquiet hq5)
  obtain ⟨q, s6, h6, h⟩ := of_bind_ok h
  have hq6 := Frame.trans _ hq5 (Keeps.rel_ok (keeps_writeChars_sending 0 chars) h6)
  cases q with
  | false =>
    cases h
    exact absurd rfl (hquiet hq6)
  | true =>
  obtain ⟨_, s7, h7, h⟩ := of_bind_ok h
  obtain ⟨-, rfl⟩ := sendPacket_ok h7
  cases h
  refine ⟨rows, chars, s3, s4, s5, s6, hs3, h4, h5, h6, ?_⟩
  obtain ⟨es, hes, hnone⟩ := hq6
  rw [since_eq (show (s6.sent c 756).trace = (_ :: es) ++ s.trace from congrArg _ hes)] at hsent
  rcases List.mem_cons.mp hsent with heq | hmem
  · exact ⟨(Event.send.inj heq).2.1, congrArg (· :: s6.trace) heq.symm⟩
  · exact (hnone _ hmem p packet rfl).elim

/-- A list that is sent holds the characters of the account. -/
theorem resendCharList_sent {cl : CConnClient} {p : Ptr} {packet : Bytes} {k : Nat}
    (hcl : s.heap c = some cl) (hl : Listable s.db cl.playerSession.username.str)
    (h : resendCharList E J c s = .ok b t) (hsent : .send p packet k ∈ s.since t) :
    packet = (List.range 756).map (stores ((charsOf s.db cl.playerSession.username.str).flatMap
      fun r => charFields J (CCharacter.ofRow s.db r) (intOf (r .posid))) listHeader) ∧
    ∀ r ∈ charsOf s.db cl.playerSession.username.str,
      r .name ≠ .null ∧ ∀ i ∈ ownedBy s.db .charItems (idOf r), InArray 15 i := by
  obtain ⟨rows, chars, s3, s4, s5, s6, hs3, h4, h5, h6, hpacket, -⟩ := resendCharList_parts h hsent
  obtain ⟨cl', hcl', hs4, hrows⟩ := selectChars_ok h4
  obtain rfl : cl' = cl := by
    rw [hs3] at hcl'
    exact Option.some.inj (hcl'.symm.trans hcl)
  have hdb3 : s3.db = s.db := by rw [hs3]
  have hdb4 : s4.db = s.db := by rw [hs4, ← hdb3]; rfl
  have hfetch := hrows hl.user rows rfl
  rw [hdb3, fetch_uidCond] at hfetch
  rw [hfetch] at h5
  obtain ⟨hchars, hs5, hread⟩ := fetchChars_printed_ok
    (fun r hr => by rw [hdb4]; exact List.mem_of_mem_filter hr) (by simpa using hl.few) h5
  rw [hdb4] at hchars hread
  have hdb5 : s5.db = s.db := by
    rw [hs5, ← hdb4]
    rfl
  have hfound : ∀ r ∈ charsOf s.db cl'.playerSession.username.str, FoundByName s5.db r :=
    fun r hr => by
      rw [hdb5]
      exact hl.found hr (hread r hr).1
  rw [hchars, List.nil_append] at h6
  have hwritten := writeChars_printed_ok hfound h6
  have hbuffer : s5.packet = listHeader := by
    rw [hs5, hs4, hs3]
    rfl
  rw [hpacket, hwritten, hbuffer]
  exact ⟨rfl, hread⟩

/-- A list whose rows can be read is sent. -/
theorem resendCharList_apply {cl : CConnClient} (hE : E.sql.Answers) (hcl : s.heap c = some cl)
    (hl : Listable s.db cl.playerSession.username.str)
    (hread : ∀ r ∈ charsOf s.db cl.playerSession.username.str, Readable s.db r) :
    ∃ t packet k, resendCharList E J c s = .ok true t ∧ .send c packet k ∈ s.since t := by
  let ws := [addWord 1824 0, addWord 274 4]
  let s1 : Server := { s with packet := fun _ => 0 }
  let s2 : Server := { s1 with packet := stores ws s1.packet }
  let s3 : Server := { s2 with trace := .listing c :: s.trace }
  let s4 : Server := s3.asked s3.reads (s3.sqlCalls + 1)
  let rs := charsOf s.db cl.playerSession.username.str
  have hfree : packetFree s = .ok () s1 := rfl
  have hwrites : writes ws s1 = .ok () s2 :=
    writes_apply (by simp [ws, Write.inBounds, addWord]) s1
  have hnote : note (.listing c) s2 = .ok () s3 := rfl
  have hselect : selectChars E c s3 = .ok (some (rs.map (printed listCols))) s4 := by
    refine (bind_ok (client_of_some (s := s3) hcl)).trans ?_
    refine (doSQL_answer hE (parse_chars hl.user)
      (fits (by decide +kernel) (by simp [short_txt (username_length _)]))).trans ?_
    rw [← fetch_uidCond]
    rfl
  have hfew : ([] : List CCharacter).length + rs.length ≤ 4 := by
    rw [List.length_nil, Nat.zero_add]
    exact hl.few
  obtain ⟨n, hfetch⟩ := fetchChars_printed (J := J) (s := s4) hE
    (fun r hr => ⟨List.mem_of_mem_filter hr, hread r hr⟩) hfew
  obtain ⟨v, hwritten, hheap⟩ : ∃ v, writeChars E J c 0 (rs.map (CCharacter.ofRow s.db))
      (s4.asked s4.reads n) = .ok true v ∧ v.heap = (s4.asked s4.reads n).heap :=
    writeChars_printed hE fun r hr =>
      ⟨hl.found hr ((hread r hr).full .name (by decide)), textOf_length (List.mem_of_mem_filter hr)⟩
  have hsend := sendPacket_of_some (show v.heap c = some cl by rw [hheap]; exact hcl) 756
  have hrun : resendCharList E J c s = .ok true (v.sent c 756) := by
    refine (bind_ok hfree).trans ((bind_ok hwrites).trans ((bind_ok hnote).trans
      ((bind_ok hselect).trans ((bind_ok hfetch).trans ((bind_ok hwritten).trans ?_)))))
    exact bind_ok hsend
  have hquiet : (sending fun _ => False).rel (s4.asked s4.reads n) v :=
    Keeps.rel_ok (keeps_writeChars_sending 0 _) hwritten
  obtain ⟨es, hes, -⟩ := hquiet
  refine ⟨v.sent c 756, (List.range 756).map v.packet, v.hash1, hrun, ?_⟩
  have htrace : (v.sent c 756).trace = (.send c ((List.range 756).map v.packet) v.hash1 ::
      (es ++ [.listing c])) ++ s.trace := by
    rw [List.cons_append, List.append_assoc]
    exact congrArg _ hes
  rw [since_eq htrace]
  exact List.mem_cons_self

/-- The tables with one more character, of a level and in a slot. -/
def withCharAt (db : Database) (name uid : Bytes) (level posid : Int) : Database :=
  db.add .characters [.name, .uid, .clevel, .posid] [.text name, .text uid, .int level, .int posid]

/-- A server with these tables on which one player has logged in. -/
def listing (db : Database) : Server := fin (run (exec Env.plain)
  [.addUser {}, .packet 0 (loginFrame (ascii "bob") (ascii "pw")) { now := 20 }] (Server.start db))

/-- Another account has a character of the same name, in another slot. -/
def twins : Database :=
  withCharAt (withCharAt (withAccount (Db.empty schema) (ascii "bob") (ascii "pw") 0)
    (ascii "hero") (ascii "bob") 7 0) (ascii "hero") (ascii "eve") 9 1

/-- A name that reads as a condition which holds of every row. -/
def quoted : Database :=
  withCharAt (withCharAt (withAccount (Db.empty schema) (ascii "bob") (ascii "pw") 0)
    (ascii "a' OR 'b'='b") (ascii "bob") 7 0) (ascii "hero") (ascii "bob") 9 1

/-- The packet of a player's list. -/
def listed (db : Database) : Option Bytes :=
  ((listing db).since (fin (resendCharList Env.plain {} 0 (listing db)))).findSome? fun e =>
    e.plain.map (·.2)

/-- A packet that is cleared lists no character. -/
example : readChar (List.replicate 756 0) 3 = CharView.empty := by decide +kernel

end Destiny
