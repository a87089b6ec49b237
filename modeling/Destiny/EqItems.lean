import Destiny.TwoLists

/-!
# Equipped items

A character in a list has room for fifteen items, and the item rows of all its slots are read into
it: a row of slot 15 to 77 is stored behind the array. Such a run ends in `Fault.eqitemsIndex`.
-/

namespace Destiny

open Text Sql Prog

variable {E : Env} {J : Junk} {c p : Ptr} {s t : Server} {r : Row Col} {rs : List (Row Col)}
  {chars : List CCharacter} {pos : Row Col → Nat} {db : Database} {a : CAccount} {n : Nat}
  {D : Nat → UInt8} {f : Fault} {items : Nat → CItem}

/-! ## Rows that do not fit -/

/-- A row whose slot the array does not have is read, before any row with a `NULL`. -/
def ItemsOverrun (n : Nat) : List (Row Col) → Prop
  | [] => False
  | i :: is => i .slotnum ≠ .null ∧ (n ≤ slotOf i ∨ InArray n i ∧ ItemsOverrun n is)

/-- Such a row is read among the items of some characters. -/
def Overruns (db : Database) : List (Row Col) → Prop
  | [] => False
  | r :: rs => (∀ k ∈ readCols, r k ≠ .null) ∧
      (ItemsOverrun 15 (ownedBy db .charItems (idOf r)) ∨
        (∀ i ∈ ownedBy db .charItems (idOf r), InArray 15 i) ∧ Overruns db rs)

theorem not_itemsOverrun (h : ∀ i ∈ rs, InArray n i) : ¬ItemsOverrun n rs := by
  induction rs with
  | nil => exact id
  | cons i is ih =>
    obtain ⟨hi, his⟩ := List.forall_mem_cons.mp h
    rintro ⟨-, hslot | ⟨-, hover⟩⟩
    · have := hi.2
      omega
    · exact ih his hover

/-- Rows without `NULL` overrun just when one does not fit. -/
theorem itemsOverrun_iff (hnull : ∀ i ∈ rs, ∀ k ∈ itemRowCols, i k ≠ .null) :
    ItemsOverrun n rs ↔ ∃ i ∈ rs, n ≤ slotOf i := by
  induction rs with
  | nil => simp [ItemsOverrun]
  | cons i is ih =>
    obtain ⟨hi, his⟩ := List.forall_mem_cons.mp hnull
    rw [List.exists_mem_cons_iff, ← ih his, ItemsOverrun]
    constructor
    · rintro ⟨-, hslot | ⟨-, hover⟩⟩
      · exact .inl hslot
      · exact .inr hover
    · intro h
      refine ⟨hi .slotnum (by decide), ?_⟩
      by_cases hslot : n ≤ slotOf i
      · exact .inl hslot
      · exact .inr ⟨⟨hi, by omega⟩, h.resolve_left hslot⟩

theorem overruns_iff (hnull : ∀ r ∈ rs, (∀ k ∈ readCols, r k ≠ .null) ∧
      ∀ i ∈ ownedBy db .charItems (idOf r), ∀ k ∈ itemRowCols, i k ≠ .null) :
    Overruns db rs ↔ ∃ r ∈ rs, ∃ i ∈ ownedBy db .charItems (idOf r), 15 ≤ slotOf i := by
  induction rs with
  | nil => simp [Overruns]
  | cons r rs ih =>
    obtain ⟨⟨hr, hitems⟩, hrs⟩ := List.forall_mem_cons.mp hnull
    rw [List.exists_mem_cons_iff, ← ih hrs, Overruns, itemsOverrun_iff hitems]
    constructor
    · rintro ⟨-, h | ⟨-, h⟩⟩
      · exact .inl h
      · exact .inr h
    · intro h
      refine ⟨hr, ?_⟩
      by_cases hover : ∃ i ∈ ownedBy db .charItems (idOf r), 15 ≤ slotOf i
      · exact .inl hover
      · refine .inr ⟨fun i hi => ⟨hitems i hi, ?_⟩, h.resolve_left hover⟩
        apply Nat.lt_of_not_le
        exact fun hle => hover ⟨i, hi, hle⟩

/-! ## Faults of the operations -/

theorem col_error {row : Fetched} {i : Nat} (h : col row i s = .error f t) : f = .nullPtr := by
  unfold col at h
  rcases hrow : row[i]? with _ | _ | b <;> rw [hrow] at h <;> cases h
  · rfl
  · rfl

theorem colInt_error {row : Fetched} {i : Nat} (h : colInt row i s = .error f t) : f = .nullPtr := by
  rcases of_bind_error h with h | ⟨_, _, -, h⟩
  · exact col_error h
  · cases h

theorem colItem_error {row : Fetched} (h : colItem row s = .error f t) : f = .nullPtr := by
  unfold colItem at h
  repeat
    rcases of_bind_error h with h | ⟨_, _, -, h⟩
    · exact colInt_error h
  cases h

theorem check_error {q : Prop} [Decidable q] {e : Fault} (h : check q e s = .error f t) :
    f = e ∧ ¬q := by
  unfold check at h
  split at h <;> cases h
  rename_i hq
  exact ⟨rfl, hq⟩

theorem check_ok {q : Prop} [Decidable q] {e : Fault} {x : Unit} (h : check q e s = .ok x t) : q := by
  unfold check at h
  split at h <;> cases h
  assumption

/-- A fault of the index comes from a row that does not fit. -/
theorem fetchItems_overrun {e : Fault} (he : e ≠ .nullPtr)
    (htyped : ∀ i ∈ rs, ∀ k, (i k).HasKind k.kind)
    (h : fetchItems n e (rs.map (printed itemRowCols)) items s = .error e t) : ItemsOverrun n rs := by
  induction rs generalizing items s with
  | nil => cases h
  | cons i is ih =>
    obtain ⟨hi, htyped⟩ := List.forall_mem_cons.mp htyped
    rw [List.map_cons, fetchItems] at h
    rcases of_bind_error h with hcol | ⟨m, s1, h1, hrest⟩
    · exact absurd (colInt_error hcol) he
    obtain ⟨hnum, hm, hs1⟩ := colInt_printed_ok (k := .slotnum) rfl (hi .slotnum) h1
    refine ⟨hnum, ?_⟩
    rw [hm] at hrest
    rcases of_bind_error hrest with hcheck | ⟨_, s2, hcheck, hitem⟩
    · have hslot : ¬slotOf i < n := (check_error hcheck).2
      exact .inl (Nat.le_of_not_lt hslot)
    have hslot : slotOf i < n := check_ok hcheck
    rcases of_bind_error hitem with hcol | ⟨item, s3, h3, hmore⟩
    · exact absurd (colItem_error hcol) he
    obtain ⟨-, -, hnull⟩ := colItem_printed_ok hi h3
    exact .inr ⟨⟨List.forall_mem_cons.mpr ⟨hnum, hnull⟩, hslot⟩, ih htyped hmore⟩

/-- A row that does not fit ends the run. -/
theorem fetchItems_overruns {e : Fault} (htyped : ∀ i ∈ rs, ∀ k, (i k).HasKind k.kind)
    (h : ItemsOverrun n rs) :
    fetchItems n e (rs.map (printed itemRowCols)) items s = .error e s := by
  induction rs generalizing items with
  | nil => exact h.elim
  | cons i is ih =>
    obtain ⟨hi, htyped⟩ := List.forall_mem_cons.mp htyped
    obtain ⟨hnum, h⟩ := h
    have hcol : colInt (printed itemRowCols i) 0 s = .ok (intOf (i .slotnum)) s :=
      colInt_printed rfl (hi .slotnum) hnum
    rw [List.map_cons, fetchItems, bind_ok hcol]
    by_cases hslot : slotOf i < n
    · obtain ⟨hin, hover⟩ := h.resolve_left (Nat.not_le_of_lt hslot)
      have hcheck : check (u32 (intOf (i .slotnum)) < n) e s = .ok () s := by
        rw [check, if_pos (show u32 (intOf (i .slotnum)) < n from hslot)]
        rfl
      rw [bind_ok hcheck, bind_ok (colItem_printed hi hin.1)]
      exact ih htyped hover
    · have hcheck : check (u32 (intOf (i .slotnum)) < n) e s = .error e s := by
        rw [check, if_neg (show ¬u32 (intOf (i .slotnum)) < n from hslot)]
        rfl
      rw [bind_apply, hcheck]

/-! ## Reading the characters -/

theorem colName_error {row : Fetched} {i : Nat} (h : colName row i s = .error f t) :
    f ≠ .eqitemsIndex := by
  rcases of_bind_error h with hcol | ⟨_, _, -, hrest⟩
  · rw [col_error hcol]
    decide
  · rcases of_bind_error hrest with hcheck | ⟨_, _, -, hdone⟩
    · rw [(check_error hcheck).1]
      decide
    · cases hdone

/-- A fault of the index comes from an item row that does not fit. -/
theorem fetchChars_overrun (hrs : ∀ r ∈ rs, r ∈ s.db.rows .characters)
    (h : fetchChars E J (rs.map (printed listCols)) chars s = .error .eqitemsIndex t) :
    Overruns s.db rs := by
  induction rs generalizing chars s with
  | nil => cases h
  | cons r rs ih =>
    obtain ⟨hr, hrs⟩ := List.forall_mem_cons.mp hrs
    have hcol : ∀ {i k x u v}, listCols[i]? = some k → k ≠ .name →
        colInt (printed listCols r) i u = .ok x v → r k ≠ .null ∧ x = intOf (r k) ∧ v = u :=
      fun hk hname h => colInt_printed_ok hk
        (listCols_kind (List.mem_of_getElem? hk) hname ▸ s.db.typed _ r hr _) h
    have hcolError : ∀ {i : Nat} {u v : Server},
        colInt (printed listCols r) i u = .error .eqitemsIndex v → False :=
      fun h => by cases colInt_error h
    rw [List.map_cons, fetchChars] at h
    rcases of_bind_error h with herr | ⟨_, s0, h0, g0⟩
    · cases (check_error herr).1
    rcases of_bind_error g0 with herr | ⟨name, s1, h1, g1⟩
    · exact absurd rfl (colName_error herr)
    rcases of_bind_error g1 with herr | ⟨_, s2, h2, g2⟩
    · exact (hcolError herr).elim
    rcases of_bind_error g2 with herr | ⟨_, s3, h3, g3⟩
    · exact (hcolError herr).elim
    rcases of_bind_error g3 with herr | ⟨_, s4, h4, g4⟩
    · exact (hcolError herr).elim
    rcases of_bind_error g4 with herr | ⟨_, s5, h5, g5⟩
    · exact (hcolError herr).elim
    rcases of_bind_error g5 with herr | ⟨_, s6, h6, g6⟩
    · exact (hcolError herr).elim
    rcases of_bind_error g6 with herr | ⟨_, s7, h7, g7⟩
    · exact (hcolError herr).elim
    rcases of_bind_error g7 with herr | ⟨_, s8, h8, g8⟩
    · exact (hcolError herr).elim
    rcases of_bind_error g8 with herr | ⟨_, s9, h9, g9⟩
    · exact (hcolError herr).elim
    rcases of_bind_error g9 with herr | ⟨owner, s10, h10, g10⟩
    · cases col_error herr
    obtain ⟨hname, -, e1⟩ := colName_printed_ok (k := .name) rfl h1
    obtain ⟨n2, -, e2⟩ := hcol (k := .cexp) rfl (by decide) h2
    obtain ⟨n3, -, e3⟩ := hcol (k := .clevel) rfl (by decide) h3
    obtain ⟨n4, -, e4⟩ := hcol (k := .gold) rfl (by decide) h4
    obtain ⟨n5, -, e5⟩ := hcol (k := .cstr) rfl (by decide) h5
    obtain ⟨n6, -, e6⟩ := hcol (k := .cint) rfl (by decide) h6
    obtain ⟨n7, -, e7⟩ := hcol (k := .cdex) rfl (by decide) h7
    obtain ⟨n8, -, e8⟩ := hcol (k := .ccon) rfl (by decide) h8
    obtain ⟨n9, -, e9⟩ := hcol (k := .mobid) rfl (by decide) h9
    obtain ⟨hid, ho, e10⟩ := col_printed_ok (k := .id) rfl h10
    have hs10 : s10 = s := by
      unfold check at h0
      split at h0 <;> cases h0
      rw [e10, e9, e8, e7, e6, e5, e4, e3, e2, e1]
    have hfull : ∀ k ∈ readCols, r k ≠ .null := by
      simp only [readCols, List.forall_mem_cons]
      exact ⟨hname, n2, n3, n4, n5, n6, n7, n8, n9, hid, fun _ h => absurd h List.not_mem_nil⟩
    refine ⟨hfull, ?_⟩
    rw [ho, id_of_mem hr, hs10] at g10
    rcases of_bind_error g10 with herr | ⟨q, s11, h11, g11⟩
    · cases (doSQL_error herr).1
    rcases q with _ | rows2
    · cases g11
    have hs11 := doSQL_asked (by simp [Query.selects]) h11
    have hrows := doSQL_rows (parse_charItems (idOf r)) h11
    rw [hrows, fetch_ownerCond] at g11
    rcases of_bind_error g11 with herr | ⟨eqitems, s12, h12, hrest⟩
    · exact .inl (fetchItems_overrun (by decide) (fun i hi k => ownedBy_typed hi k) herr)
    obtain ⟨-, hs12, hin⟩ := fetchItems_printed_ok (fun i hi k => ownedBy_typed hi k) h12
    have hdb : s12.db = s.db := by
      rw [hs12, hs11]
      rfl
    have hover := ih (by rw [hdb]; exact hrs) hrest
    rw [hdb] at hover
    exact .inr ⟨hin, hover⟩

/-- Where the database answers, such a row ends the run. -/
theorem fetchChars_overruns (hE : E.sql.Answers)
    (hrs : ∀ r ∈ rs, r ∈ s.db.rows .characters ∧ -2 ^ 31 ≤ idOf r ∧ idOf r < 2 ^ 31)
    (hlen : chars.length + rs.length ≤ 4) (h : Overruns s.db rs) :
    ∃ t, fetchChars E J (rs.map (printed listCols)) chars s = .error .eqitemsIndex t := by
  induction rs generalizing chars s with
  | nil => exact h.elim
  | cons r rs ih =>
    obtain ⟨⟨hr, hrange⟩, hrs⟩ := List.forall_mem_cons.mp hrs
    obtain ⟨hfull, h⟩ := h
    rw [List.length_cons] at hlen
    rw [List.map_cons, fetchChars_step hE hr hfull hrange (by omega)]
    let v : Server := s.asked s.reads (s.sqlCalls + 1)
    rcases h with hover | ⟨hin, hover⟩
    · have hitems : fetchItems 15 .eqitemsIndex
          ((ownedBy s.db .charItems (idOf r)).map (printed itemRowCols)) (fun _ => {}) v =
            .error .eqitemsIndex v :=
        fetchItems_overruns (fun i hi k => ownedBy_typed hi k) hover
      refine ⟨v, ?_⟩
      rw [bind_apply, hitems]
    · have hitems : fetchItems 15 .eqitemsIndex
          ((ownedBy s.db .charItems (idOf r)).map (printed itemRowCols)) (fun _ => {}) v =
            .ok (stored (ownedBy s.db .charItems (idOf r)) fun _ => {}) v :=
        fetchItems_printed (fun i hi k => ownedBy_typed hi k) hin
      have hfew : (chars ++ [CCharacter.ofRow s.db r]).length + rs.length ≤ 4 := by
        rw [List.length_append, List.length_singleton]
        omega
      obtain ⟨t, ht⟩ := ih (s := v) hrs hfew hover
      exact ⟨t, (bind_ok hitems).trans ht⟩

/-! ## Runs of the two lists -/

/-- What the database answers for an account: at most four characters. -/
structure Rostered (E : Env) (db : Database) (x : Bytes) (rs : List (Row Col)) : Prop where
  few : rs.length ≤ 4
  rows : ∀ r ∈ rs, r ∈ db.rows .characters ∧ -2 ^ 31 ≤ idOf r ∧ idOf r < 2 ^ 31
  answer : ∀ n, (E.sql.query n db (vsprintf (ascii Query.chars) [txt x])).2 =
    some (rs.map (printed listCols))

/-- Under a name without quotes these are the characters of the account. -/
theorem rostered_clean {x : Bytes} (hE : E.sql.Answers) (hx : clean x) (hfew : (charsOf db x).length ≤ 4)
    (hid : ∀ r ∈ charsOf db x, -2 ^ 31 ≤ idOf r ∧ idOf r < 2 ^ 31) :
    Rostered E db x (charsOf db x) where
  few := hfew
  rows r hr := ⟨List.mem_of_mem_filter hr, hid r hr⟩
  answer n := by
    rw [hE n db _ _ (parse_chars hx), ← fetch_uidCond]
    rfl

/-- A program that does not end in a fault of the index. -/
def Within {α : Type} (x : M α) : Prop := ∀ s t, x s ≠ .error .eqitemsIndex t

section Within
variable {α β : Type}

theorem Within.bind {x : M α} {f : α → M β} (hx : Within x) (hf : ∀ b, Within (f b)) :
    Within (x >>= f) := fun s t h => by
  rcases of_bind_error h with h | ⟨b, v, -, h⟩
  · exact hx s t h
  · exact hf b v t h

theorem within_pure (b : β) : Within (pure b : M β) := fun _ _ h => by cases h

theorem within_client (c : Ptr) : Within (client c) := fun s t h => by
  unfold client at h
  split at h <;> cases h

theorem within_sendPacket (c : Ptr) (n : Nat) : Within (sendPacket c n) :=
  (within_client c).bind fun _ _ _ h => by cases h

theorem within_writes (ws : List Write) : Within (writes ws) := by
  induction ws with
  | nil => exact within_pure ()
  | cons w ws ih =>
    refine Within.bind (fun s t h => ?_) fun _ => Within.bind (fun _ _ h => by cases h) fun _ => ih
    cases (check_error h).1

theorem within_doSQL (fmt : String) (args : List Arg) : Within (doSQL E fmt args) := fun _ _ h => by
  cases (doSQL_error h).1

theorem within_lastPosid (rows : List Fetched) (charpos : Int) : Within (lastPosid rows charpos) := by
  induction rows generalizing charpos with
  | nil => exact within_pure charpos
  | cons row rows ih =>
    refine Within.bind (fun s t h => ?_) fun _ => ih _
    cases colInt_error h

theorem within_writeChars (k : Nat) (chars : List CCharacter) : Within (writeChars E J c k chars) := by
  induction chars generalizing k with
  | nil => exact within_pure true
  | cons ch chars ih =>
    refine (within_doSQL _ _).bind fun q => ?_
    rcases q with _ | rows
    · exact within_pure false
    · refine (within_lastPosid rows _).bind fun n => Within.bind (fun _ _ h => by cases h) fun _ => ?_
      exact (within_writes _).bind fun _ => ih _

theorem within_selectChars : Within (selectChars E c) :=
  (within_client c).bind fun _ => within_doSQL _ _

/-- The storage has a fault of its own. -/
theorem within_storage (n : Nat) (rows : List Fetched) (items : Nat → CItem) :
    Within (fetchItems n .storageIndex rows items) := by
  induction rows generalizing items with
  | nil => exact within_pure items
  | cons row rows ih =>
    refine Within.bind (fun s t h => ?_) fun _ => Within.bind (fun s t h => ?_) fun _ =>
      Within.bind (fun s t h => ?_) fun _ => ih _
    · cases colInt_error h
    · cases (check_error h).1
    · cases colItem_error h

end Within

/-- The rows of the account are read. -/
theorem Rostered.selected {cl : CConnClient} (h : Rostered E s.db cl.playerSession.username.str rs)
    (hcl : s.heap c = some cl) :
    ∃ v, selectChars E c s = .ok (some (rs.map (printed listCols))) v ∧ v.db = s.db := by
  have hlen : (vsprintf (ascii Query.chars) [txt cl.playerSession.username.str]).length < 2000 :=
    fits (by decide +kernel) (by simp [short_txt (username_length _)])
  have hsql := doSQL_apply (E := E) (s := s) hlen
  rw [h.answer s.sqlCalls] at hsql
  have hasked := doSQL_asked (by simp [Query.selects]) hsql
  refine ⟨_, (bind_ok (client_of_some hcl)).trans hsql, ?_⟩
  rw [hasked]
  rfl

/-- What follows the reading of the characters has no fault of the index. -/
theorem fetched_overrun_iff {k : Option (List CCharacter) → M Bool} (hk : ∀ q, Within (k q))
    (hE : E.sql.Answers) {x : Bytes} (hrs : Rostered E s.db x rs) :
    (∃ t, (fetchChars E J (rs.map (printed listCols)) [] >>= k) s = .error .eqitemsIndex t) ↔
      Overruns s.db rs := by
  constructor
  · rintro ⟨t, h⟩
    rcases of_bind_error h with herr | ⟨q, v, -, hrest⟩
    · exact fetchChars_overrun (fun r hr => (hrs.rows r hr).1) herr
    · exact absurd hrest (hk q v t)
  · intro h
    have hfew : ([] : List CCharacter).length + rs.length ≤ 4 := by
      rw [List.length_nil, Nat.zero_add]
      exact hrs.few
    obtain ⟨t, ht⟩ := fetchChars_overruns (J := J) hE hrs.rows hfew h
    exact ⟨t, bind_error ht⟩

theorem resendCharList_overrun_iff (hE : E.sql.Answers) (ha : s.session c = some a)
    (hrs : Rostered E s.db a.username.str rs) :
    (∃ t, resendCharList E J c s = .error .eqitemsIndex t) ↔ Overruns s.db rs := by
  obtain ⟨cl, hcl, rfl⟩ := Option.map_eq_some_iff.mp ha
  let s1 : Server := { s with packet := fun _ => 0 }
  let ws := [addWord 1824 0, addWord 274 4]
  let s2 : Server := { s1 with packet := stores ws s1.packet }
  let s3 : Server := { s2 with trace := .listing c :: s.trace }
  have hfree : packetFree s = .ok () s1 := rfl
  have hwrites : writes ws s1 = .ok () s2 :=
    writes_apply (by simp [ws, Write.inBounds, addWord]) s1
  have hnote : note (.listing c) s2 = .ok () s3 := rfl
  obtain ⟨v, hselect, hdb⟩ := Rostered.selected (s := s3) hrs hcl
  have hdb' : v.db = s.db := hdb
  rw [← hdb'] at hrs ⊢
  obtain ⟨k, hk, hrun⟩ : ∃ k, (∀ q, Within (k q)) ∧
      resendCharList E J c s = (fetchChars E J (rs.map (printed listCols)) [] >>= k) v := by
    refine ⟨_, ?within, (bind_ok hfree).trans ((bind_ok hwrites).trans ((bind_ok hnote).trans
      (bind_ok hselect)))⟩
    rintro (_ | chars)
    · exact within_pure true
    · refine (within_writeChars 0 chars).bind fun b => ?_
      rcases b with _ | _
      · exact within_pure false
      · exact (within_sendPacket c 756).bind fun _ => within_pure true
  rw [hrun]
  exact fetched_overrun_iff hk hE hrs

theorem sendCharList_overrun_iff (hE : E.sql.Answers) (ha : s.session c = some a)
    (hrs : Rostered E s.db a.username.str rs) :
    (∃ t, sendCharList E J c s = .error .eqitemsIndex t) ↔ Overruns s.db rs := by
  obtain ⟨cl, hcl, rfl⟩ := Option.map_eq_some_iff.mp ha
  let s1 : Server := { s with packet := fun _ => 0 }
  let ws := [addWord 1824 0, addWord 0x010a 4, addWord cl.playerSession.userid 6]
  let s2 : Server := { s1 with packet := stores ws s1.packet }
  let s3 : Server := { s2 with trace := .listing c :: s.trace }
  have hfree : packetFree s = .ok () s1 := rfl
  have hclient : client c s1 = .ok cl s1 := client_of_some (s := s1) hcl
  have hwrites : writes ws s1 = .ok () s2 :=
    writes_apply (by simp [ws, Write.inBounds, addWord]) s1
  have hnote : note (.listing c) s2 = .ok () s3 := rfl
  obtain ⟨v, hselect, hdb⟩ := Rostered.selected (s := s3) hrs hcl
  have hdb' : v.db = s.db := hdb
  rw [← hdb'] at hrs ⊢
  obtain ⟨k, hk, hrun⟩ : ∃ k, (∀ q, Within (k q)) ∧
      sendCharList E J c s = (fetchChars E J (rs.map (printed listCols)) [] >>= k) v := by
    refine ⟨_, ?within, (bind_ok hfree).trans ((bind_ok hclient).trans ((bind_ok hwrites).trans
      ((bind_ok hnote).trans (bind_ok hselect))))⟩
    rintro (_ | chars)
    · exact within_pure true
    refine (within_doSQL _ _).bind fun q => ?_
    rcases q with _ | storageRows
    · exact within_pure false
    refine (within_storage _ _ _).bind fun _ => (within_writeChars 0 chars).bind fun b => ?_
    rcases b with _ | _
    · exact within_pure false
    · exact (within_writes _).bind fun _ => (within_writes _).bind fun _ =>
        (within_sendPacket c 1823).bind fun _ => within_pure true
  rw [hrun]
  exact fetched_overrun_iff hk hE hrs

/-! ## The fields of a character -/

/-- A character as it is read from its row and its items. -/
def CCharacter.ofItems (r : Row Col) (items : List (Row Col)) : CCharacter where
  charName := textOf (r .name)
  level := u32 (intOf (r .clevel))
  exp := u32 (intOf (r .cexp))
  mobid := u32 (intOf (r .mobid))
  str := u32 (intOf (r .cstr))
  int := u32 (intOf (r .cint))
  dex := u32 (intOf (r .cdex))
  con := u32 (intOf (r .ccon))
  gold := intOf (r .gold)
  eqitems := stored items fun _ => {}

/-- The stores of a row at a slot, with its items below 15 and nothing else. -/
def ownFields (J : Junk) (db : Database) (rn : Row Col × Int) : List Write :=
  charFields J (CCharacter.ofItems rn.1
    ((ownedBy db .charItems (idOf rn.1)).filter fun i => slotOf i < 15)) rn.2

/-- A byte that is stored. -/
def Stored (ws : List Write) (i : Nat) : Prop := ∃ w ∈ ws, w.covers i

/-- A byte that is stored for a character and for none after it says what is stored there for that
character alone. -/
def OwnFields (J : Junk) (db : Database) (cs : List (Row Col × Int)) (shown : Nat → Prop)
    (P : Bytes) : Prop :=
  ∀ before after r n, cs = before ++ (r, n) :: after → ∀ i, shown i →
    Stored (ownFields J db (r, n)) i → (∀ c ∈ after, ¬Stored (ownFields J db c) i) →
      P[i]? = some (stores (ownFields J db (r, n)) (fun _ => 0) i)

theorem Write.store_covers {w : Write} {i : Nat} (hw : 0 ≤ w.off) (h : w.covers i) :
    w.store D i = w.store (fun _ => 0) i := by
  unfold Write.covers at h
  have hoff : w.off.toNat ≤ i := by omega
  have hlen : i - w.off.toNat < w.bytes.length := by omega
  unfold Write.store
  rw [if_pos hoff, if_pos hoff, List.getElem?_eq_getElem hlen]
  rfl

/-- A byte that is stored does not depend on the buffer. -/
theorem stores_stored {ws : List Write} {i : Nat} (hws : ∀ w ∈ ws, 0 ≤ w.off) (h : Stored ws i) :
    stores ws D i = stores ws (fun _ => 0) i := by
  induction ws generalizing D with
  | nil =>
    obtain ⟨w, hw, -⟩ := h
    cases hw
  | cons w ws ih =>
    obtain ⟨hoff, hws⟩ := List.forall_mem_cons.mp hws
    rw [stores_cons, stores_cons]
    by_cases hlater : Stored ws i
    · rw [ih hws hlater, ← ih (D := w.store fun _ => 0) hws hlater]
    · obtain ⟨v, hv, hcovers⟩ := h
      rcases List.mem_cons.mp hv with rfl | hv
      · exact stores_congr ws (Write.store_covers hoff hcovers)
      · exact absurd ⟨v, hv, hcovers⟩ hlater

/-- A byte that is not stored is kept. -/
theorem stores_kept {ws : List Write} {i : Nat} (hws : ∀ w ∈ ws, 0 ≤ w.off) (h : ¬Stored ws i) :
    stores ws D i = D i := by
  refine stores_clear fun w hw => ⟨?_, hws w hw⟩
  have hcovers : ¬w.covers i := fun hi => h ⟨w, hw, hi⟩
  unfold Write.covers at hcovers
  unfold Write.clear
  omega

theorem stored_flatMap {cs : List (Row Col × Int)} {i : Nat} :
    Stored (cs.flatMap (ownFields J db)) i ↔ ∃ c ∈ cs, Stored (ownFields J db c) i := by
  constructor
  · rintro ⟨w, hw, hi⟩
    obtain ⟨c, hc, hw⟩ := List.mem_flatMap.mp hw
    exact ⟨c, hc, w, hw, hi⟩
  · rintro ⟨c, hc, w, hw, hi⟩
    exact ⟨w, List.mem_flatMap.mpr ⟨c, hc, hw⟩, hi⟩

/-- A buffer in which characters are stored one after the other. -/
theorem ownFields_stores {cs : List (Row Col × Int)} {shown : Nat → Prop} {len : Nat}
    (tail : (Nat → UInt8) → Nat → UInt8) (hcs : ∀ w ∈ cs.flatMap (ownFields J db), 0 ≤ w.off) (hlen : ∀ i, shown i → i < len)
    (htail : ∀ B i, shown i → tail B i = B i) :
    OwnFields J db cs shown ((List.range len).map (tail (stores (cs.flatMap (ownFields J db)) D))) := by
  rintro before after r n rfl i hi hstored hafter
  rw [List.flatMap_append, List.flatMap_cons] at hcs
  have hown : ∀ w ∈ ownFields J db (r, n), 0 ≤ w.off := fun w hw =>
    hcs w (List.mem_append_right _ (List.mem_append_left _ hw))
  have hlater : ∀ w ∈ after.flatMap (ownFields J db), 0 ≤ w.off := fun w hw =>
    hcs w (List.mem_append_right _ (List.mem_append_right _ hw))
  have hnot : ¬Stored (after.flatMap (ownFields J db)) i := fun h => by
    obtain ⟨c, hc, h⟩ := stored_flatMap.mp h
    exact hafter c hc h
  rw [List.getElem?_map, List.getElem?_range (hlen i hi), Option.map_some, htail _ i hi,
    List.flatMap_append, List.flatMap_cons, stores_append, stores_append, stores_kept hlater hnot,
    stores_stored hown hstored]

theorem lastPosid_ok {rows : List Fetched} {k m : Int} (h : lastPosid rows k s = .ok m t) : t = s := by
  induction rows generalizing k s with
  | nil =>
    cases h
    rfl
  | cons row rows ih =>
    obtain ⟨n, s1, h1, hrest⟩ := of_bind_ok h
    rw [ih hrest, (colInt_ok h1).1]

/-- The stores of characters in the slots that are found, which the log has. -/
theorem writeChars_slots {k : Nat} (h : writeChars E J c k chars s = .ok true t) :
    ∃ ps : List Int, ps.length = chars.length ∧
      t.trace = (ps.map (Event.slot c)).reverse ++ s.trace ∧
      t.packet = stores ((chars.zip ps).flatMap fun e => charFields J e.1 e.2) s.packet ∧
      ∀ w ∈ (chars.zip ps).flatMap fun e => charFields J e.1 e.2, 0 ≤ w.off := by
  induction chars generalizing k s with
  | nil =>
    cases h
    exact ⟨[], rfl, rfl, rfl, by simp⟩
  | cons ch chars ih =>
    obtain ⟨q, s1, h1, g1⟩ := of_bind_ok h
    rcases q with _ | rows
    · cases g1
    obtain ⟨charpos, s2, h2, g2⟩ := of_bind_ok g1
    obtain ⟨_, s3, h3, g3⟩ := of_bind_ok g2
    obtain ⟨_, s4, h4, hrest⟩ := of_bind_ok g3
    have hs1 := doSQL_asked (by simp [Query.selects]) h1
    have hs2 : s2 = s1 := lastPosid_ok h2
    obtain ⟨hs4, hin⟩ := writes_stores h4
    have hbuffer : s4.packet = stores (charFields J ch charpos) s3.packet := by rw [hs4]
    have hlog : s4.trace = s3.trace := by rw [hs4]
    have hs3 : s3.packet = s.packet ∧ s3.trace = .slot c charpos :: s.trace := by
      cases h3
      rw [hs2, hs1]
      exact ⟨rfl, rfl⟩
    obtain ⟨ps, hlen, htrace, hpacket, hoff⟩ := ih hrest
    refine ⟨charpos :: ps, by rw [List.length_cons, List.length_cons, hlen], ?_, ?_, ?_⟩
    · rw [htrace, hlog, hs3.2, List.map_cons, List.reverse_cons, List.append_assoc]
      rfl
    · rw [hpacket, hbuffer, hs3.1, List.zip_cons_cons, List.flatMap_cons, stores_append]
    · intro w hw
      rw [List.zip_cons_cons, List.flatMap_cons] at hw
      rcases List.mem_append.mp hw with hw | hw
      · have hbounds := hin w hw
        unfold Write.inBounds at hbounds
        exact (of_decide_eq_true hbounds).1
      · exact hoff w hw

theorem openSlots_slots (ps : List Int) (es : List Event) :
    openSlots c ((ps.map (Event.slot c)).reverse ++ .listing c :: es) = ps.reverse := by
  induction ps using List.reverseRecOn with
  | nil => exact if_pos rfl
  | append_singleton ps n ih =>
    have hlog : ((ps ++ [n]).map (Event.slot c)).reverse ++ .listing c :: es =
        .slot c n :: ((ps.map (Event.slot c)).reverse ++ .listing c :: es) := by
      rw [List.map_append, List.reverse_append]
      rfl
    rw [hlog, openSlots, if_pos rfl, ih, List.reverse_append]
    rfl

/-- The characters of an account in the slots that a run stored them in. -/
def placed (c : Ptr) (rs : List (Row Col)) (t : Server) : List (Row Col × Int) :=
  rs.zip (openSlots c t.trace).reverse

/-- The characters that were read are stored with their own items. -/
theorem ofRow_flatMap {ps : List Int} (hin : ∀ r ∈ rs, ∀ i ∈ ownedBy db .charItems (idOf r), InArray 15 i) :
    (((rs.map (CCharacter.ofRow db)).zip ps).flatMap fun e => charFields J e.1 e.2) =
      (rs.zip ps).flatMap (ownFields J db) := by
  rw [List.zip_map_left, List.flatMap_map]
  refine List.flatMap_congr fun e he => ?_
  have hr : e.1 ∈ rs := (List.of_mem_zip he).1
  have hitems : (ownedBy db .charItems (idOf e.1)).filter (fun i => slotOf i < 15) =
      ownedBy db .charItems (idOf e.1) :=
    List.filter_eq_self.mpr fun i hi => decide_eq_true (hin e.1 hr i hi).2
  unfold ownFields
  rw [hitems]
  rfl

/-- What is read of the account. -/
theorem Rostered.read {cl : CConnClient} {rows : List Fetched} {u v w : Server}
    (h : Rostered E u.db cl.playerSession.username.str rs) (hcl : u.heap c = some cl)
    (hselect : selectChars E c u = .ok (some rows) v)
    (hfetch : fetchChars E J rows [] v = .ok (some chars) w) :
    chars = rs.map (CCharacter.ofRow u.db) ∧ w.packet = u.packet ∧ w.trace = u.trace ∧
      ∀ r ∈ rs, ∀ i ∈ ownedBy u.db .charItems (idOf r), InArray 15 i := by
  obtain ⟨cl', x, hx, hsql⟩ := of_bind_ok hselect
  obtain ⟨hcl', rfl⟩ := client_ok hx
  obtain rfl := Option.some.inj (hcl'.symm.trans hcl)
  have hv := doSQL_asked (by simp [Query.selects]) hsql
  have hrows := (h.answer x.sqlCalls).symm.trans (doSQL_ok hsql).1.symm
  have hdb : v.db = x.db := by
    rw [hv]
    rfl
  obtain rfl := Option.some.inj hrows
  obtain ⟨hchars, hw, hread⟩ := fetchChars_printed_ok
    (fun r hr => by rw [hdb]; exact (h.rows r hr).1) (by simpa using h.few) hfetch
  rw [hdb, List.nil_append] at hchars
  rw [hdb] at hread
  refine ⟨hchars, ?_, ?_, fun r hr => (hread r hr).2⟩
  · rw [hw, hv]
    rfl
  · rw [hw, hv]
    rfl

/-- The bytes of the second list. -/
theorem resent_ownFields {P : Bytes} {k : Nat} {b : Bool} (ha : s.session c = some a)
    (hrs : Rostered E s.db a.username.str rs) (h : resendCharList E J c s = .ok b t)
    (hsent : .send p P k ∈ s.since t) : OwnFields J s.db (placed c rs t) (fun i => i < 756) P := by
  obtain ⟨cl, hcl, rfl⟩ := Option.map_eq_some_iff.mp ha
  obtain ⟨rows, chars, s3, s4, s5, s6, hs3, h4, h5, h6, hP, hlog⟩ := resendCharList_parts h hsent
  have hdb3 : s3.db = s.db := by rw [hs3]
  have hcl3 : s3.heap c = some cl := by rw [hs3]; exact hcl
  rw [← hdb3] at hrs ⊢
  obtain ⟨hchars, -, hlog5, hin⟩ := hrs.read hcl3 h4 h5
  rw [hchars] at h6
  obtain ⟨ps, -, hlog6, hpacket, hoff⟩ := writeChars_slots h6
  rw [ofRow_flatMap hin] at hpacket hoff
  have hplaced : placed c rs t = rs.zip ps := by
    rw [placed, hlog, openSlots, hlog6, hlog5, hs3, openSlots_slots, List.reverse_reverse]
    all_goals simp
  rw [hplaced, hP, hpacket]
  exact ownFields_stores (fun B => B) hoff (fun _ hi => hi) fun _ _ _ => rfl

theorem colItem_kept {row : Fetched} {item : CItem} (h : colItem row s = .ok item t) : t = s := by
  unfold colItem at h
  obtain ⟨_, s1, h1, g1⟩ := of_bind_ok h
  obtain ⟨_, s2, h2, g2⟩ := of_bind_ok g1
  obtain ⟨_, s3, h3, g3⟩ := of_bind_ok g2
  obtain ⟨_, s4, h4, g4⟩ := of_bind_ok g3
  obtain ⟨_, s5, h5, g5⟩ := of_bind_ok g4
  obtain ⟨_, s6, h6, g6⟩ := of_bind_ok g5
  obtain ⟨_, s7, h7, g7⟩ := of_bind_ok g6
  cases g7
  rw [(colInt_ok h7).1, (colInt_ok h6).1, (colInt_ok h5).1, (colInt_ok h4).1, (colInt_ok h3).1,
    (colInt_ok h2).1, (colInt_ok h1).1]

theorem fetchItems_kept {e : Fault} {rows : List Fetched} {x : Nat → CItem}
    (h : fetchItems n e rows items s = .ok x t) : t = s := by
  induction rows generalizing items s with
  | nil =>
    cases h
    rfl
  | cons row rows ih =>
    obtain ⟨m, s1, h1, g1⟩ := of_bind_ok h
    obtain ⟨_, s2, h2, g2⟩ := of_bind_ok g1
    obtain ⟨item, s3, h3, hrest⟩ := of_bind_ok g2
    have hcheck : s2 = s1 := by
      unfold check at h2
      split at h2 <;> cases h2
      rfl
    rw [ih hrest, colItem_kept h3, hcheck, (colInt_ok h1).1]

/-- The bytes of the first list, but for those with the id. -/
theorem sent_ownFields {P : Bytes} {k : Nat} {b : Bool} (ha : s.session c = some a)
    (hrs : Rostered E s.db a.username.str rs) (h : sendCharList E J c s = .ok b t)
    (hsent : .send p P k ∈ s.since t) :
    OwnFields J s.db (placed c rs t) (fun i => i < 756 ∧ ¬(120 ≤ i ∧ i < 128)) P := by
  obtain ⟨cl, hcl, rfl⟩ := Option.map_eq_some_iff.mp ha
  obtain ⟨rows, chars, storageRows, storage, s3, s4, s5, s6, s7, s8, hs3, h4, h5, h6, h7, h8, hP, hlog⟩ :=
    sendCharList_sent hcl h hsent
  have hdb3 : s3.db = s.db := by rw [hs3]
  have hcl3 : s3.heap c = some cl := by rw [hs3]; exact hcl
  rw [← hdb3] at hrs ⊢
  obtain ⟨hchars, -, hlog5, hin⟩ := hrs.read hcl3 h4 h5
  have hlog7 : s7.trace = s5.trace := by
    rw [fetchItems_kept h7, doSQL_asked (by simp [Query.selects]) h6]
    rfl
  rw [hchars] at h8
  obtain ⟨ps, -, hlog8, hpacket, hoff⟩ := writeChars_slots h8
  rw [ofRow_flatMap hin] at hpacket hoff
  have hplaced : placed c rs t = rs.zip ps := by
    rw [placed, hlog, openSlots, hlog8, hlog7, hlog5, hs3, openSlots_slots, List.reverse_reverse]
    all_goals simp
  rw [hplaced, hP, hpacket]
  exact ownFields_stores (stores (storageFields storage ++ lastFields J cl.playerSession)) hoff
    (fun _ hi => by omega) fun _ _ hi => lastFields_congr hi.1 hi.2

/-! ## Equipped items only -/

/-- Neither list reaches behind the array of a character, and what they show of each is its own. -/
structure OwnItems (E : Env) (c : Ptr) (s : Server) (rs : List (Row Col)) : Prop where
  resent : ∀ J t, resendCharList E J c s ≠ .error .eqitemsIndex t
  sent : ∀ J t, sendCharList E J c s ≠ .error .eqitemsIndex t
  resentFields : ∀ J b t p P k, resendCharList E J c s = .ok b t → .send p P k ∈ s.since t →
    OwnFields J s.db (placed c rs t) (fun i => i < 756) P
  sentFields : ∀ J b t p P k, sendCharList E J c s = .ok b t → .send p P k ∈ s.since t →
    OwnFields J s.db (placed c rs t) (fun i => i < 756 ∧ ¬(120 ≤ i ∧ i < 128)) P

/-- An account whose character has an item in a slot. -/
def carrying (slotnum : Int) : Database :=
  (oneAccount 0).add .charItems [.owner, .slotnum, .itemid] [.int 1, .int slotnum, .int 7]

/-- The account has one character. -/
example : (charsOf (carrying 15) (ascii "bob")).length = 1 := by decide +kernel

end Destiny
