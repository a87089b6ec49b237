import Destiny.Server.Fetch
import Destiny.Server.Buffer
import Destiny.Server.Session

/-!
# Loading a character

`loaddata` reads a character's row and then its item rows into the client. The array of items
is cleared before the rows are stored into it, up to and without its last element, so what that
element holds afterwards is the character's only if a row says so.
-/

namespace Destiny

open Text Sql Prog

/-- The columns that `loaddata` reads. -/
def charCols : List Col :=
  [.id, .cexp, .clevel, .gold, .skpoints, .stpoints, .maxHp, .maxMp, .cstr, .cint, .cdex, .ccon,
    .mobid, .posX, .posY, .classid]

/-- A client that has taken over a character's row. -/
def CConnClient.withChar (cl : CConnClient) (r : Row Col) : CConnClient := { cl with
  playerSession := { cl.playerSession with charid := u32 (intOf (r .id)) }
  playerInfo := { cl.playerInfo with
    exp := u32 (intOf (r .cexp)), level := u32 (intOf (r .clevel)), gold := intOf (r .gold)
    skillPoints := u32 (intOf (r .skpoints)), statPoints := u32 (intOf (r .stpoints))
    mobid := u32 (intOf (r .mobid)), classid := u32 (intOf (r .classid)) }
  playerStats := { cl.playerStats with
    maxHP := u16 (intOf (r .maxHp)), maxMP := u16 (intOf (r .maxMp))
    hp := u16 (intOf (r .maxHp)), mp := u16 (intOf (r .maxMp))
    str := u16 (intOf (r .cstr)), int := u16 (intOf (r .cint)), dex := u16 (intOf (r .cdex))
    con := u16 (intOf (r .ccon)) }
  playerPosition := { cl.playerPosition with current := ⟨intOf (r .posX), intOf (r .posY)⟩ } }

/-- The answer to the statement that comes after `k` others. -/
def Server.answer (s : Server) (E : Env) (k : Nat) (fmt : String) (args : List Arg) :
    Option (List Fetched) :=
  (E.sql.query (s.sqlCalls + k) s.db (vsprintf (ascii fmt) args)).2

/-- The items of a client are those that the rows of an owner say, and no others. -/
def CarriesItems (db : Database) (m : Int) (items : Nat → CItem) : Prop :=
  ∀ k : Nat, k < 78 →
    (∀ r ∈ ownedBy db .charItems m, r .slotnum = .int k → items k = CItem.ofRow r) ∧
    ((∀ r ∈ ownedBy db .charItems m, r .slotnum ≠ .int k) → items k = {})

instance (db : Database) (m : Int) (items : Nat → CItem) : Decidable (CarriesItems db m items) :=
  inferInstanceAs (Decidable (∀ k : Nat, k < 78 → _ ∧ _))

/-- Every item row of an owner is in one of the 78 slots, and no two are in one. -/
structure Slotted (db : Database) (m : Int) : Prop where
  slots : ∀ r ∈ ownedBy db .charItems m, ∃ k : Nat, k < 78 ∧ r .slotnum = .int k
  once : (ownedBy db .charItems m).Pairwise fun r r' => r .slotnum ≠ r' .slotnum

instance (db : Database) (m : Int) : Decidable (Slotted db m) :=
  decidable_of_iff ((∀ r ∈ ownedBy db .charItems m, ∃ k : Nat, k < 78 ∧ r .slotnum = .int k) ∧
    (ownedBy db .charItems m).Pairwise fun r r' => r .slotnum ≠ r' .slotnum)
    ⟨fun h => ⟨h.1, h.2⟩, fun h => ⟨h.slots, h.once⟩⟩

variable {E : Env} {J : Junk} {c : Ptr} {s t u : Server} {cl : CConnClient} {r : Row Col}
  {rest : List Fetched} {m : Int} {b : Bool} {db : Database}

theorem update_update (s : Server) (c : Ptr) (f g : CConnClient → CConnClient) :
    (s.update c f).update c g = s.update c fun cl => g (f cl) := by
  have hheap : ((s.update c f).update c g).heap = (s.update c fun cl => g (f cl)).heap := by
    funext p
    show (if p = c then (if p = c then (s.heap p).map f else s.heap p).map g else _) =
      if p = c then _ else _
    split
    · rw [Option.map_map]
      rfl
    · next hp => exact if_neg hp
  exact congrArg (fun heap => { s with heap := heap }) hheap

theorem charCols_kind {k : Col} (hk : k ∈ charCols) : k.kind = .int := by
  revert k
  decide

/-- What `loaddata` does after it has read the row. -/
def loadItems (E : Env) (c : Ptr) (cl : CConnClient) (r : Row Col) : M Bool := do
  match ← doSQL E Query.charItems [txt (textOf (r .id))] with
  | none => return true
  | some rows => do
    let items ← fetchItems 78 .itemsIndex rows fun j => if j < 77 then {} else cl.items j
    modifyClient c fun cl => { cl with items := items }
    modifySession c fun a => { a with isLoggedIn := true }
    return true

theorem loaddata_row (hcl : s.heap c = some cl) (htyped : ∀ k, (r k).HasKind k.kind)
    (hnull : ∀ k ∈ charCols, r k ≠ .null)
    (h : doSQL E Query.charData [txt cl.playerInfo.charName, txt cl.playerSession.username.str] s =
      .ok (some (printed charCols r :: rest)) u) :
    loaddata E c s = loadItems E c cl r (u.update c (·.withChar r)) := by
  have hcol : ∀ i k, charCols[i]? = some k →
      colInt (printed charCols r) i u = .ok (intOf (r k)) u := fun i k hk => by
    have hmem := List.mem_of_getElem? hk
    exact colInt_printed hk (charCols_kind hmem ▸ htyped k) (hnull k hmem)
  have hid : ∀ v, col (printed charCols r) 0 v = .ok (textOf (r .id)) v := fun v =>
    col_printed rfl (hnull .id (by decide))
  rw [loaddata, bind_ok (client_of_some hcl), bind_ok h]
  dsimp only
  rw [bind_ok (hcol 0 .id rfl), bind_ok (hcol 1 .cexp rfl), bind_ok (hcol 2 .clevel rfl),
    bind_ok (hcol 3 .gold rfl), bind_ok (hcol 4 .skpoints rfl), bind_ok (hcol 5 .stpoints rfl),
    bind_ok (hcol 6 .maxHp rfl), bind_ok (hcol 7 .maxMp rfl), bind_ok (hcol 8 .cstr rfl),
    bind_ok (hcol 9 .cint rfl), bind_ok (hcol 10 .cdex rfl), bind_ok (hcol 11 .ccon rfl),
    bind_ok (hcol 12 .mobid rfl), bind_ok (hcol 13 .posX rfl), bind_ok (hcol 14 .posY rfl),
    bind_ok (hcol 15 .classid rfl)]
  have hsession : ∀ f : CAccount → CAccount, modifySession c f u =
      .ok () (u.update c fun cl => { cl with playerSession := f cl.playerSession }) := fun _ => rfl
  have hclient : ∀ (f : CConnClient → CConnClient) v, modifyClient c f v = .ok () (v.update c f) :=
    fun _ _ => rfl
  rw [bind_ok (hsession _), bind_ok (hclient _ _), bind_ok (hid _), update_update]
  rfl

/-- A row that has been read holds no `NULL`. -/
theorem charCols_full (h : loaddata E c s = .ok b t) (hcl : s.heap c = some cl)
    (hq : doSQL E Query.charData [txt cl.playerInfo.charName, txt cl.playerSession.username.str] s =
      .ok (some (printed charCols r :: rest)) u) : ∀ k ∈ charCols, r k ≠ .null := by
  have hcol : ∀ {i k n v w}, charCols[i]? = some k → colInt (printed charCols r) i v = .ok n w →
      r k ≠ .null := fun hk h => by
    obtain ⟨_, _, hcol, -⟩ := of_bind_ok h
    exact (col_printed_ok hk hcol).1
  rw [loaddata, bind_ok (client_of_some hcl), bind_ok hq] at h
  dsimp only at h
  obtain ⟨_, _, h0, h⟩ := of_bind_ok h
  obtain ⟨_, _, h1, h⟩ := of_bind_ok h
  obtain ⟨_, _, h2, h⟩ := of_bind_ok h
  obtain ⟨_, _, h3, h⟩ := of_bind_ok h
  obtain ⟨_, _, h4, h⟩ := of_bind_ok h
  obtain ⟨_, _, h5, h⟩ := of_bind_ok h
  obtain ⟨_, _, h6, h⟩ := of_bind_ok h
  obtain ⟨_, _, h7, h⟩ := of_bind_ok h
  obtain ⟨_, _, h8, h⟩ := of_bind_ok h
  obtain ⟨_, _, h9, h⟩ := of_bind_ok h
  obtain ⟨_, _, h10, h⟩ := of_bind_ok h
  obtain ⟨_, _, h11, h⟩ := of_bind_ok h
  obtain ⟨_, _, h12, h⟩ := of_bind_ok h
  obtain ⟨_, _, h13, h⟩ := of_bind_ok h
  obtain ⟨_, _, h14, h⟩ := of_bind_ok h
  obtain ⟨_, _, h15, -⟩ := of_bind_ok h
  simp only [charCols, List.forall_mem_cons]
  exact ⟨hcol rfl h0, hcol rfl h1, hcol rfl h2, hcol rfl h3, hcol rfl h4, hcol rfl h5, hcol rfl h6,
    hcol rfl h7, hcol rfl h8, hcol rfl h9, hcol rfl h10, hcol rfl h11, hcol rfl h12, hcol rfl h13,
    hcol rfl h14, hcol rfl h15, fun _ h => absurd h List.not_mem_nil⟩

/-- The array of items after the rows of an owner. -/
def CConnClient.newItems (cl : CConnClient) (db : Database) (m : Int) : Nat → CItem :=
  stored (ownedBy db .charItems m) fun j => if j < 77 then {} else cl.items j

/-- A client that has loaded a character. -/
def CConnClient.loaded (cl : CConnClient) (db : Database) (r : Row Col) (m : Int) : CConnClient :=
  { cl.withChar r with
    playerSession := { (cl.withChar r).playerSession with isLoggedIn := true }
    items := cl.newItems db m }

/-- A query that fits its buffer. -/
theorem doSQL_select {fmt : String} {args : List Arg} (hfmt : fmt ∈ Query.selects)
    (hlen : (vsprintf (ascii fmt) args).length < 2000) :
    doSQL E fmt args s = .ok (s.answer E 0 fmt args) (s.asked s.reads (s.sqlCalls + 1)) := by
  have happly := doSQL_apply (E := E) (s := s) hlen
  rw [doSQL_asked hfmt happly] at happly
  exact happly

theorem loadItems_ok {v : Server} (hid : r .id = .int m)
    (hitems : (v.answer E 0 Query.charItems [txt (decimal m)]).isSome)
    (h : loadItems E c cl r v = .ok b t) : b = true ∧
      t = (v.asked v.reads (v.sqlCalls + 1)).update c (fun cl' => { cl' with
        playerSession := { cl'.playerSession with isLoggedIn := true }
        items := cl.newItems v.db m }) ∧ ∀ i ∈ ownedBy v.db .charItems m, InArray 78 i := by
  obtain ⟨q, w, hq, h⟩ := of_bind_ok h
  rw [hid] at hq
  have hw := doSQL_asked (by simp [Query.selects]) hq
  have hsome : q = v.answer E 0 Query.charItems [txt (decimal m)] := (doSQL_ok hq).1
  rcases q with _ | rows
  · rw [← hsome] at hitems
    cases hitems
  obtain rfl := doSQL_rows (parse_charItems m) hq
  rw [fetch_ownerCond] at h
  obtain ⟨items, w1, h1, h⟩ := of_bind_ok h
  obtain ⟨hitems, hw1, hin⟩ := fetchItems_printed_ok (fun r hr k => ownedBy_typed hr k) h1
  have hdb : w.db = v.db := by rw [hw]; rfl
  cases h
  refine ⟨rfl, ?_, hin⟩
  have hnew : items = cl.newItems v.db m := hitems
  rw [hw1, hnew, hw]
  exact update_update _ _ _ _

theorem update_congr {f g : CConnClient → CConnClient} (hcl : s.heap c = some cl)
    (h : f cl = g cl) : s.update c f = s.update c g := by
  have hheap : (s.update c f).heap = (s.update c g).heap := by
    funext p
    show (if p = c then _ else _) = if p = c then _ else _
    split
    · next hp => rw [hp, hcl, Option.map_some, Option.map_some, h]
    · rfl
  exact congrArg (fun heap => { s with heap := heap }) hheap

/-- A load both of whose queries succeed. -/
theorem loaddata_loaded (hcl : s.heap c = some cl) (hr : r ∈ s.db.rows .characters)
    (hid : r .id = .int m)
    (hchar : s.answer E 0 Query.charData [txt cl.playerInfo.charName,
      txt cl.playerSession.username.str] = some (printed charCols r :: rest))
    (hitems : (s.answer E 1 Query.charItems [txt (decimal m)]).isSome)
    (h : loaddata E c s = .ok b t) : b = true ∧
      t = (s.asked s.reads (s.sqlCalls + 2)).update c (fun _ => cl.loaded s.db r m) ∧
      (∀ k ∈ charCols, r k ≠ .null) ∧ ∀ i ∈ ownedBy s.db .charItems m, InArray 78 i := by
  have hload := h
  rw [loaddata, bind_ok (client_of_some hcl)] at hload
  obtain ⟨q, u, hq, -⟩ := of_bind_ok hload
  obtain rfl : q = some (printed charCols r :: rest) := (doSQL_ok hq).1.trans hchar
  have hu := doSQL_asked (by simp [Query.selects]) hq
  have hnull := charCols_full h hcl hq
  rw [loaddata_row hcl (s.db.typed _ r hr) hnull hq] at h
  obtain ⟨hb, ht, hin⟩ := loadItems_ok hid (by rw [hu]; exact hitems) h
  rw [hu] at hin
  refine ⟨hb, ?_, hnull, hin⟩
  rw [ht, hu]
  refine (update_update (s.asked s.reads (s.sqlCalls + 2)) c _ _).trans ?_
  exact update_congr hcl rfl

/-- A character without a `NULL`, whose item rows have neither and are all in the array. -/
theorem loaddata_apply (hcl : s.heap c = some cl) (hr : r ∈ s.db.rows .characters)
    (hid : r .id = .int m) (hm : -2 ^ 31 ≤ m ∧ m < 2 ^ 31)
    (hname : cl.playerInfo.charName.length ≤ 16)
    (hchar : s.answer E 0 Query.charData [txt cl.playerInfo.charName,
      txt cl.playerSession.username.str] = some (printed charCols r :: rest))
    (hitems : (s.answer E 1 Query.charItems [txt (decimal m)]).isSome)
    (hnull : ∀ k ∈ charCols, r k ≠ .null) (hin : ∀ i ∈ ownedBy s.db .charItems m, InArray 78 i) :
    ∃ t, loaddata E c s = .ok true t := by
  have hfit : ∀ a ∈ [txt cl.playerInfo.charName, txt cl.playerSession.username.str], Short a := by
    simp [short_txt hname, short_txt (username_length _)]
  have hq : doSQL E Query.charData _ s = .ok _ _ :=
    doSQL_select (by simp [Query.selects]) (fits (by decide +kernel) hfit)
  rw [hchar] at hq
  rw [loaddata_row hcl (s.db.typed _ r hr) hnull hq]
  let v : Server := (s.asked s.reads (s.sqlCalls + 1)).update c (·.withChar r)
  have hdigits : ∀ a ∈ [txt (decimal m)], Short a := by
    simp [short_txt ((length_decimal_le hm).trans (by decide : 11 ≤ 16))]
  obtain ⟨rows, hrows⟩ := Option.isSome_iff_exists.mp hitems
  have hq2 : doSQL E Query.charItems _ v = .ok _ _ :=
    doSQL_select (by simp [Query.selects]) (fits (by decide +kernel) hdigits)
  have hrows : v.answer E 0 Query.charItems [txt (decimal m)] = some rows := hrows
  rw [hrows] at hq2
  obtain rfl : rows = (ownedBy s.db .charItems m).map (printed itemRowCols) :=
    (doSQL_rows (parse_charItems m) hq2).trans (fetch_ownerCond _ _)
  have hfetch : fetchItems 78 .itemsIndex ((ownedBy s.db .charItems m).map (printed itemRowCols))
      (fun j => if j < 77 then {} else cl.items j) (v.asked v.reads (v.sqlCalls + 1)) =
        .ok (cl.newItems s.db m) _ := fetchItems_printed (fun i hi k => ownedBy_typed hi k) hin
  refine ⟨((v.asked v.reads (v.sqlCalls + 1)).update c fun cl' => { cl' with
    items := cl.newItems s.db m }).update c fun cl' => { cl' with
      playerSession := { cl'.playerSession with isLoggedIn := true } }, ?_⟩
  rw [loadItems, hid]
  exact (bind_ok hq2).trans (bind_ok hfetch)

/-! ## The items of a character -/

theorem newItems_apply (cl : CConnClient) (db : Database) (m : Int) (k : Nat) :
    cl.newItems db m k = ((((ownedBy db .charItems m).filter fun r => slotOf r = k).getLast?).map
      CItem.ofRow).getD (if k < 77 then {} else cl.items k) := stored_apply _ _ k

/-- The array after a load is what it would be over zeros, if the last slot is. -/
theorem newItems_eq_iff : (∀ k < 78, cl.newItems db m k =
    stored (ownedBy db .charItems m) (fun _ => {}) k) ↔
      (∃ r ∈ ownedBy db .charItems m, slotOf r = 77) ∨ cl.items 77 = {} := by
  constructor
  · intro h
    have hlast := h 77 (by decide)
    rw [newItems_apply, stored_apply] at hlast
    cases hrows : (ownedBy db .charItems m).filter (fun r => slotOf r = 77) with
    | nil =>
      rw [hrows] at hlast
      exact .inr hlast
    | cons r l =>
      have hmem : r ∈ (ownedBy db .charItems m).filter fun r => slotOf r = 77 := by
        rw [hrows]
        exact List.mem_cons_self
      obtain ⟨hr, hslot⟩ := List.mem_filter.mp hmem
      exact .inl ⟨r, hr, of_decide_eq_true hslot⟩
  · intro h k hk
    rw [newItems_apply, stored_apply]
    cases hlast : ((ownedBy db .charItems m).filter fun r => slotOf r = k).getLast? with
    | some r => rfl
    | none =>
      show (if k < 77 then {} else cl.items k) = ({} : CItem)
      split
      · rfl
      · next hlt =>
        obtain rfl : k = 77 := by omega
        rcases h with ⟨r, hr, hslot⟩ | hzero
        · rw [List.getLast?_eq_none_iff, List.filter_eq_nil_iff] at hlast
          exact absurd (decide_eq_true hslot) (hlast r hr)
        · exact hzero

theorem slotOf_eq {k : Nat} (hk : k < 78) (h : r .slotnum = .int k) : slotOf r = k := by
  rw [slotOf, h, intOf_int (by omega)]
  unfold u32 unsigned
  omega

theorem Slotted.slotOf_iff (h : Slotted db m) (hr : r ∈ ownedBy db .charItems m) {k : Nat}
    (hk : k < 78) : slotOf r = k ↔ r .slotnum = .int k := by
  refine ⟨fun hslot => ?_, slotOf_eq hk⟩
  obtain ⟨j, hj, hrj⟩ := h.slots r hr
  rw [slotOf_eq hj hrj] at hslot
  rw [hrj, hslot]

/-- The row of a slot is the only one there. -/
theorem Slotted.filter_eq (h : Slotted db m) (hr : r ∈ ownedBy db .charItems m) {k : Nat}
    (hk : k < 78) (hslot : r .slotnum = .int k) :
    (ownedBy db .charItems m).filter (fun r => slotOf r = k) = [r] := by
  have hmem : r ∈ (ownedBy db .charItems m).filter fun r => slotOf r = k :=
    List.mem_filter.mpr ⟨hr, by simpa using slotOf_eq hk hslot⟩
  have hsame : ∀ x ∈ (ownedBy db .charItems m).filter (fun r => slotOf r = k),
      x .slotnum = .int k := fun x hx => by
    obtain ⟨hx, hxk⟩ := List.mem_filter.mp hx
    exact (h.slotOf_iff hx hk).mp (by simpa using hxk)
  have honce := h.once.filter fun r => slotOf r = k
  match hl : (ownedBy db .charItems m).filter fun r => slotOf r = k with
  | [] => rw [hl] at hmem; cases hmem
  | [x] =>
    rw [hl, List.mem_singleton] at hmem
    rw [hmem]
  | x :: y :: l =>
    rw [hl] at honce hsame
    have hne := (List.pairwise_cons.mp honce).1 y List.mem_cons_self
    exact absurd ((hsame x List.mem_cons_self).trans (hsame y (List.mem_cons_of_mem _
      List.mem_cons_self)).symm) hne

/-- But for the last one, the items are those of the character. -/
theorem carriesItems_iff (h : Slotted db m) : CarriesItems db m (cl.newItems db m) ↔
    (∃ r ∈ ownedBy db .charItems m, r .slotnum = .int 77) ∨ cl.items 77 = {} := by
  have hrow : ∀ k < 78, ∀ r ∈ ownedBy db .charItems m, r .slotnum = .int (k : Nat) →
      cl.newItems db m k = CItem.ofRow r := fun k hk r hr hslot => by
    rw [newItems_apply, h.filter_eq hr hk hslot]
    rfl
  have hnone : ∀ k : Nat, k < 78 → (∀ r ∈ ownedBy db .charItems m, r .slotnum ≠ .int k) →
      cl.newItems db m k = if k < 77 then {} else cl.items k := fun k hk hall => by
    have hnil : (ownedBy db .charItems m).filter (fun r => slotOf r = k) = [] := by
      refine List.filter_eq_nil_iff.mpr fun r hr => ?_
      rw [decide_eq_true_eq, h.slotOf_iff hr hk]
      exact hall r hr
    rw [newItems_apply, hnil]
    rfl
  constructor
  · intro hcarries
    by_cases hex : ∃ r ∈ ownedBy db .charItems m, r .slotnum = .int 77
    · exact .inl hex
    · have hall : ∀ r ∈ ownedBy db .charItems m, r .slotnum ≠ .int ((77 : Nat) : Int) :=
        fun r hr hslot => hex ⟨r, hr, hslot⟩
      have hlast := (hcarries 77 (by decide)).2 hall
      rw [hnone 77 (by decide) hall] at hlast
      exact .inr hlast
  · intro hcond k hk
    refine ⟨fun r hr => hrow k hk r hr, fun hall => ?_⟩
    rw [hnone k hk hall]
    split
    · rfl
    · next hlt =>
      obtain rfl : k = 77 := by omega
      rcases hcond with ⟨r, hr, hslot⟩ | hzero
      · exact absurd hslot (hall r hr)
      · exact hzero

def Server.itemsOf (s : Server) (c : Ptr) : Nat → CItem :=
  ((s.heap c).map (·.items)).getD fun _ => {}

/-- A load both of whose queries succeed leaves the character's items, and nothing else, exactly
if the last slot has a row or was empty before. -/
theorem loaddata_items_iff (hcl : s.heap c = some cl) (hr : r ∈ s.db.rows .characters)
    (hid : r .id = .int m) (hslotted : Slotted s.db m)
    (hchar : s.answer E 0 Query.charData [txt cl.playerInfo.charName,
      txt cl.playerSession.username.str] = some (printed charCols r :: rest))
    (hitems : (s.answer E 1 Query.charItems [txt (decimal m)]).isSome)
    (h : loaddata E c s = .ok b t) : CarriesItems s.db m (t.itemsOf c) ↔
      (∃ r ∈ ownedBy s.db .charItems m, r .slotnum = .int 77) ∨ cl.items 77 = {} := by
  obtain ⟨-, rfl, -, -⟩ := loaddata_loaded hcl hr hid hchar hitems h
  rw [← carriesItems_iff hslotted]
  have hheap : ((s.asked s.reads (s.sqlCalls + 2)).update c fun _ => cl.loaded s.db r m).itemsOf c =
      cl.newItems s.db m := by
    show ((if c = c then (s.heap c).map _ else s.heap c).map _).getD _ = _
    rw [if_pos rfl, hcl]
    rfl
  rw [hheap]

/-- A player whose client was set up over some memory logs in, and enters the world with a
character that has one item. -/
def entersOver (left : CItem) : List Step :=
  [.addUser { items := fun _ => left },
    .packet 0 (loginFrame (ascii "bob") (ascii "pw")) { now := 100 }, .packet 0 worldFrame {}]

def oneItem : Database :=
  (oneAccount 0).add .charItems [.owner, .slotnum, .itemid] [.int 1, .int 3, .int 412]

def afterEntry (left : CItem) : Server :=
  fin (run (exec Env.plain) (entersOver left) (Server.start oneItem))

/-- He loads the character again, over memory that was zero. -/
theorem loaddata_items_iff_zero : ∃ t, loaddata Env.plain 0 (afterEntry {}) = .ok true t ∧
    CarriesItems (afterEntry {}).db 1 (t.itemsOf 0) := by
  have hstate : Slotted (afterEntry {}).db 1 ∧ ((afterEntry {}).heap 0).isSome ∧
      returned (loaddata Env.plain 0 (afterEntry {})) = some true ∧
      ((afterEntry {}).answer Env.plain 1 Query.charItems [txt (decimal 1)]).isSome ∧
      ∀ cl ∈ (afterEntry {}).heap 0, cl.items 77 = {} ∧
        ∃ r ∈ (afterEntry {}).db.rows .characters, r .id = .int 1 ∧
          (afterEntry {}).answer Env.plain 0 Query.charData [txt cl.playerInfo.charName,
            txt cl.playerSession.username.str] = some [printed charCols r] := by
    decide +kernel
  obtain ⟨hslotted, hsome, hload, hitems, hcl⟩ := hstate
  obtain ⟨cl, hheap⟩ := Option.isSome_iff_exists.mp hsome
  obtain ⟨hzero, r, hr, hid, hchar⟩ := hcl cl hheap
  have hload := ok_of_returned hload
  exact ⟨_, hload,
    (loaddata_items_iff hheap hr hid hslotted hchar hitems hload).mpr (.inr hzero)⟩

/-- The fourth item is the character's, and the last one is what the memory held. -/
theorem entersOver_leaves :
    thrown (run (exec Env.plain) (entersOver { itemid := 7 }) (Server.start oneItem)) = none ∧
    ((afterEntry { itemid := 7 }).session 0).map (·.charid) = some 1 ∧
    ((afterEntry { itemid := 7 }).itemsOf 0 3).itemid = 412 ∧
    Slotted (afterEntry { itemid := 7 }).db 1 ∧
    ¬ CarriesItems (afterEntry { itemid := 7 }).db 1 ((afterEntry { itemid := 7 }).itemsOf 0) := by
  decide +kernel

/-- A character without items has every item in a slot of its own. -/
example : Slotted (oneAccount 0) 1 := by decide +kernel

end Destiny
