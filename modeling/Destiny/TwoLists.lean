import Destiny.Storage

/-!
# The two lists of characters

`SendCharList` and `ResendCharList` write an account's characters with the same code. The first
then stores the client's id four times, at 120 to 127, and the two bytes at 120 are the level of
the character in slot 1.
-/

namespace Destiny

open Text Sql Prog

/-- What the database answers for an account: at most four characters, each of which is found by
its name in one of the four slots. -/
structure Enrolled (E : Env) (db : Database) (x : Bytes) (rs : List (Row Col)) (pos : Row Col → Nat) :
    Prop where
  few : rs.length ≤ 4
  rows : ∀ r ∈ rs, r ∈ db.rows .characters
  answer : ∀ n fetched, (E.sql.query n db (vsprintf (ascii Query.chars) [txt x])).2 = some fetched →
    fetched = rs.map (printed listCols)
  slot : ∀ r ∈ rs, pos r < 4
  place : ∀ r ∈ rs, r .name ≠ .null → ∀ n fetched,
    (E.sql.query n db (vsprintf (ascii Query.posid) [txt (textOf (r .name))])).2 = some fetched →
      ∀ i s, lastPosid fetched i s = .ok (pos r) s

/-- The list in a packet, but for the names. -/
def InList (i : Nat) : Prop := 12 ≤ i ∧ i < 756 ∧ ¬(28 ≤ i ∧ i < 92)

/-- Two packets have the same list. -/
def ListsAgree (P Q : Bytes) : Prop := ∀ i, InList i → P[i]? = Q[i]?

variable {E : Env} {J J' : Junk} {c c' p p' : Ptr} {s s' t t' : Server} {r : Row Col}
  {rs : List (Row Col)} {pos : Row Col → Nat} {db : Database} {D D' : Nat → UInt8} {i n : Nat}
  {x : Bytes} {a a' : CAccount}

/-! ## What the database answers -/

theorem posid_nat (h : IsSlot (r .posid)) :
    (intOf (r .posid)).toNat < 4 ∧ intOf (r .posid) = (intOf (r .posid)).toNat := by
  obtain ⟨m, hm, hrange⟩ := h
  rw [hm, intOf_int (by omega)]
  omega

/-- An account whose list can be shown, each character in its own slot. -/
theorem Listable.enrolled (h : Listable db x) :
    Enrolled E db x (charsOf db x) fun r => (intOf (r .posid)).toNat where
  few := h.few
  rows _ hr := List.mem_of_mem_filter hr
  answer n fetched hq := by
    rcases E.sql.parsed n db _ _ (parse_chars h.user) with he | he <;> rw [he] at hq <;> cases hq
    exact fetch_uidCond listCols
  slot r hr := (posid_nat (h.slots r hr)).1
  place r hr hnull n fetched hq i s := by
    obtain ⟨hclean, hfetch⟩ := (h.found hr hnull).fetch
    obtain ⟨hlt, hint⟩ := posid_nat (h.slots r hr)
    rcases E.sql.parsed n db _ _ (parse_posid hclean) with he | he <;> rw [he] at hq <;> cases hq
    change lastPosid (Sql.fetch db [.posid] .characters (nameCond (textOf (r .name)))) i s = _
    rw [hfetch, hint]
    exact lastPosid_single (by omega)

/-- The characters are written where the database finds them. -/
theorem writeChars_placed {k : Nat} (hrs : ∀ r ∈ rs, r .name ≠ .null ∧ ∀ n fetched,
      (E.sql.query n db (vsprintf (ascii Query.posid) [txt (textOf (r .name))])).2 = some fetched →
        ∀ i s, lastPosid fetched i s = .ok (pos r) s)
    (hdb : s.db = db)
    (h : writeChars E J c k (rs.map (CCharacter.ofRow db)) s = .ok true t) :
    t.packet = stores (rs.flatMap fun r => charFields J (CCharacter.ofRow db r) (pos r)) s.packet := by
  induction rs generalizing k s with
  | nil =>
    cases h
    rfl
  | cons r rs ih =>
    obtain ⟨⟨hname, hr⟩, hrs⟩ := List.forall_mem_cons.mp hrs
    obtain ⟨q, s1, h1, h⟩ := of_bind_ok h
    rcases q with _ | rows
    · cases h
    obtain ⟨charpos, s2, h2, h⟩ := of_bind_ok h
    obtain ⟨_, s3, h3, h⟩ := of_bind_ok h
    obtain ⟨_, s4, h4, hrest⟩ := of_bind_ok h
    have hs1 := doSQL_asked (by simp [Query.selects]) h1
    have hanswer := (doSQL_ok h1).1
    rw [hdb] at hanswer
    rw [hr s.sqlCalls rows hanswer.symm] at h2
    cases h2
    cases h3
    obtain ⟨hs4, -⟩ := writes_stores h4
    have hdb4 : s4.db = db := by
      rw [hs4, hs1]
      exact hdb
    rw [ih hrs hdb4 hrest, hs4, hs1, List.flatMap_cons, stores_append]
    rfl

/-! ## The roster in the buffer -/

/-- The stores of an account's characters. -/
def rosterFields (J : Junk) (db : Database) (rs : List (Row Col)) (pos : Row Col → Nat) : List Write :=
  rs.flatMap fun r => charFields J (CCharacter.ofRow db r) (pos r)

/-- A store depends on the buffer at each byte alone. -/
theorem store_congr (w : Write) (h : D i = D' i) : w.store D i = w.store D' i := by
  unfold Write.store
  rw [h]

theorem stores_congr (ws : List Write) (h : D i = D' i) : stores ws D i = stores ws D' i := by
  induction ws generalizing D D' with
  | nil => exact h
  | cons w ws ih =>
    rw [stores_cons, stores_cons]
    exact ih (store_congr w h)

/-- Outside the names the stack is not seen. -/
theorem charFields_congr {ch : CCharacter} (hname : ch.charName.length ≤ 16) (hn : n < 4)
    (hi : ¬(28 ≤ i ∧ i < 92)) (h : D i = D' i) :
    stores (charFields J ch n) D i = stores (charFields J' ch n) D' i := by
  obtain ⟨ws, vs, hsplit⟩ : ∃ ws vs, ∀ J, charFields J ch n =
      ws ++ addStr J ch.charName (16 * n + 28) :: vs := ⟨_ :: _ :: _ :: _ :: [_], _, fun _ => rfl⟩
  have hclear : ∀ J D, (addStr J ch.charName (16 * n + 28)).store D i = D i := fun J D => by
    apply Write.store_clear
    · unfold Write.clear addStr
      dsimp only
      rw [List.length_map, List.length_range]
      omega
    · unfold addStr
      dsimp only
      omega
  rw [hsplit J, hsplit J', stores_append, stores_append, stores_cons, stores_cons]
  apply stores_congr
  rw [hclear, hclear]
  exact stores_congr ws h

theorem rosterFields_congr (hrs : ∀ r ∈ rs, (textOf (r .name)).length ≤ 16 ∧ pos r < 4)
    (hi : ¬(28 ≤ i ∧ i < 92)) (h : D i = D' i) :
    stores (rosterFields J db rs pos) D i = stores (rosterFields J' db rs pos) D' i := by
  unfold rosterFields
  induction rs generalizing D D' with
  | nil => exact h
  | cons r rs ih =>
    obtain ⟨⟨hname, hpos⟩, hrs⟩ := List.forall_mem_cons.mp hrs
    rw [List.flatMap_cons, List.flatMap_cons, stores_append, stores_append]
    exact ih hrs (charFields_congr hname hpos hi h)

/-- The character that is last written to a slot. -/
def lastInSlot (rs : List (Row Col)) (pos : Row Col → Nat) (n : Nat) : Option (Row Col) :=
  (rs.filter fun r => pos r = n).getLast?

theorem level_viewAt (D : Nat → UInt8) : (viewAt D 1).level = intAt D 120 2 := rfl

theorem level_ofRow (db : Database) (r : Row Col) :
    (CCharacter.ofRow db r).view.level = u16 (intOf (r .clevel)) := u16_u32 _

/-- The level in slot 1. -/
theorem rosterFields_level (hrs : ∀ r ∈ rs, (textOf (r .name)).length ≤ 16 ∧ pos r < 4) :
    intAt (stores (rosterFields J db rs pos) D) 120 2 =
      ((lastInSlot rs pos 1).map fun r => u16 (intOf (r .clevel))).getD (intAt D 120 2) := by
  unfold rosterFields lastInSlot
  induction rs using List.reverseRecOn with
  | nil => rfl
  | append_singleton rs r ih =>
    obtain ⟨hname, hpos⟩ := hrs r (List.mem_append_right _ List.mem_cons_self)
    have hrs' : ∀ r ∈ rs, (textOf (r .name)).length ≤ 16 ∧ pos r < 4 := fun r hr =>
      hrs r (List.mem_append_left _ hr)
    rw [List.flatMap_append, stores_append, List.flatMap_singleton, List.filter_append]
    have hlen : (CCharacter.ofRow db r).charName.length ≤ 16 := hname
    by_cases hone : pos r = 1
    · have hview := viewAt_charFields (J := J) (D := stores (rosterFields J db rs pos) D) hlen
        (show 1 < 4 by omega)
      rw [List.filter_cons_of_pos (by simpa using hone), List.filter_nil, List.getLast?_concat,
        hone, Option.map_some, Option.getD_some, ← level_ofRow db, ← hview, level_viewAt]
      rfl
    · have hview := viewAt_charFields_ne (J := J) (D := stores (rosterFields J db rs pos) D)
        (p := pos r) (n := 1) hlen (by omega) (by omega) (by omega)
      rw [List.filter_cons_of_neg (by simpa using hone), List.filter_nil, List.append_nil,
        ← ih hrs', ← level_viewAt, ← level_viewAt]
      exact congrArg CharView.level hview

/-- Behind the level nothing is stored. -/
theorem rosterFields_gap (hrs : ∀ r ∈ rs, (textOf (r .name)).length ≤ 16 ∧ pos r < 4)
    (hi : 122 ≤ i ∧ i < 128) : stores (rosterFields J db rs pos) D i = D i := by
  refine stores_clear fun w hw => ?_
  obtain ⟨r, hr, hw⟩ := List.mem_flatMap.mp hw
  obtain ⟨hname, hpos⟩ := hrs r hr
  refine ⟨?_, (charFields_bounds hname (by omega) hw).1⟩
  by_contra hclear
  have hcovers : w.covers i := by
    unfold Write.clear at hclear
    unfold Write.covers
    omega
  have hfields := fields_of_covers hname hw hcovers
  unfold Fields at hfields
  omega

/-! ## The packets -/

/-- What is read of an enrolled account. -/
theorem Enrolled.fetched {cl : CConnClient} {rows : List Fetched} {chars : List CCharacter}
    {u v w : Server} (h : Enrolled E u.db cl.playerSession.username.str rs pos)
    (hcl : u.heap c = some cl) (hselect : selectChars E c u = .ok (some rows) v)
    (hfetch : fetchChars E J rows [] v = .ok (some chars) w) :
    chars = rs.map (CCharacter.ofRow u.db) ∧ w.db = u.db ∧ w.packet = u.packet ∧
      ∀ r ∈ rs, r .name ≠ .null := by
  obtain ⟨cl', x, hx, hsql⟩ := of_bind_ok hselect
  obtain ⟨hcl', rfl⟩ := client_ok hx
  obtain rfl := Option.some.inj (hcl'.symm.trans hcl)
  have hv := doSQL_asked (by simp [Query.selects]) hsql
  have hdb : v.db = x.db := by
    rw [hv]
    rfl
  have hrows := h.answer x.sqlCalls rows (doSQL_ok hsql).1.symm
  rw [hrows] at hfetch
  obtain ⟨hchars, hw, hread⟩ := fetchChars_printed_ok
    (fun r hr => by rw [hdb]; exact h.rows r hr) (by simpa using h.few) hfetch
  rw [hdb, List.nil_append] at hchars
  refine ⟨hchars, ?_, ?_, fun r hr => (hread r hr).1⟩
  · rw [hw]
    exact hdb
  · rw [hw, hv]
    rfl

theorem Enrolled.resent {packet : Bytes} {k : Nat} {b : Bool} (ha : s.session c = some a)
    (he : Enrolled E s.db a.username.str rs pos)
    (h : resendCharList E J c s = .ok b t) (hsent : .send p packet k ∈ s.since t) :
    packet = (List.range 756).map (stores (rosterFields J s.db rs pos) listHeader) := by
  obtain ⟨cl, hcl, rfl⟩ := Option.map_eq_some_iff.mp ha
  obtain ⟨rows, chars, s3, s4, s5, s6, hs3, h4, h5, h6, hpacket, -⟩ := resendCharList_parts h hsent
  have hdb3 : s3.db = s.db := by rw [hs3]
  have hcl3 : s3.heap c = some cl := by rw [hs3]; exact hcl
  rw [← hdb3] at he
  obtain ⟨hchars, hdb5, hpacket5, hnull⟩ := he.fetched hcl3 h4 h5
  rw [hchars] at h6
  have hwritten := writeChars_placed (fun r hr => ⟨hnull r hr, he.place r hr (hnull r hr)⟩) hdb5 h6
  have hheader : s5.packet = listHeader := by rw [hpacket5, hs3]
  rw [hpacket, hwritten, hheader, hdb3]
  rfl

theorem Enrolled.sent {packet : Bytes} {k : Nat} {b : Bool} (ha : s.session c = some a)
    (he : Enrolled E s.db a.username.str rs pos)
    (h : sendCharList E J c s = .ok b t) (hsent : .send p packet k ∈ s.since t) :
    ∃ items, packet = (List.range 1823).map (stores (storageFields items ++ lastFields J a)
      (stores (rosterFields J s.db rs pos) (sendHeader a))) := by
  obtain ⟨cl, hcl, rfl⟩ := Option.map_eq_some_iff.mp ha
  obtain ⟨rows, chars, storageRows, items, s3, s4, s5, s6, s7, s8, hs3, h4, h5, h6, h7, h8, hpacket, -⟩ :=
    sendCharList_sent hcl h hsent
  have hdb3 : s3.db = s.db := by rw [hs3]
  have hcl3 : s3.heap c = some cl := by rw [hs3]; exact hcl
  rw [← hdb3] at he
  obtain ⟨hchars, hdb5, hpacket5, hnull⟩ := he.fetched hcl3 h4 h5
  have hs6 := doSQL_asked (by simp [Query.selects]) h6
  have hdb7 : s7.db = s3.db := by
    have hfetch : s7.db = s6.db := Keeps.rel_ok (F := sameDb)
      (keeps_fetchItems (ofDb_sameDb.ordinary c).toBasic (fun _ => trivial) _ _ _) h7
    rw [hfetch, hs6, ← hdb5]
    rfl
  have hpacket7 : s7.packet = sendHeader cl.playerSession := by
    have hfetch : s7.packet = s6.packet := (Keeps.rel_ok (calm_unsent.fetchItems _ _ _ _) h7).2
    rw [hfetch, hs6]
    show s5.packet = _
    rw [hpacket5, hs3]
  rw [hchars] at h8
  have hwritten := writeChars_placed (fun r hr => ⟨hnull r hr, he.place r hr (hnull r hr)⟩) hdb7 h8
  refine ⟨items, ?_⟩
  rw [hpacket, hwritten, hpacket7, hdb3]
  rfl

/-! ## The id over the list -/

variable {items : Nat → CItem}

/-- In the list only the id is stored behind the characters. -/
theorem lastFields_congr (hi : i < 756) (hid : ¬(120 ≤ i ∧ i < 128)) :
    stores (storageFields items ++ lastFields J a) D i = D i := by
  refine stores_clear fun w hw => ?_
  rcases List.mem_append.mp hw with hw | hw
  · rw [storageFields_eq] at hw
    have hw := mem_itemBlock hw
    unfold Write.clear
    omega
  · simp only [lastFields, List.mem_cons, List.not_mem_nil, or_false] at hw
    rcases hw with rfl | rfl | rfl | rfl | rfl | rfl | rfl <;>
      simp only [Write.clear, addDWord, addWord, addStr, addData, leBytes_length, List.length_map,
        List.length_range] <;> omega

/-- Each of the four words is the id. -/
theorem lastFields_id {j : Nat} (hj : j < 4) :
    intAt (stores (storageFields items ++ lastFields J a) D) (120 + 2 * j) 2 = u16 a.clientid := by
  rw [stores_append, lastFields]
  obtain rfl | rfl | rfl | rfl : j = 0 ∨ j = 1 ∨ j = 2 ∨ j = 3 := by omega
  all_goals
    simp (disch := omega) only [stores_cons, stores_nil, intAt_addWord_ne, intAt_addWord]

theorem sendHeader_zero (hi : 12 ≤ i) : sendHeader a i = 0 := stores_clear fun w hw => by
  simp only [List.mem_cons, List.not_mem_nil, or_false] at hw
  rcases hw with rfl | rfl | rfl <;> simp only [Write.clear, addWord, leBytes_length] <;> omega

theorem listHeader_zero (hi : 12 ≤ i) : listHeader i = 0 := stores_clear fun w hw => by
  simp only [List.mem_cons, List.not_mem_nil, or_false] at hw
  rcases hw with rfl | rfl <;> simp only [Write.clear, addWord, leBytes_length] <;> omega

/-- A word is 0 when its bytes are. -/
theorem intAt_two_eq_zero : intAt D i 2 = 0 ↔ D i = 0 ∧ D (i + 1) = 0 := by
  have hint : intAt D i 2 = (D i).toNat + 256 * ((D (i + 1)).toNat + 256 * 0) := rfl
  rw [hint, ← UInt8.toNat_inj, ← UInt8.toNat_inj]
  show _ ↔ (D i).toNat = 0 ∧ (D (i + 1)).toNat = 0
  omega

theorem intAt_listHeader : intAt listHeader 120 2 = 0 :=
  intAt_two_eq_zero.mpr ⟨listHeader_zero (by omega), listHeader_zero (by omega)⟩

/-- What the second list has where the first has the id. -/
theorem resent_words (J : Junk) (db : Database)
    (hrs : ∀ r ∈ rs, (textOf (r .name)).length ≤ 16 ∧ pos r < 4) :
    intAt (stores (rosterFields J db rs pos) listHeader) 120 2 =
        ((lastInSlot rs pos 1).map fun r => u16 (intOf (r .clevel))).getD 0 ∧
      ∀ i, 122 ≤ i ∧ i < 128 → stores (rosterFields J db rs pos) listHeader i = 0 := by
  constructor
  · rw [rosterFields_level hrs, intAt_listHeader]
  · intro i hi
    rw [rosterFields_gap hrs hi, listHeader_zero (by omega)]

/-- The two buffers agree on the list when the id and the level in slot 1 are 0. -/
theorem buffers_agree_iff (J J' : Junk) (db : Database) (items : Nat → CItem)
    (hrs : ∀ r ∈ rs, (textOf (r .name)).length ≤ 16 ∧ pos r < 4) :
    (∀ i, InList i → stores (storageFields items ++ lastFields J a)
        (stores (rosterFields J db rs pos) (sendHeader a)) i =
          stores (rosterFields J' db rs pos) listHeader i) ↔
      u16 a.clientid = 0 ∧ ∀ r ∈ lastInSlot rs pos 1, u16 (intOf (r .clevel)) = 0 := by
  obtain ⟨hlevel, hgap⟩ := resent_words J' db hrs
  have hid : ∀ j < 4, intAt (stores (storageFields items ++ lastFields J a)
      (stores (rosterFields J db rs pos) (sendHeader a))) (120 + 2 * j) 2 = u16 a.clientid :=
    fun j hj => lastFields_id hj
  constructor
  · intro h
    have hword : ∀ j < 4, intAt (stores (rosterFields J' db rs pos) listHeader) (120 + 2 * j) 2 =
        u16 a.clientid := fun j hj => by
      rw [← hid j hj]
      refine intAt_congr fun m hm => (h _ ?_).symm
      unfold InList
      omega
    have hzero : u16 a.clientid = 0 := by
      rw [← hword 1 (by omega)]
      exact intAt_two_eq_zero.mpr ⟨hgap _ (by omega), hgap _ (by omega)⟩
    refine ⟨hzero, fun r hr => ?_⟩
    have hfirst : intAt (stores (rosterFields J' db rs pos) listHeader) 120 2 = u16 a.clientid :=
      hword 0 (by omega)
    rw [hzero, hlevel, show lastInSlot rs pos 1 = some r from hr, Option.map_some,
      Option.getD_some] at hfirst
    exact hfirst
  · rintro ⟨hzero, hone⟩ i hi
    have hlevel0 : intAt (stores (rosterFields J' db rs pos) listHeader) 120 2 = 0 := by
      rw [hlevel]
      cases hr : lastInSlot rs pos 1 with
      | none => rfl
      | some r => exact hone r hr
    obtain ⟨h120, h121⟩ := intAt_two_eq_zero.mp hlevel0
    unfold InList at hi
    by_cases hmid : 120 ≤ i ∧ i < 128
    · have hbyte : ∀ j < 4, stores (storageFields items ++ lastFields J a)
            (stores (rosterFields J db rs pos) (sendHeader a)) (120 + 2 * j) = 0 ∧
          stores (storageFields items ++ lastFields J a)
            (stores (rosterFields J db rs pos) (sendHeader a)) (120 + 2 * j + 1) = 0 :=
        fun j hj => intAt_two_eq_zero.mp ((hid j hj).trans hzero)
      have hright : stores (rosterFields J' db rs pos) listHeader i = 0 := by
        obtain rfl | rfl | h : i = 120 ∨ i = 121 ∨ 122 ≤ i ∧ i < 128 := by omega
        · exact h120
        · exact h121
        · exact hgap i h
      rw [hright]
      obtain h | h : i = 120 + 2 * ((i - 120) / 2) ∨ i = 120 + 2 * ((i - 120) / 2) + 1 := by omega
      · rw [h]
        exact (hbyte _ (by omega)).1
      · rw [h]
        exact (hbyte _ (by omega)).2
    · rw [lastFields_congr (by omega) hmid]
      refine rosterFields_congr hrs (by omega) ?_
      rw [sendHeader_zero (by omega), listHeader_zero (by omega)]

/-- **The two packets have the same list** of an account exactly when the client's id is 0 in its
sixteen bits and so is the level of the character in slot 1, if there is one. -/
theorem listsAgree_iff {P Q : Bytes} {k k' : Nat} {b b' : Bool}
    (ha : s.session c = some a) (ha' : s'.session c' = some a') (hdb : s'.db = s.db)
    (hname : a'.username = a.username) (he : Enrolled E s.db a.username.str rs pos)
    (h : sendCharList E J c s = .ok b t) (hsent : .send p P k ∈ s.since t)
    (h' : resendCharList E J' c' s' = .ok b' t') (hsent' : .send p' Q k' ∈ s'.since t') :
    ListsAgree P Q ↔
      u16 a.clientid = 0 ∧ ∀ r ∈ lastInSlot rs pos 1, u16 (intOf (r .clevel)) = 0 := by
  have hrs : ∀ r ∈ rs, (textOf (r .name)).length ≤ 16 ∧ pos r < 4 := fun r hr =>
    ⟨textOf_length (he.rows r hr), he.slot r hr⟩
  obtain ⟨items, hP⟩ := he.sent ha h hsent
  have he' : Enrolled E s'.db a'.username.str rs pos := by
    rw [hdb, hname]
    exact he
  have hQ := he'.resent ha' h' hsent'
  rw [hP, hQ, hdb, ← buffers_agree_iff J J' s.db items hrs]
  refine forall_congr' fun i => imp_congr_right fun hi => ?_
  unfold InList at hi
  rw [List.getElem?_map, List.getElem?_map, List.getElem?_range (by omega),
    List.getElem?_range (by omega)]
  exact Option.some_inj

theorem listsAgree_iff_listing : ∃ t t' P Q k k',
    sendCharList Env.plain {} 0 (listing (oneAccount 0)) = .ok true t ∧
    .send 0 P k ∈ (listing (oneAccount 0)).since t ∧
    resendCharList Env.plain {} 0 (listing (oneAccount 0)) = .ok true t' ∧
    .send 0 Q k' ∈ (listing (oneAccount 0)).since t' ∧ ¬ListsAgree P Q := by
  have hstate : ((listing (oneAccount 0)).session 0).map (fun a => (a.username.str, u16 a.clientid)) =
        some (ascii "bob", 1) ∧
      (∃ r ∈ (listing (oneAccount 0)).db.rows .characters,
        charsOf (listing (oneAccount 0)).db (ascii "bob") = [r] ∧ r .posid = .int 0 ∧
        r .name = .text (ascii "hero") ∧
        ((listing (oneAccount 0)).db.rows .characters).filter (fun r' => r' .name = r .name) = [r]) ∧
      sends (sendCharList Env.plain {} 0) (listing (oneAccount 0)) = true ∧
      sends (resendCharList Env.plain {} 0) (listing (oneAccount 0)) = true := by
    decide +kernel
  obtain ⟨huser, ⟨r, -, hchars, hposid, hname, honly⟩, hsend, hresend⟩ := hstate
  obtain ⟨a, ha, hfields⟩ := Option.map_eq_some_iff.mp huser
  obtain ⟨huser, hid⟩ := Prod.mk.inj hfields
  have hmem : ∀ r' ∈ charsOf (listing (oneAccount 0)).db a.username.str, r' = r := fun r' hr' => by
    rw [huser, hchars] at hr'
    exact List.mem_singleton.mp hr'
  have hl : Listable (listing (oneAccount 0)).db a.username.str := by
    refine ⟨by rw [huser]; decide, by rw [huser, hchars, List.length_singleton]; decide, fun r' hr' => ?_,
      by rw [huser, hchars]; exact List.pairwise_singleton _ _, fun r' hr' => ?_, fun r' hr' => ?_⟩ <;>
      rw [hmem r' hr']
    · exact ⟨0, hposid, by decide⟩
    · intro b hb
      obtain rfl := Cell.text.inj (hb.symm.trans hname)
      decide
    · exact honly
  obtain ⟨t, P, k, hrun, hsent⟩ := exists_sent hsend
  obtain ⟨t', Q, k', hrun', hsent'⟩ := exists_sent hresend
  refine ⟨t, t', P, Q, k, k', hrun, hsent, hrun', hsent', fun hagree => ?_⟩
  have hzero := ((listsAgree_iff ha ha rfl rfl hl.enrolled hrun hsent hrun' hsent').mp hagree).1
  rw [hid] at hzero
  cases hzero

/-- The first list of a player with id 1 has the id at 122, the second has 0 there. -/
theorem sentList_disagrees : ∃ P Q, sentList {} (oneAccount 0) = some P ∧
    listed (oneAccount 0) = some Q ∧ ¬ListsAgree P Q := by
  have hbytes : (sentList {} (oneAccount 0)).map (fun b => b[122]?) = some (some 1) ∧
      (listed (oneAccount 0)).map (fun b => b[122]?) = some (some 0) := by
    decide +kernel
  obtain ⟨hsent, hlisted⟩ := hbytes
  obtain ⟨P, hP, hP'⟩ := Option.map_eq_some_iff.mp hsent
  obtain ⟨Q, hQ, hQ'⟩ := Option.map_eq_some_iff.mp hlisted
  refine ⟨P, Q, hP, hQ, fun h => ?_⟩
  have hbyte := h 122 (by unfold InList; omega)
  rw [hP', hQ'] at hbyte
  cases hbyte

end Destiny
