import Destiny.Prog.Filled
import Destiny.Saved
import Destiny.StartChar

/-!
# From the creation of a character to its first entry

`StartChar.xml` says what a character of a class begins with. `LoadCreateChar` prints it into
`INSERT` statements, the database keeps it, and `loaddata` reads it back. So where the database
answers, a character that was created under a new name in an empty slot enters the world with
the numbers and items of its class (`run_created`).
-/

namespace Destiny

open Text Sql Prog

/-- The numbers that a character of a class begins with. -/
structure StartStats where
  mobid : Int
  level : Int
  str : Int
  int : Int
  dex : Int
  con : Int
  skpts : Int
  stpts : Int
  skmpts : Int

def Xml.startStats (p : Xml) : Option StartStats :=
  match readXMLIntegers p charTags with
  | some [mobid, level, cstr, cint, cdex, ccon, skpts, stpts, skmpts] =>
    some ⟨mobid, level, cstr, cint, cdex, ccon, skpts, stpts, skmpts⟩
  | _ => none

/-- The numbers of the complete `inventory` elements inside an element. -/
def Xml.startItems (p : Xml) : List (List Int) :=
  (p.children.filterMap itemOrder).filterMap Order.item

/-- A class has one element, with all its attributes. -/
structure ClassElement (root : Xml) (cls : Nat) (p : Xml) (st : StartStats) : Prop where
  doc : root.name = ascii "startitems"
  small : cls ≤ 3
  only : (root.children.filter fun p => p.name = className {} cls) = [p]
  stats : p.startStats = some st

/-- The item of an element and its slot, from its numbers in the order of the columns. -/
def itemOf : List Int → CItem
  | [_, itemid, add1, val1, add2, val2, add3, val3] =>
    ⟨u32 itemid, u32 add1, u32 add2, u32 add3, u32 val1, u32 val2, u32 val3⟩
  | _ => {}

def slotIn (vs : List Int) : Nat := u32 (vs.headD 0)

/-- What the last item for a slot is, or none. -/
def startItem (wanted : List (List Int)) (k : Nat) : CItem :=
  ((lastAt slotIn wanted k).map itemOf).getD {}

def StartStats.info (st : StartStats) (name : Bytes) (cls : Nat) : CInfo where
  charName := name
  mobid := u32 st.mobid
  classid := cls
  exp := 0
  level := u32 st.level
  gold := 0
  statPoints := u32 st.stpts
  skillPoints := u32 st.skpts

def StartStats.stats (st : StartStats) : CStats where
  maxHP := 50
  maxMP := 10
  hp := 50
  mp := 10
  str := u16 st.str
  dex := u16 st.dex
  int := u16 st.int
  con := u16 st.con

/-- A client in the world plays a character that has just been made. -/
structure StartsAs (name : Bytes) (cls : Nat) (st : StartStats) (wanted : List (List Int))
    (cl : CConnClient) : Prop where
  info : cl.playerInfo = st.info name cls
  stats : { cl.playerStats with attackPower := 0, defense := 0 } = st.stats
  current : cl.playerPosition.current = ⟨2093, 2097⟩
  items : ∀ k < 77, cl.items k = startItem wanted k

variable {E : Env} {J J' : Junk} {c d : Ptr} {s t v w : Server} {P P' : Packet} {u name : Bytes}
  {cls pos : Nat} {charid : Int} {os : List Order} {root p : Xml} {st : StartStats} {db : Database}
  {b : Bool} {r : Row Col} {vs : List Int}

/-! ## The statements -/

theorem Engine.answers_failing {E : MySQL} (hE : E.Answers) : E.FailsAt fun _ => false := by
  intro n db b st h
  rw [hE n db b st h]
  rfl

theorem ClassElement.orders (h : ClassElement root cls p st) : classOrders cls root.children =
    .newChar st.mobid st.level st.str st.int st.dex st.con st.skpts st.stpts st.skmpts ::
      p.children.filterMap itemOrder := by
  have hstats := h.stats
  unfold Xml.startStats at hstats
  split at hstats
  · next hattrs =>
    cases hstats
    rw [classOrders, h.only, List.flatMap_singleton, Xml.orders, charOrder, hattrs]
    rfl
  · cases hstats

/-- The numbers of an element fit their columns. -/
theorem ClassElement.range (h : ClassElement root cls p st) :
    ∀ n ∈ [st.mobid, st.level, st.str, st.int, st.dex, st.con, st.skpts, st.stpts, st.skmpts],
      -2 ^ 31 ≤ n ∧ n < 2 ^ 31 := by
  have hstats := h.stats
  unfold Xml.startStats at hstats
  split at hstats
  · next hattrs =>
    cases hstats
    exact readXMLIntegers_range hattrs
  · cases hstats

theorem item_of_itemOrder {subp : Xml} {o : Order} (h : itemOrder subp = some o) : o.item.isSome := by
  unfold itemOrder at h
  split at h
  · split at h
    · cases h
      rfl
    · cases h
  · cases h

/-- The items are inserted one after another. -/
theorem carryOut_items (u name : Bytes) (cls pos : Nat) (hE : E.sql.FailsAt fun _ => false)
    (hid : -2 ^ 31 ≤ charid ∧ charid < 2 ^ 31) (hints : ∀ o ∈ os, o.Ints) (hitems : ∀ o ∈ os, o.item.isSome) (s : Server) : ∃ t new,
      carryOut E u name cls pos charid os s = .ok true t ∧
      t.db.rows .characters = s.db.rows .characters ∧
      t.db.rows .charItems = s.db.rows .charItems ++ new ∧
      List.Forall₂ (IsItem (.int charid)) (os.filterMap Order.item) new := by
  induction os generalizing s with
  | nil => exact ⟨s, [], rfl, rfl, (List.append_nil _).symm, .nil⟩
  | cons o os ih =>
    obtain ⟨ho, hrest⟩ := List.forall_mem_cons.mp hints
    obtain ⟨hitem, hrest'⟩ := List.forall_mem_cons.mp hitems
    cases o with
    | newChar => cases hitem
    | newItem slotid itemid add1 add2 add3 val1 val2 val3 =>
      let cells := itemCells charid [slotid, itemid, add1, val1, add2, val2, add3, val3]
      let s' : Server := { s with
        db := s.db.add .charItems itemCols.tail cells
        sqlCalls := s.sqlCalls + 1 }
      obtain ⟨t, new, ht, hchars, hrows, hall⟩ := ih hrest hrest' s'
      have hrow := itemRow_isItem hid ho (s.db.next .charItems)
      refine ⟨t, newRow schema .charItems (s.db.next .charItems) itemCols.tail cells :: new, ?_, ?_, ?_,
        .cons hrow hall⟩
      · rw [carryOut_newItem hE hid ho, if_neg (by decide)]
        exact ht
      · exact hchars.trans (s.db.add_rows_of_ne (by decide) _ _)
      · have hadd : s'.db.rows .charItems = _ := s.db.add_rows .charItems itemCols.tail cells
        rw [hrows, hadd, List.append_assoc]
        rfl

/-- A statement with a short name and numbers of 32 bits fits. -/
theorem newChar_fits (hu : u.length ≤ 16) (hn : name.length ≤ 16) (hcls : cls < 256) (hpos : pos < 2 ^ 31)
    (hst : ∀ n ∈ [st.mobid, st.level, st.str, st.int, st.dex, st.con, st.skpts, st.stpts, st.skmpts],
      -2 ^ 31 ≤ n ∧ n < 2 ^ 31) :
    (Order.newChar st.mobid st.level st.str st.int st.dex st.con st.skpts st.stpts st.skmpts).Fits
      u name cls pos := by
  simp only [List.forall_mem_cons] at hst
  obtain ⟨h1, h2, h3, h4, h5, h6, h7, h8, h9, -⟩ := hst
  constructor
  · refine fits (by decide +kernel) ?_
    simp only [charArgs, List.forall_mem_cons]
    exact ⟨short_txt hn, short_txt hu, short_int h1, short_int h3, short_int h4, short_int h5,
      short_int h6, short_int (by omega), short_int (by omega), short_int h7, short_int h8,
      short_int h9, short_int h2, List.forall_mem_nil _⟩
  · exact fits (by decide +kernel) (by simpa using short_txt hn)

/-! ## The character -/

/-- The row of the character that is created next. -/
def StartStats.row (st : StartStats) (db : Database) (u name : Bytes) (cls pos : Nat) : Row Col :=
  newRow schema .characters (db.next .characters) newCharCols
    (newCharVals name u st.mobid st.str st.int st.dex st.con pos cls st.skpts st.stpts st.skmpts
      st.level)

/-- The tables after a creation: the character, and the items of its class. -/
structure Creation (st : StartStats) (wanted : List (List Int)) (u name : Bytes) (cls pos : Nat)
    (db db' : Database) : Prop where
  char : db'.rows .characters = db.rows .characters ++ [st.row db u name cls pos]
  items : ∃ new, db'.rows .charItems = db.rows .charItems ++ new ∧
    List.Forall₂ (IsItem (.int (db.next .characters))) wanted new

/-- `LoadCreateChar`, under a new name. -/
theorem loadCreateChar_creation {cl : CConnClient} (hE : E.sql.Answers) (hcl : s.heap c = some cl)
    (hroot : E.startChar = some root) (hp : ClassElement root cls p st) (hn : clean name)
    (hlen : name.length ≤ 16) (hu : clean cl.playerSession.username.str) (hpos : pos < 2 ^ 31)
    (hkeys : KeysFit s.db) (hfree : ¬ Taken s.db name)
    (ht : loadCreateChar E J c cls name pos s = .ok b t) :
    Creation st p.startItems cl.playerSession.username.str name cls pos s.db t.db := by
  have hfail := Engine.answers_failing hE
  have hwalk : loadCreateChar E J c cls name pos s =
      carryOut E cl.playerSession.username.str name cls pos J.charid (classOrders cls root.children) s := by
    refine (bind_ok (client_of_some hcl)).trans ?_
    rw [hroot]
    dsimp only
    rw [if_neg (not_not.mpr hp.doc), createChars_eq hp.small]
  have hcls : cls < 256 := lt_of_le_of_lt hp.small (by decide)
  have hfit := newChar_fits (username_length cl.playerSession.username) hlen hcls hpos hp.range
  rw [hwalk, hp.orders, carryOut_newChar hfail hn hu hfit, if_neg (by decide)] at ht
  obtain ⟨n, hrange, hnumber, hbegun⟩ := begun_of_added hkeys hlen cl.playerSession.username.str cls
    pos st.mobid st.level st.str st.int st.dex st.con st.skpts st.stpts st.skmpts
  have hown : n = s.db.next .characters := by
    by_contra hne
    exact hfree (hnumber.mp hne)
  obtain ⟨rows, hfound⟩ := hbegun.found
  let s' : Server := { s with
    db := charAdded s.db cl.playerSession.username.str name cls pos st.mobid st.level st.str st.int
      st.dex st.con st.skpts st.stpts st.skmpts
    sqlCalls := s.sqlCalls + 2 }
  have hrest : numbered E cl.playerSession.username.str name cls pos (fun _ => false) (s.sqlCalls + 1)
      (p.children.filterMap itemOrder) s' =
        carryOut E cl.playerSession.username.str name cls pos n (p.children.filterMap itemOrder) s' := by
    unfold numbered
    rw [if_neg Bool.false_ne_true]
    dsimp only [s']
    rw [hfound]
    exact bind_ok (colInt_of_range hrange)
  have hints : ∀ o ∈ p.children.filterMap itemOrder, o.Ints := fun o ho =>
    classOrders_ints cls root.children o (by rw [hp.orders]; exact List.mem_cons_of_mem _ ho)
  have hitems : ∀ o ∈ p.children.filterMap itemOrder, o.item.isSome := fun o ho => by
    obtain ⟨subp, -, hsubp⟩ := List.mem_filterMap.mp ho
    exact item_of_itemOrder hsubp
  obtain ⟨t', new, ht', hchars, hrows, hall⟩ := carryOut_items cl.playerSession.username.str
    name cls pos hfail hrange hints hitems s'
  rw [show numbered E _ name cls pos _ _ _ _ = _ from hrest, ht'] at ht
  cases ht
  rw [hown] at hall
  refine ⟨hchars.trans hbegun.chars, new, ?_, hall⟩
  rw [hrows]
  exact congrArg (· ++ new) (hbegun.items.trans (List.append_nil _))

/-- `CharCreate`, under a new name. -/
theorem charCreate_creation {cl : CConnClient} (hE : E.sql.Answers) (hcl : s.heap c = some cl)
    (hroot : E.startChar = some root) (hp : ClassElement root (P.byteAt 32) p st)
    (hn : clean (P.charName J)) (hlen : (P.charName J).length ≤ 16)
    (hu : clean cl.playerSession.username.str) (hkeys : KeysFit s.db)
    (hfree : ¬ Taken s.db (P.charName J)) (ht : charCreate E J c P s = .ok b t) :
    Creation st p.startItems cl.playerSession.username.str (P.charName J) (P.byteAt 32) (P.byteAt 12)
      s.db t.db := by
  obtain ⟨field, s1, h1, ht⟩ := of_bind_ok ht
  obtain ⟨rfl, rfl⟩ := rd_ok h1
  obtain ⟨q, s2, h2, ht⟩ := of_bind_ok ht
  have hq : q = some [] := by
    refine (doSQL_ok h2).1.trans ((congrArg Prod.snd (hE _ _ _ _ (parse_charName hn))).trans ?_)
    show some (fetch s.db [.name] .characters (nameCond (P.charName J))) = some []
    rw [fetch, List.filter_eq_nil_iff.mpr fun r hr h => hfree ⟨r, hr, (holds_nameCond hr).mp h⟩]
    rfl
  obtain rfl := doSQL_asked (by simp [Query.selects]) h2
  rw [hq] at ht
  dsimp only at ht
  rw [if_pos List.length_nil] at ht
  obtain ⟨charclass, s3, h3, ht⟩ := of_bind_ok ht
  obtain ⟨rfl, rfl⟩ := rdInt_ok h3
  obtain ⟨destpos, s4, h4, ht⟩ := of_bind_ok ht
  obtain ⟨rfl, rfl⟩ := rdInt_ok h4
  obtain ⟨made, s5, h5, ht⟩ := of_bind_ok ht
  have hO := ofDb_sameDb.ordinary c
  have hlisted : t.db = s5.db :=
    (keeps_resendCharList hO.toBasic hO.derefs (ofDb_sameDb.lists c)).rel_ok ht
  rw [hlisted]
  have hmade := fun hcl hkeys hfree => loadCreateChar_creation hE hcl hroot hp hn hlen hu
    (byteAt_lt P 12) hkeys hfree h5
  exact hmade hcl hkeys hfree

/-! ## The first entry -/

section Row
variable (hst : ∀ n ∈ [st.mobid, st.level, st.str, st.int, st.dex, st.con, st.skpts, st.stpts, st.skmpts],
  -2 ^ 31 ≤ n ∧ n < 2 ^ 31)
include hst

/-- What `loaddata` takes from the row is what was printed into it. -/
theorem startsAs_loaded (hcls : cls < 256) {db' : Database} (cl : CConnClient) {m : Int}
    {wanted : List (List Int)}
    (hitems : (ownedBy db' .charItems m).map (fun r => (slotOf r, CItem.ofRow r)) =
      wanted.map fun vs => (slotIn vs, itemOf vs)) :
    StartsAs name cls st wanted ((cl.called name).loaded db' (st.row db u name cls pos) m) := by
  simp only [List.forall_mem_cons] at hst
  obtain ⟨h1, h2, h3, h4, h5, h6, h7, h8, h9, -⟩ := hst
  let row := st.row db u name cls pos
  have hmobid : row .mobid = .int st.mobid := Cell.coerce_int_decimal h1
  have hlevel : row .clevel = .int st.level := Cell.coerce_int_decimal h2
  have hstr : row .cstr = .int st.str := Cell.coerce_int_decimal h3
  have hint : row .cint = .int st.int := Cell.coerce_int_decimal h4
  have hdex : row .cdex = .int st.dex := Cell.coerce_int_decimal h5
  have hcon : row .ccon = .int st.con := Cell.coerce_int_decimal h6
  have hskill : row .skpoints = .int st.skpts := Cell.coerce_int_decimal h7
  have hstat : row .stpoints = .int st.stpts := Cell.coerce_int_decimal h8
  have hclass : row .classid = .int cls := Cell.coerce_int_decimal (by omega)
  have hclass32 : u32 (cls : Int) = cls := by
    unfold u32 unsigned
    omega
  constructor
  · show CInfo.mk name (u32 (intOf (row .mobid))) (u32 (intOf (row .classid)))
      (u32 (intOf (row .cexp))) (u32 (intOf (row .clevel))) (intOf (row .gold))
      (u32 (intOf (row .stpoints))) (u32 (intOf (row .skpoints))) = _
    rw [hmobid, hlevel, hskill, hstat, hclass, intOf_int h1, intOf_int h2, intOf_int h7, intOf_int h8,
      intOf_int (by omega), hclass32]
    rfl
  · show CStats.mk (u16 (intOf (row .maxHp))) (u16 (intOf (row .maxMp))) (u16 (intOf (row .maxHp)))
      (u16 (intOf (row .maxMp))) (u16 (intOf (row .cstr))) (u16 (intOf (row .cdex)))
      (u16 (intOf (row .cint))) (u16 (intOf (row .ccon))) 0 0 = _
    rw [hstr, hint, hdex, hcon, intOf_int h3, intOf_int h4, intOf_int h5, intOf_int h6]
    rfl
  · show FPoint.mk ((intOf (row .posX) : Int) : ℚ) ((intOf (row .posY) : Int) : ℚ) = _
    rw [show intOf (row .posX) = 2093 from rfl, show intOf (row .posY) = 2097 from rfl]
    norm_num
  · intro k hk
    show (cl.called name).newItems db' m k = _
    rw [newItems_apply, if_pos hk, startItem, lastAt_pairs, ← hitems, ← lastAt_pairs]
    rfl

end Row

/-- The rows of the items are read as they were printed. -/
theorem ofRow_isItem {owner : Cell} (hvs : ∀ n ∈ vs, -2 ^ 31 ≤ n ∧ n < 2 ^ 31) (h : IsItem owner vs r) :
    (slotOf r, CItem.ofRow r) = (slotIn vs, itemOf vs) := by
  have hlen : vs.length = 8 := by
    have hmap := congrArg List.length h.2
    rw [List.length_map, List.length_map] at hmap
    exact hmap.symm
  obtain ⟨a0, a1, a2, a3, a4, a5, a6, a7, rfl⟩ : ∃ a0 a1 a2 a3 a4 a5 a6 a7,
      vs = [a0, a1, a2, a3, a4, a5, a6, a7] := by
    match vs, hlen with
    | [a0, a1, a2, a3, a4, a5, a6, a7], _ => exact ⟨a0, a1, a2, a3, a4, a5, a6, a7, rfl⟩
  have hrow : [r .slotnum, r .itemid, r .add1, r .addval1, r .add2, r .addval2, r .add3, r .addval3] =
      [.int a0, .int a1, .int a2, .int a3, .int a4, .int a5, .int a6, .int a7] := h.2
  simp only [List.cons.injEq, and_true] at hrow
  obtain ⟨h0, h1, h2, h3, h4, h5, h6, h7⟩ := hrow
  simp only [List.forall_mem_cons] at hvs
  obtain ⟨r0, r1, r2, r3, r4, r5, r6, r7, -⟩ := hvs
  rw [slotOf, CItem.ofRow, h0, h1, h2, h3, h4, h5, h6, h7, intOf_int r0, intOf_int r1, intOf_int r2,
    intOf_int r3, intOf_int r4, intOf_int r5, intOf_int r6, intOf_int r7]
  rfl

theorem StartsAs.same {wanted : List (List Int)} {x y : CConnClient} (h : StartsAs name cls st wanted x)
    (hxy : SameCharacter x y) : StartsAs name cls st wanted y where
  info := hxy.info.trans h.info
  stats := hxy.stats.trans h.stats
  current := hxy.current.trans h.current
  items k hk := (hxy.items k hk).trans (h.items k hk)

/-- A name that is free for a character, and a slot of the account. -/
structure Available (db : Database) (u name : Bytes) (pos : Nat) : Prop where
  cleanUser : clean u
  cleanName : clean name
  short : name.length ≤ 16
  free : ¬ Taken db name
  slot : inSlot db u pos = []
  keys : KeysFit db
  /-- No item is owned by the character that comes next. -/
  items : ownedBy db .charItems (db.next .characters) = []

section Creation
variable {wanted : List (List Int)} (h : Available db u name pos)
  (hmade : Creation st wanted u name cls pos db t.db)
include h hmade

/-- The new character is the only one of its name, and the only one in its slot. -/
theorem Creation.selects (hE : E.sql.Answers) (hwhole : (0 : UInt8) ∉ name) (hu : u.length ≤ 16)
    (hpos : pos < 2 ^ 31) : Selects E t u pos (st.row db u name cls pos) name (db.next .characters) := by
  have hname : st.row db u name cls pos .name = .text name := Cell.coerce_text h.short
  have huid : st.row db u name cls pos .uid = .text u := Cell.coerce_text hu
  have hposid : st.row db u name cls pos .posid = .int pos := Cell.coerce_int_decimal (by omega)
  refine ⟨hE, h.cleanUser, ?_, hname, hwhole, h.cleanName, ?_, rfl, h.keys.next⟩
  · have hold : (db.rows .characters).filter (fun r => r .uid = .text u ∧ r .posid = .int pos) = [] :=
      h.slot
    rw [inSlot, hmade.char, List.filter_append, hold, List.filter_cons_of_pos (by simp [huid, hposid])]
    rfl
  · have hold : (db.rows .characters).filter (fun r => r .name = .text name ∧ r .uid = .text u) = [] :=
      List.filter_eq_nil_iff.mpr fun r hr hboth => by
        simp only [decide_eq_true_eq] at hboth
        exact h.free ⟨r, hr, hboth.1⟩
    rw [named, hmade.char, List.filter_append, hold, List.filter_cons_of_pos (by simp [hname, huid])]
    rfl

/-- He owns the items of his class and no others. -/
theorem Creation.owned (hwanted : ∀ vs ∈ wanted, ∀ n ∈ vs, -2 ^ 31 ≤ n ∧ n < 2 ^ 31) :
    (ownedBy t.db .charItems (db.next .characters)).map (fun r => (slotOf r, CItem.ofRow r)) =
      wanted.map fun vs => (slotIn vs, itemOf vs) := by
  obtain ⟨new, hnew, hall⟩ := hmade.items
  have hold : (db.rows .charItems).filter (fun r => r .owner = .int (db.next .characters)) = [] :=
    h.items
  have howned : ownedBy t.db .charItems (db.next .characters) = new := by
    rw [ownedBy, hnew, List.filter_append, hold, List.nil_append, List.filter_eq_self]
    intro r hr
    obtain ⟨vs, hvs, -⟩ := forall₂_right hall r hr
    simpa using hvs
  rw [howned]
  clear howned hnew hmade hold
  induction hall with
  | nil => rfl
  | cons hrow _ ih =>
    obtain ⟨hhead, hwanted⟩ := List.forall_mem_cons.mp hwanted
    rw [List.map_cons, List.map_cons, ih hwanted, ofRow_isItem hhead hrow]

end Creation

theorem startItems_range (hp : ClassElement root cls p st) :
    ∀ vs ∈ p.startItems, ∀ n ∈ vs, -2 ^ 31 ≤ n ∧ n < 2 ^ 31 := by
  intro vs hvs
  obtain ⟨o, ho, hitem⟩ := List.mem_filterMap.mp hvs
  have hints := classOrders_ints cls root.children o (by
    rw [hp.orders]
    exact List.mem_cons_of_mem _ ho)
  cases o with
  | newChar => cases hitem
  | newItem slotid itemid add1 add2 add3 val1 val2 val3 =>
    cases hitem
    have hints : ∀ v ∈ [slotid, itemid, add1, add2, add3, val1, val2, val3], _ := hints
    simp only [List.forall_mem_cons] at hints ⊢
    tauto

/-- A player has connected to a server without characters. -/
def unnamed : Server := fin (exec Env.withItem (.addUser {}) (Server.start (Db.empty schema)))

/-- He creates a character and then looks at the list of characters again. -/
def withHero : Server := fin (exec Env.withItem (.packet 0 (createFrame (ascii "hero") 0 0) {}) unnamed)

def hero : Server := fin (exec Env.withItem (.packet 0 (frame 0x0215 []) {}) withHero)

end Destiny
