import Destiny.Owners
import Destiny.Terminated

/-!
# New characters

`LoadCreateChar` walks over the elements of `StartChar.xml` that bear the name of a class. Each
that has all its attributes is a character to insert, and each complete `inventory` element in
it an item. Whether an insertion succeeded is not looked at; the owner of an item is the number
that the last query for the character's name returned. So a failing statement leaves half a
character behind, unless the failures happen to fall together.

A failure is the failure of a call, by its number: a pattern of failures is a set of numbers.
-/

namespace Destiny

open Text Sql Prog

/-! ## What is created -/

/-- An item's row with an owner, and the numbers of its element in the order of the columns. -/
def IsItem (owner : Cell) (vs : List Int) (r : Row Col) : Prop :=
  r .owner = owner ∧ (itemCols.drop 2).map r = vs.map .int

/-- A row with the name was added to the characters, and an item it owns for each wanted one. -/
structure CharMade (name : Bytes) (wanted : List (List Int)) (db db' : Database) (ch : Row Col) :
    Prop where
  char : db'.rows .characters = db.rows .characters ++ [ch]
  name : ch .name = .text name
  items : ∃ new, db'.rows .charItems = db.rows .charItems ++ new ∧
    List.Forall₂ (IsItem (ch .id)) wanted new

/-- Nothing was added. -/
structure Untouched (db db' : Database) : Prop where
  chars : db'.rows .characters = db.rows .characters
  items : db'.rows .charItems = db.rows .charItems

/-- The call returned true and made all of the character, or false and made nothing. -/
def Whole (name : Bytes) (wanted : List (List Int)) (db : Database)
    (r : EStateM.Result Fault Server Bool) : Prop :=
  (returned r = some true ∧ ∃ ch, CharMade name wanted db (fin r).db ch) ∨
    (returned r = some false ∧ Untouched db (fin r).db)

/-! ## The statements of a walk -/

/-- What an element asks of the tables: a character with the query for its number, or an item. -/
inductive Order where
  | newChar (mobid level cstr cint cdex ccon skpts stpts skmpts : Int)
  | newItem (slotid itemid add1 add2 add3 val1 val2 val3 : Int)

def charOrder (p : Xml) : Option Order :=
  match readXMLIntegers p charTags with
  | some [mobid, level, cstr, cint, cdex, ccon, skpts, stpts, skmpts] =>
    some (.newChar mobid level cstr cint cdex ccon skpts stpts skmpts)
  | _ => none

def itemOrder (subp : Xml) : Option Order :=
  if subp.name = ascii "inventory" then
    match readXMLIntegers subp itemTags with
    | some [slotid, itemid, add1, add2, add3, val1, val2, val3] =>
      some (.newItem slotid itemid add1 add2 add3 val1 val2 val3)
    | _ => none
  else none

def Xml.orders (p : Xml) : List Order := (charOrder p).toList ++ p.children.filterMap itemOrder

/-- The elements of a class, one after another. -/
def classOrders (cls : Nat) (nodes : List Xml) : List Order :=
  (nodes.filter fun p => p.name = className {} cls).flatMap Xml.orders

/-- An item's numbers in the order of the columns. -/
def Order.item : Order → Option (List Int)
  | .newChar .. => none
  | .newItem slotid itemid add1 add2 add3 val1 val2 val3 =>
    some [slotid, itemid, add1, val1, add2, val2, add3, val3]

/-- The items of the complete inventory elements of a class. -/
def inventory (cls : Nat) (nodes : List Xml) : List (List Int) :=
  (classOrders cls nodes).filterMap Order.item

section Walk
variable (E : Env) (u name : Bytes) (cls pos : Nat)

/-- The arguments of the `INSERT` for a character. -/
def charArgs (mobid level cstr cint cdex ccon skpts stpts skmpts : Int) : List Arg :=
  [txt name, txt u, .int mobid, .int cstr, .int cint, .int cdex, .int ccon, .int pos, .int cls,
    .int skpts, .int stpts, .int skmpts, .int level]

/-- The orders carried out one after another. -/
def carryOut (charid : Int) : List Order → M Bool
  | [] => return true
  | .newChar mobid level cstr cint cdex ccon skpts stpts skmpts :: os => do
    let _ ← doSQL E Query.newChar
      (charArgs u name cls pos mobid level cstr cint cdex ccon skpts stpts skmpts)
    match ← doSQL E Query.charId [txt name] with
    | none => return false
    | some [] => throw .nullPtr
    | some (row :: _) => do
      let charid ← colInt row 0
      carryOut charid os
  | .newItem slotid itemid add1 add2 add3 val1 val2 val3 :: os => do
    let _ ← doSQL E Query.newItem
      [.int charid, .int slotid, .int itemid, .int add1, .int val1, .int add2, .int val2,
        .int add3, .int val3]
    carryOut charid os

/-! ## Which failures do no harm -/

/-- The statements for a character fit the buffer of `DoSQL`. -/
def Order.Fits : Order → Prop
  | .newChar mobid level cstr cint cdex ccon skpts stpts skmpts =>
    (vsprintf (ascii Query.newChar)
      (charArgs u name cls pos mobid level cstr cint cdex ccon skpts stpts skmpts)).length < 2000 ∧
    (vsprintf (ascii Query.charId) [txt name]).length < 2000
  | .newItem .. => True

instance : DecidablePred (Order.Fits u name cls pos)
  | .newChar .. => inferInstanceAs (Decidable (_ ∧ _))
  | .newItem .. => .isTrue trivial

variable (fails : Nat → Bool) (taken : Prop)

/-- From call `n` on, every insertion fails until a query fails too. Where the name is not
`taken`, the first query is that one. -/
def Refused : Nat → List Order → Prop
  | _, [] => False
  | n, o :: os => match o with
    | .newChar .. => o.Fits u name cls pos ∧ fails n ∧ (fails (n + 1) ∨ taken ∧ Refused (n + 2) os)
    | .newItem .. => fails n ∧ Refused (n + 1) os

/-- From call `n` on, no further character is inserted and nothing else fails. -/
def Completed : Nat → List Order → Prop
  | _, [] => True
  | n, o :: os => match o with
    | .newChar .. => o.Fits u name cls pos ∧ fails n ∧ ¬ fails (n + 1) ∧ Completed (n + 2) os
    | .newItem .. => ¬ fails n ∧ Completed (n + 1) os

/-- From call `n` on, one character is inserted, before any item, and all of its items are. Where
the name is taken, others may be refused before, and there are no items. -/
def Accepted : Nat → List Order → Prop
  | _, [] => False
  | n, o :: os => match o with
    | .newChar .. => o.Fits u name cls pos ∧ ¬ fails (n + 1) ∧
      if fails n then taken ∧ Accepted (n + 2) os
      else name.length ≤ 16 ∧ Completed u name cls pos fails (n + 2) os ∧
        (taken → os.filterMap Order.item = [])
    | .newItem .. => False

instance Completed.decide : ∀ n os, Decidable (Completed u name cls pos fails n os)
  | _, [] => .isTrue trivial
  | n, .newChar .. :: os =>
    haveI := Completed.decide (n + 2) os
    inferInstanceAs (Decidable (_ ∧ _ ∧ _ ∧ _))
  | n, .newItem .. :: os =>
    haveI := Completed.decide (n + 1) os
    inferInstanceAs (Decidable (_ ∧ _))

variable [Decidable taken]

instance Refused.decide : ∀ n os, Decidable (Refused u name cls pos fails taken n os)
  | _, [] => .isFalse id
  | n, .newChar .. :: os =>
    haveI := Refused.decide (n + 2) os
    inferInstanceAs (Decidable (_ ∧ _ ∧ (_ ∨ _ ∧ _)))
  | n, .newItem .. :: os =>
    haveI := Refused.decide (n + 1) os
    inferInstanceAs (Decidable (_ ∧ _))

instance Accepted.decide : ∀ n os, Decidable (Accepted u name cls pos fails taken n os)
  | _, [] => .isFalse id
  | n, .newChar .. :: os =>
    haveI := Accepted.decide (n + 2) os
    inferInstanceAs (Decidable (_ ∧ _ ∧ if fails n then _ ∧ _ else _ ∧ _ ∧ (_ → _)))
  | _, .newItem .. :: _ => .isFalse id

end Walk

variable {E : Env} {J : Junk} {c : Ptr} {s t : Server} {u name : Bytes} {cls pos : Nat}
  {fails : Nat → Bool} {charid : Int} {os : List Order} {wanted : List (List Int)}

/-! ## The walk is its statements -/

theorem className_eq (h : cls ≤ 3) (J : Junk) : className J cls = className {} cls := by
  match cls, h with
  | 0, _ | 1, _ | 2, _ | 3, _ => rfl

theorem createItems_then (nodes : List Xml) :
    (createItems E charid nodes >>= fun _ => carryOut E u name cls pos charid os) =
      carryOut E u name cls pos charid (nodes.filterMap itemOrder ++ os) := by
  induction nodes with
  | nil => rfl
  | cons subp rest ih =>
    unfold createItems
    by_cases hinv : subp.name = ascii "inventory"
    swap
    · have horder : itemOrder subp = none := if_neg hinv
      rw [if_neg hinv, List.filterMap_cons_none horder]
      exact ih
    rw [if_pos hinv]
    cases hattrs : readXMLIntegers subp itemTags with
    | none =>
      have horder : itemOrder subp = none := by
        unfold itemOrder
        rw [if_pos hinv, hattrs]
      rw [List.filterMap_cons_none horder]
      exact ih
    | some vs =>
      have hlen : vs.length = 8 := readXMLIntegers_length hattrs
      obtain ⟨slotid, itemid, add1, add2, add3, val1, val2, val3, rfl⟩ := eq_of_length_eight hlen
      have horder : itemOrder subp =
          some (.newItem slotid itemid add1 add2 add3 val1 val2 val3) := by
        unfold itemOrder
        rw [if_pos hinv, hattrs]
      rw [List.filterMap_cons_some horder, bind_assoc]
      simp only [ih]
      rfl

theorem createChars_eq (h : cls ≤ 3) (nodes : List Xml) :
    createChars E J u name cls pos charid nodes =
      carryOut E u name cls pos charid (classOrders cls nodes) := by
  induction nodes generalizing charid with
  | nil => rfl
  | cons p rest ih =>
    unfold createChars
    rw [className_eq h]
    by_cases hp : p.name = className {} cls
    swap
    · have horders : classOrders cls (p :: rest) = classOrders cls rest := by
        rw [classOrders, List.filter_cons_of_neg (by simpa using hp)]
        rfl
      rw [if_neg hp, horders]
      exact ih
    have horders : classOrders cls (p :: rest) = (charOrder p).toList ++
        (p.children.filterMap itemOrder ++ classOrders cls rest) := by
      rw [classOrders, List.filter_cons_of_pos (by simpa using hp), List.flatMap_cons, Xml.orders,
        List.append_assoc]
      rfl
    rw [if_pos hp, horders]
    cases hattrs : readXMLIntegers p charTags with
    | none =>
      have horder : charOrder p = none := by
        unfold charOrder
        rw [hattrs]
      rw [horder]
      simp only [ih]
      exact createItems_then _
    | some vs =>
      have hlen : vs.length = 9 := readXMLIntegers_length hattrs
      obtain ⟨mobid, level, cstr, cint, cdex, ccon, skpts, stpts, skmpts, rfl⟩ :=
        eq_of_length_nine hlen
      have horder : charOrder p =
          some (.newChar mobid level cstr cint cdex ccon skpts stpts skmpts) := by
        unfold charOrder
        rw [hattrs]
      rw [horder]
      simp only [ih, createItems_then]
      rfl

/-! ## What the statements do -/

/-- The numbers of an item fit their columns. -/
def Order.Ints : Order → Prop
  | .newChar .. => True
  | .newItem slotid itemid add1 add2 add3 val1 val2 val3 =>
    ∀ v ∈ [slotid, itemid, add1, add2, add3, val1, val2, val3], -2 ^ 31 ≤ v ∧ v < 2 ^ 31

theorem classOrders_ints (cls : Nat) (nodes : List Xml) : ∀ o ∈ classOrders cls nodes, o.Ints := by
  intro o ho
  obtain ⟨p, -, ho⟩ := List.mem_flatMap.mp ho
  rcases List.mem_append.mp ho with ho | ho
  · unfold charOrder at ho
    split at ho
    · rw [List.mem_singleton.mp ho]
      trivial
    · cases ho
  · obtain ⟨subp, -, ho⟩ := List.mem_filterMap.mp ho
    unfold itemOrder at ho
    split at ho
    · split at ho
      · next hattrs =>
        cases ho
        exact readXMLIntegers_range hattrs
      · cases ho
    · cases ho

theorem parse_newItem (owner slotid itemid add1 val1 add2 val2 add3 val3 : Int) :
    parseText schema (vsprintf (ascii Query.newItem) [.int owner, .int slotid, .int itemid, .int add1,
      .int val1, .int add2, .int val2, .int add3, .int val3]) =
        some (.insert .charItems itemCols.tail ([owner, slotid, itemid, add1, val1, add2, val2, add3,
          val3].map fun v => .str (decimal v))) := by
  have hst : compile schema (items (ascii Query.newItem)) = some (.insert .charItems itemCols.tail
      ((List.range 9).map fun i => .str [.inr (.i, i)])) := by decide +kernel
  rw [parseText_of_clean hst (by simp [cleanArg])]
  simp [Stmt.map, Operand.map, fill, Arg.print, List.range_succ_eq_map]

theorem parse_newChar (hn : clean name) (hu : clean u)
    (mobid level cstr cint cdex ccon skpts stpts skmpts : Int) :
    parseText schema (vsprintf (ascii Query.newChar)
      (charArgs u name cls pos mobid level cstr cint cdex ccon skpts stpts skmpts)) =
        some (.insert .characters newCharCols [.str name, .str u, .str (decimal mobid), .num 50,
          .num 10, .str (decimal cstr), .str (decimal cint), .str (decimal cdex), .str (decimal ccon),
          .num 0, .str (decimal pos), .str (decimal cls), .str (decimal skpts), .str (decimal stpts),
          .str (decimal skmpts), .str (decimal level)]) := by
  have hst : compile schema (items (ascii Query.newChar)) = some (.insert .characters newCharCols
      [.str [.inr (.s, 0)], .str [.inr (.s, 1)], .str [.inr (.i, 2)], .num 50, .num 10,
        .str [.inr (.i, 3)], .str [.inr (.i, 4)], .str [.inr (.i, 5)], .str [.inr (.i, 6)], .num 0,
        .str [.inr (.i, 7)], .str [.inr (.i, 8)], .str [.inr (.i, 9)], .str [.inr (.i, 10)],
        .str [.inr (.i, 11)], .str [.inr (.i, 12)]]) := by decide +kernel
  rw [parseText_of_clean hst (by simp [charArgs, cleanArg, hn, hu])]
  simp [Stmt.map, Operand.map, fill, Arg.print, charArgs]

/-- A statement is carried out unless its call fails. -/
theorem doSQL_failing (hE : E.sql.FailsAt fails) {fmt : String} {args : List Arg}
    {st : Stmt Table Col Bytes} (hst : parseText schema (vsprintf (ascii fmt) args) = some st)
    (h : (vsprintf (ascii fmt) args).length < 2000) : doSQL E fmt args s =
      .ok (if fails s.sqlCalls then none else some (Sql.exec s.db st).2) { s with
        db := if fails s.sqlCalls then s.db else (Sql.exec s.db st).1
        sqlCalls := s.sqlCalls + 1 } := by
  rw [doSQL_apply h, hE _ _ _ _ hst]
  cases fails s.sqlCalls <;> rfl

theorem doSQL_unfit {fmt : String} {args : List Arg}
    (h : ¬ (vsprintf (ascii fmt) args).length < 2000) :
    doSQL E fmt args s = .error .sqlBuffer s := by
  have hcheck : check ((vsprintf (ascii fmt) args).length < 2000) .sqlBuffer s =
      .error .sqlBuffer s := by
    rw [check, if_neg h]
    rfl
  exact bind_error hcheck

/-- The cells of an item's row from its owner on. -/
def itemCells (charid : Int) (vs : List Int) : List Cell :=
  (charid :: vs).map fun v => .text (decimal v)

theorem carryOut_newItem (hE : E.sql.FailsAt fails) (hid : -2 ^ 31 ≤ charid ∧ charid < 2 ^ 31)
    {slotid itemid add1 add2 add3 val1 val2 val3 : Int}
    (hints : (Order.newItem slotid itemid add1 add2 add3 val1 val2 val3).Ints) :
    carryOut E u name cls pos charid (.newItem slotid itemid add1 add2 add3 val1 val2 val3 :: os) s =
      carryOut E u name cls pos charid os { s with
        db := if fails s.sqlCalls then s.db else s.db.add .charItems itemCols.tail
          (itemCells charid [slotid, itemid, add1, val1, add2, val2, add3, val3])
        sqlCalls := s.sqlCalls + 1 } := by
  have hshort : ∀ v ∈ [charid, slotid, itemid, add1, val1, add2, val2, add3, val3],
      Short (.int v) := by
    have hints : ∀ v ∈ [slotid, itemid, add1, add2, add3, val1, val2, val3], _ := hints
    simp only [List.forall_mem_cons] at hints ⊢
    obtain ⟨h1, h2, h3, h4, h5, h6, h7, h8, -⟩ := hints
    exact ⟨short_int hid, short_int h1, short_int h2, short_int h3, short_int h6, short_int h4,
      short_int h7, short_int h5, short_int h8, List.forall_mem_nil _⟩
  have hfits : (vsprintf (ascii Query.newItem) ([charid, slotid, itemid, add1, val1, add2, val2, add3,
      val3].map .int)).length < 2000 :=
    fits (by decide +kernel) (List.forall_mem_map.mpr hshort)
  exact bind_ok (doSQL_failing hE (parse_newItem ..) hfits)

/-- The tables after the `INSERT` of a character. -/
def charAdded (db : Database) (u name : Bytes) (cls pos : Nat)
    (mobid level cstr cint cdex ccon skpts stpts skmpts : Int) : Database :=
  db.add .characters newCharCols
    (newCharVals name u mobid cstr cint cdex ccon pos cls skpts stpts skmpts level)

/-- What follows the `INSERT` of a character: the query, which is call `n`. -/
def numbered (E : Env) (u name : Bytes) (cls pos : Nat) (fails : Nat → Bool) (n : Nat)
    (os : List Order) (s : Server) : EStateM.Result Fault Server Bool :=
  if fails n then .ok false s
  else match fetch s.db [.id] .characters (nameCond name) with
    | [] => .error .nullPtr s
    | row :: _ => (colInt row 0 >>= fun charid => carryOut E u name cls pos charid os) s

theorem carryOut_newChar (hE : E.sql.FailsAt fails) (hn : clean name) (hu : clean u)
    {mobid level cstr cint cdex ccon skpts stpts skmpts : Int}
    (hfit : (Order.newChar mobid level cstr cint cdex ccon skpts stpts skmpts).Fits u name cls pos) :
    carryOut E u name cls pos charid
        (.newChar mobid level cstr cint cdex ccon skpts stpts skmpts :: os) s =
      numbered E u name cls pos fails (s.sqlCalls + 1) os { s with
        db := if fails s.sqlCalls then s.db
          else charAdded s.db u name cls pos mobid level cstr cint cdex ccon skpts stpts skmpts
        sqlCalls := s.sqlCalls + 2 } := by
  let s' : Server := { s with
    db := if fails s.sqlCalls then s.db
      else charAdded s.db u name cls pos mobid level cstr cint cdex ccon skpts stpts skmpts
    sqlCalls := s.sqlCalls + 2 }
  show _ = numbered E u name cls pos fails (s.sqlCalls + 1) os s'
  let s1 : Server := { s' with sqlCalls := s.sqlCalls + 1 }
  have h1 : doSQL E Query.newChar
      (charArgs u name cls pos mobid level cstr cint cdex ccon skpts stpts skmpts) s =
        .ok (if fails s.sqlCalls then none else some []) s1 :=
    doSQL_failing hE (parse_newChar hn hu ..) hfit.1
  have h2 : doSQL E Query.charId [txt name] s1 =
      .ok (if fails (s.sqlCalls + 1) then none
        else some (fetch s1.db [.id] .characters (nameCond name))) s' := by
    refine (doSQL_failing hE (parse_charId hn) hfit.2).trans ?_
    cases fails (s.sqlCalls + 1) <;> rfl
  refine (bind_ok h1).trans ((bind_ok h2).trans ?_)
  have hdb : s1.db = s'.db := rfl
  unfold numbered
  cases fails (s.sqlCalls + 1) with
  | true => rfl
  | false =>
    rw [if_neg (by decide), if_neg (by decide), hdb]
    cases fetch s'.db [.id] .characters (nameCond name) <;> rfl

/-- A statement too long for its buffer crashes the server. -/
theorem carryOut_unfit {o : Order} (h : ¬ o.Fits u name cls pos) :
    returned (carryOut E u name cls pos charid (o :: os) s) = none := by
  cases o with
  | newItem => exact absurd trivial h
  | newChar mobid level cstr cint cdex ccon skpts stpts skmpts =>
    rcases Classical.not_and_iff_not_or_not.mp h with h | h
    · have h1 := doSQL_unfit (E := E) (s := s) h
      unfold carryOut
      rw [bind_error h1]
      rfl
    · unfold carryOut
      rw [bind_apply]
      cases doSQL E Query.newChar _ s with
      | ok r t =>
        dsimp only
        rw [bind_error (doSQL_unfit h)]
        rfl
      | error e t => rfl

/-- The number a query returns. -/
theorem colInt_of_range {m : Int} (h : -2 ^ 31 ≤ m ∧ m < 2 ^ 31) :
    colInt [(Cell.int m).print] 0 s = .ok m s := by
  have hcol : col [(Cell.int m).print] 0 s = .ok (decimal m) s := by
    rw [show (Cell.int m).print = some (decimal m) from rfl]
    unfold col
    simp only [List.getElem?_cons_zero, cstr_decimal]
    rfl
  refine (bind_ok hcol).trans ?_
  rw [atoi_decimal h]
  rfl

/-- The query for a character's number. -/
theorem fetch_nameCond (db : Database) (name : Bytes) :
    fetch db [.id] .characters (nameCond name) =
      ((db.rows .characters).filter fun r => r .name = .text name).map fun r => [(r .id).print] := by
  unfold fetch
  congr 1
  refine List.filter_congr fun r hr => ?_
  rw [Bool.eq_iff_iff, holds_nameCond hr, decide_eq_true_iff]

/-! ## What is spoilt stays spoilt -/

/-- Rows are only added, and the first new character gets the number that was next. -/
structure Grown (db db' : Database) : Prop where
  chars : ∃ C, db'.rows .characters = db.rows .characters ++ C ∧
    (∀ ch ∈ C.head?, ch .id = .int (db.next .characters)) ∧
    (C = [] → db'.next .characters = db.next .characters)
  items : ∃ I, db'.rows .charItems = db.rows .charItems ++ I

theorem Grown.refl (db : Database) : Grown db db :=
  ⟨⟨[], by simp, by simp, fun _ => rfl⟩, [], by simp⟩

theorem Grown.trans {a b d : Database} (h1 : Grown a b) (h2 : Grown b d) : Grown a d := by
  obtain ⟨⟨C, hC, hid, hnext⟩, I, hI⟩ := h1
  obtain ⟨⟨C', hC', hid', hnext'⟩, I', hI'⟩ := h2
  refine ⟨⟨C ++ C', by rw [hC', hC, List.append_assoc], ?_, ?_⟩, I ++ I', by
    rw [hI', hI, List.append_assoc]⟩
  · cases C with
    | nil =>
      rw [hnext rfl] at hid'
      exact hid'
    | cons ch C => exact hid
  · intro hnil
    obtain ⟨hC0, hC0'⟩ := List.append_eq_nil_iff.mp hnil
    rw [hnext' hC0', hnext hC0]

theorem Grown.addItem (db : Database) (vals : List Cell) :
    Grown db (db.add .charItems itemCols.tail vals) where
  chars := ⟨[], by rw [db.add_rows_of_ne (by decide), List.append_nil], by simp,
    fun _ => db.add_next_of_ne (by decide) _ _⟩
  items := ⟨_, db.add_rows ..⟩

theorem Grown.addChar (db : Database) (vals : List Cell) :
    Grown db (db.add .characters newCharCols vals) where
  chars := by
    refine ⟨_, db.add_rows .., ?_, nofun⟩
    intro ch hch
    cases hch
    exact newRow_key ..
  items := ⟨[], by rw [db.add_rows_of_ne (by decide), List.append_nil]⟩

def growth : Frame Fault Server where
  rel s t := Grown s.db t.db
  err _ _ := True
  refl s := .refl s.db
  trans := .trans
  err_trans _ h := h

theorem ofDb_growth : OfDb growth where
  rel {s t} h := by
    show Grown s.db t.db
    rw [h]
    exact .refl _
  err _ _ := trivial

theorem keeps_carryOut (hn : clean name) (hu : clean u) (os : List Order) :
    Keeps growth (carryOut E u name cls pos charid os) := by
  have hF := ofDb_growth
  have hB := (hF.ordinary 0).toBasic
  induction os generalizing charid with
  | nil => exact keeps_pure _
  | cons o os ih =>
    cases o with
    | newChar mobid level cstr cint cdex ccon skpts stpts skmpts =>
      refine keeps_bind (fun s => hF.doSQL fun r t h => ?_) fun _ =>
        keeps_bind (keeps_select hB (by simp [Query.selects]) _) fun r => ?_
      · show Grown s.db t.db
        obtain h | h := doSQL_newChar hn hu h <;> rw [h]
        · exact .refl _
        · exact .addChar ..
      rcases r with _ | _ | ⟨row, rows⟩
      · exact keeps_pure _
      · exact keeps_throw_nullPtr hB
      · exact keeps_bind (keeps_colInt hB _ _) fun _ => ih
    | newItem slotid itemid add1 add2 add3 val1 val2 val3 =>
      refine keeps_bind (fun s => hF.doSQL fun r t h => ?_) fun _ => ih
      show Grown s.db t.db
      have h : doSQL E Query.newItem ([charid, slotid, itemid, add1, val1, add2, val2, add3,
        val3].map .int) s = .ok r t := h
      obtain h | ⟨vals, h⟩ := doSQL_newItem h <;> rw [h]
      · exact .refl _
      · exact .addItem ..

/-- However the tables grow, the character is not made and something is. -/
def Spoilt (name : Bytes) (wanted : List (List Int)) (db₀ db : Database) : Prop :=
  ∀ db', Grown db db' → (∀ ch, ¬ CharMade name wanted db₀ db' ch) ∧ ¬ Untouched db₀ db'

theorem Spoilt.not_whole {db₀ db : Database} {r : EStateM.Result Fault Server Bool}
    (h : Spoilt name wanted db₀ db) (hg : Grown db (fin r).db) : ¬ Whole name wanted db₀ r := by
  obtain ⟨hmade, huntouched⟩ := h _ hg
  rintro (⟨-, ch, hch⟩ | ⟨-, hsame⟩)
  · exact hmade ch hch
  · exact huntouched hsame

theorem grown_numbered (hn : clean name) (hu : clean u) (n : Nat) (s : Server) :
    Grown s.db (fin (numbered E u name cls pos fails n os s)).db := by
  unfold numbered
  split
  · exact .refl _
  split
  · exact .refl _
  · exact (keeps_bind (keeps_colInt (ofDb_growth.ordinary 0).toBasic _ _)
      (fun _ => keeps_carryOut hn hu os) s).rel

theorem not_whole_of_crash {db₀ : Database} {r : EStateM.Result Fault Server Bool}
    (h : returned r = none) : ¬ Whole name wanted db₀ r := by
  rintro (⟨hr, -⟩ | ⟨hr, -⟩) <;> rw [h] at hr <;> cases hr

/-- A call that returns false has left a character behind. -/
theorem not_whole_of_false {db₀ : Database} {ch : Row Col}
    (h : s.db.rows .characters = db₀.rows .characters ++ [ch]) :
    ¬ Whole name wanted db₀ (.ok false s) := by
  rintro (⟨hr, -⟩ | ⟨-, hsame⟩)
  · cases hr
  · have hchars := h.symm.trans hsame.chars
    exact absurd (List.append_cancel_left (hchars.trans (List.append_nil _).symm)) nofun

/-- A character of another name. -/
theorem spoilt_of_name {db₀ db : Database} {ch : Row Col} (hch : ch .name ≠ .text name)
    (h : db.rows .characters = db₀.rows .characters ++ [ch]) : Spoilt name wanted db₀ db := by
  intro db' hg
  obtain ⟨C, hC, -⟩ := hg.chars
  rw [h, List.append_assoc] at hC
  constructor
  · intro ch' hmade
    cases List.append_cancel_left (hmade.char.symm.trans hC)
    exact hch hmade.name
  · intro hsame
    have hnil := hC.symm.trans (hsame.chars.trans (List.append_nil _).symm)
    exact absurd (List.append_cancel_left hnil) nofun

/-- A second character. -/
theorem spoilt_of_chars {db₀ db : Database} {l : List (Row Col)} (hl : 2 ≤ l.length)
    (h : db.rows .characters = db₀.rows .characters ++ l) : Spoilt name wanted db₀ db := by
  intro db' hg
  obtain ⟨C, hC, -⟩ := hg.chars
  have hlen := congrArg List.length hC
  rw [h, List.append_assoc, List.length_append, List.length_append] at hlen
  constructor
  · intro ch hmade
    have hone := congrArg List.length hmade.char
    rw [List.length_append, List.length_singleton] at hone
    omega
  · intro hsame
    have hzero := congrArg List.length hsame.chars
    omega

theorem forall₂_right {α β : Type} {R : α → β → Prop} {l : List α} {l' : List β}
    (h : List.Forall₂ R l l') : ∀ b ∈ l', ∃ a, R a b := by
  induction h with
  | nil => exact List.forall_mem_nil _
  | cons hab _ ih => exact List.forall_mem_cons.mpr ⟨⟨_, hab⟩, ih⟩

/-- An item that is not the new character's. -/
theorem spoilt_of_item {db₀ db : Database} {I : List (Row Col)} {bad : Row Col}
    (hg₀ : Grown db₀ db) (hI : db.rows .charItems = db₀.rows .charItems ++ I) (hbad : bad ∈ I)
    (howner : bad .owner ≠ .int (db₀.next .characters)) : Spoilt name wanted db₀ db := by
  intro db' hg
  obtain ⟨C, hC, hid, -⟩ := (hg₀.trans hg).chars
  obtain ⟨I', hI'⟩ := hg.items
  rw [hI, List.append_assoc] at hI'
  constructor
  · intro ch hmade
    obtain ⟨new, hnew, hall⟩ := hmade.items
    have hsame : new = I ++ I' := List.append_cancel_left (hnew.symm.trans hI')
    have hch : [ch] = C := List.append_cancel_left (hmade.char.symm.trans hC)
    have hchid : ch .id = .int (db₀.next .characters) := hid ch (by rw [← hch]; rfl)
    obtain ⟨vs, hvs, -⟩ := forall₂_right hall bad (hsame ▸ List.mem_append_left _ hbad)
    exact howner (hvs.trans hchid)
  · intro hsame
    have hnil : I ++ I' = [] := List.append_cancel_left
      ((hI'.symm.trans hsame.items).trans (List.append_nil _).symm)
    rw [(List.append_eq_nil_iff.mp hnil).1] at hbad
    cases hbad

/-- An item's row is what its element says. -/
theorem itemRow_isItem (hid : -2 ^ 31 ≤ charid ∧ charid < 2 ^ 31)
    {slotid itemid add1 add2 add3 val1 val2 val3 : Int}
    (hints : (Order.newItem slotid itemid add1 add2 add3 val1 val2 val3).Ints) (n : Int) :
    IsItem (.int charid) [slotid, itemid, add1, val1, add2, val2, add3, val3]
      (newRow schema .charItems n itemCols.tail
        (itemCells charid [slotid, itemid, add1, val1, add2, val2, add3, val3])) := by
  have hints : ∀ v ∈ [slotid, itemid, add1, add2, add3, val1, val2, val3], _ := hints
  simp only [List.forall_mem_cons] at hints
  obtain ⟨h1, h2, h3, h4, h5, h6, h7, h8, -⟩ := hints
  refine ⟨Cell.coerce_int_decimal hid, ?_⟩
  show [Cell.coerce .int (.text (decimal slotid)), Cell.coerce .int (.text (decimal itemid)),
    Cell.coerce .int (.text (decimal add1)), Cell.coerce .int (.text (decimal val1)),
    Cell.coerce .int (.text (decimal add2)), Cell.coerce .int (.text (decimal val2)),
    Cell.coerce .int (.text (decimal add3)), Cell.coerce .int (.text (decimal val3))] = _
  rw [Cell.coerce_int_decimal h1, Cell.coerce_int_decimal h2, Cell.coerce_int_decimal h3,
    Cell.coerce_int_decimal h4, Cell.coerce_int_decimal h5, Cell.coerce_int_decimal h6,
    Cell.coerce_int_decimal h7, Cell.coerce_int_decimal h8]
  rfl

/-! ## After the character -/

/-- The character has been inserted, and items after it; the number at hand is the one the query
for its name returns. -/
structure Begun (db₀ db : Database) (name : Bytes) (charid : Int) (ch : Row Col)
    (done : List (Row Col)) : Prop where
  chars : db.rows .characters = db₀.rows .characters ++ [ch]
  found : ∃ rows, fetch db [.id] .characters (nameCond name) = [(Cell.int charid).print] :: rows
  name : ch .name = .text name
  id : ch .id = .int (db₀.next .characters)
  items : db.rows .charItems = db₀.rows .charItems ++ done

section Begun
variable {db₀ db : Database} {ch x : Row Col} {done : List (Row Col)} {pre : List (List Int)}
  {vals : List Cell}

theorem Begun.grown (h : Begun db₀ db name charid ch done) : Grown db₀ db where
  chars := by
    refine ⟨[ch], h.chars, fun ch' hch' => ?_, nofun⟩
    cases hch'
    exact h.id
  items := ⟨done, h.items⟩

theorem Begun.addItem (h : Begun db₀ db name charid ch done) (vals : List Cell) :
    Begun db₀ (db.add .charItems itemCols.tail vals) name charid ch
      (done ++ [newRow schema .charItems (db.next .charItems) itemCols.tail vals]) where
  chars := by
    rw [db.add_rows_of_ne (by decide)]
    exact h.chars
  name := h.name
  id := h.id
  items := by rw [Db.add_rows, h.items, List.append_assoc]
  found := by
    rw [fetch_nameCond, db.add_rows_of_ne (by decide), ← fetch_nameCond]
    exact h.found

/-- A second character. -/
theorem Begun.spoilt (h : Begun db₀ db name charid ch done) (vals : List Cell) :
    Spoilt name wanted db₀ (db.add .characters newCharCols vals) := by
  refine spoilt_of_chars
    (l := [ch, newRow schema .characters (db.next .characters) newCharCols vals]) (Nat.le_refl 2) ?_
  rw [Db.add_rows, h.chars, List.append_assoc]
  rfl

theorem forall₂_concat {α β : Type} {R : α → β → Prop} {l : List α} {l' : List β} {a : α} {b : β}
    (hab : R a b) (hlen : List.Forall₂ R l l' ∨ l'.length < l.length) :
    (List.Forall₂ R (l ++ [a]) (l' ++ [b]) ↔ List.Forall₂ R l l') ∧
      (List.Forall₂ R (l ++ [a]) (l' ++ [b]) ∨ (l' ++ [b]).length < (l ++ [a]).length) := by
  have happend : List.Forall₂ R l l' → List.Forall₂ R (l ++ [a]) (l' ++ [b]) := fun h =>
    List.rel_append h (.cons hab .nil)
  rcases hlen with h | h
  · exact ⟨iff_of_true (happend h) h, .inl (happend h)⟩
  · have hlt : (l' ++ [b]).length < (l ++ [a]).length := by
      simp only [List.length_append, List.length_singleton]
      omega
    refine ⟨iff_of_false (fun hall => ?_) fun hall => ?_, .inr hlt⟩
    · have := hall.length_eq
      omega
    · have := hall.length_eq
      omega

/-- Once the character is there, the rest must be carried out, and the items must be his. -/
theorem whole_begun (hE : E.sql.FailsAt fails) (hn : clean name) (hu : clean u)
    (hid : -2 ^ 31 ≤ charid ∧ charid < 2 ^ 31) (hints : ∀ o ∈ os, o.Ints)
    (hb : Begun db₀ s.db name charid ch done) (hw : wanted = pre ++ os.filterMap Order.item)
    (hlen : List.Forall₂ (IsItem (ch .id)) pre done ∨ done.length < pre.length) :
    Whole name wanted db₀ (carryOut E u name cls pos charid os s) ↔
      List.Forall₂ (IsItem (ch .id)) pre done ∧ Completed u name cls pos fails s.sqlCalls os ∧
        (charid ≠ db₀.next .characters → os.filterMap Order.item = []) := by
  induction os generalizing s pre done with
  | nil =>
    have hpre : wanted = pre := hw.trans (List.append_nil _)
    constructor
    · rintro (⟨-, ch', hmade⟩ | ⟨hr, -⟩)
      · obtain ⟨new, hnew, hall⟩ := hmade.items
        have hch : [ch] = [ch'] := List.append_cancel_left (hb.chars.symm.trans hmade.char)
        have hdone : done = new := List.append_cancel_left (hb.items.symm.trans hnew)
        cases hch
        rw [← hpre, hdone]
        exact ⟨hall, trivial, fun _ => rfl⟩
      · cases hr
    · rintro ⟨hall, -, -⟩
      exact .inl ⟨rfl, ch, hb.chars, hb.name, done, hb.items, hpre ▸ hall⟩
  | cons o os ih =>
    obtain ⟨ho, hos⟩ := List.forall_mem_cons.mp hints
    cases o with
    | newChar mobid level cstr cint cdex ccon skpts stpts skmpts =>
      by_cases hfit :
          (Order.newChar mobid level cstr cint cdex ccon skpts stpts skmpts).Fits u name cls pos
      swap
      · exact iff_of_false (not_whole_of_crash (carryOut_unfit hfit)) fun h => hfit h.2.1.1
      rw [carryOut_newChar hE hn hu hfit]
      cases hins : fails s.sqlCalls with
      | false =>
        -- a second character
        rw [if_neg (by decide)]
        let s' : Server := { s with
          db := charAdded s.db u name cls pos mobid level cstr cint cdex ccon skpts stpts skmpts
          sqlCalls := s.sqlCalls + 2 }
        have hgrown : Grown s'.db
            (fin (numbered E u name cls pos fails (s.sqlCalls + 1) os s')).db :=
          grown_numbered hn hu _ _
        refine iff_of_false ((hb.spoilt _).not_whole hgrown) fun h => ?_
        exact absurd h.2.1.2.1 (by rw [hins]; decide)
      | true =>
        cases hask : fails (s.sqlCalls + 1) with
        | true =>
          have hfalse : numbered E u name cls pos fails (s.sqlCalls + 1) os
              { s with sqlCalls := s.sqlCalls + 2 } = .ok false _ := if_pos hask
          refine iff_of_false (fun h => ?_) fun h => h.2.1.2.2.1 hask
          rw [if_pos rfl, hfalse] at h
          exact not_whole_of_false (s := { s with sqlCalls := s.sqlCalls + 2 }) hb.chars h
        | false =>
          obtain ⟨rows, hfound⟩ := hb.found
          have hrest : numbered E u name cls pos fails (s.sqlCalls + 1) os
              { s with sqlCalls := s.sqlCalls + 2 } =
                carryOut E u name cls pos charid os { s with sqlCalls := s.sqlCalls + 2 } := by
            unfold numbered
            rw [hask, if_neg (by decide)]
            dsimp only
            rw [hfound]
            exact bind_ok (colInt_of_range hid)
          rw [if_pos rfl, hrest]
          refine (ih (s := { s with sqlCalls := s.sqlCalls + 2 }) hos hb hw hlen).trans ?_
          refine and_congr_right fun _ => and_congr_left fun _ => ?_
          show _ ↔ _ ∧ fails s.sqlCalls ∧ ¬ fails (s.sqlCalls + 1) ∧ _
          rw [hins, hask]
          exact ⟨fun h => ⟨hfit, rfl, nofun, h⟩, fun h => h.2.2.2⟩
    | newItem slotid itemid add1 add2 add3 val1 val2 val3 =>
      have hw' : wanted = (pre ++ [[slotid, itemid, add1, val1, add2, val2, add3, val3]]) ++
          os.filterMap Order.item := by
        rw [hw, List.append_assoc]
        rfl
      rw [carryOut_newItem hE hid ho]
      cases hins : fails s.sqlCalls with
      | true =>
        -- the item is missing from then on
        have hlt : done.length <
            (pre ++ [[slotid, itemid, add1, val1, add2, val2, add3, val3]]).length := by
          rw [List.length_append, List.length_singleton]
          rcases hlen with h | h
          · have := h.length_eq
            omega
          · omega
        rw [if_pos rfl, ih (s := { s with sqlCalls := s.sqlCalls + 1 }) hos hb hw' (.inr hlt)]
        refine iff_of_false (fun h => ?_) fun h => h.2.1.1 hins
        have := h.1.length_eq
        omega
      | false =>
        rw [if_neg (by decide)]
        have hrow := itemRow_isItem hid ho (s.db.next .charItems)
        have hnext := hb.addItem (itemCells charid [slotid, itemid, add1, val1, add2, val2, add3, val3])
        by_cases hown : charid = db₀.next .characters
        · have hcell : Cell.int charid = ch .id := by rw [hb.id, hown]
          rw [hcell] at hrow
          obtain ⟨hiff, hlen'⟩ := forall₂_concat hrow hlen
          refine (ih (s := { s with db := _, sqlCalls := s.sqlCalls + 1 }) hos hnext hw'
            hlen').trans ?_
          rw [hiff]
          refine and_congr_right fun _ => ?_
          show _ ↔ (¬ fails s.sqlCalls ∧ _) ∧ _
          rw [hins]
          exact ⟨fun h => ⟨⟨nofun, h.1⟩, fun hne => absurd hown hne⟩,
            fun h => ⟨h.1.2, fun hne => absurd hown hne⟩⟩
        · -- the item is another's
          have howner : newRow schema .charItems (s.db.next .charItems) itemCols.tail
              (itemCells charid [slotid, itemid, add1, val1, add2, val2, add3, val3]) .owner ≠
                .int (db₀.next .characters) := fun h => hown (Cell.int.inj (hrow.1.symm.trans h))
          let s' : Server := { s with
            db := s.db.add .charItems itemCols.tail
              (itemCells charid [slotid, itemid, add1, val1, add2, val2, add3, val3])
            sqlCalls := s.sqlCalls + 1 }
          have hspoilt : Spoilt name wanted db₀ s'.db := spoilt_of_item hnext.grown hnext.items
            (List.mem_append_right _ (List.mem_singleton_self _)) howner
          have hgrown : Grown s'.db (fin (carryOut E u name cls pos charid os s')).db :=
            (keeps_carryOut hn hu os s').rel
          refine iff_of_false (hspoilt.not_whole hgrown) fun h => ?_
          exact absurd (h.2.2 hown) (List.cons_ne_nil _ _)

end Begun

/-! ## Before the character -/

/-- The numbers of the characters fit their column, and so does the next. -/
structure KeysFit (db : Database) : Prop where
  keys : ∀ r ∈ db.rows .characters, ∃ n, r .id = .int n ∧ -2 ^ 31 ≤ n ∧ n < 2 ^ 31
  next : -2 ^ 31 ≤ db.next .characters ∧ db.next .characters < 2 ^ 31

/-- A character has the name. -/
def Taken (db : Database) (name : Bytes) : Prop :=
  ∃ r ∈ db.rows .characters, r .name = .text name

instance (db : Database) (name : Bytes) : Decidable (Taken db name) :=
  inferInstanceAs (Decidable (∃ r ∈ db.rows .characters, _))

section Before
variable {db : Database}

/-- A name that is taken is another character's. -/
theorem fetch_taken (h : KeysFit db) (ht : Taken db name) : ∃ n rows,
    fetch db [.id] .characters (nameCond name) = [(Cell.int n).print] :: rows ∧
      (-2 ^ 31 ≤ n ∧ n < 2 ^ 31) ∧ n ≠ db.next .characters := by
  rw [fetch_nameCond]
  cases hrows : (db.rows .characters).filter fun r => r .name = .text name with
  | nil =>
    obtain ⟨r, hr, hname⟩ := ht
    exact absurd (List.filter_eq_nil_iff.mp hrows r hr) (by simpa using hname)
  | cons r rows =>
    have hr : r ∈ db.rows .characters := List.mem_of_mem_filter (hrows ▸ List.mem_cons_self)
    obtain ⟨n, hn, hrange⟩ := h.keys r hr
    refine ⟨n, rows.map fun r => [(r .id).print], by rw [← hn]; rfl, hrange, fun he => ?_⟩
    exact db.next_ne_key hr (hn.trans (congrArg Cell.int he))

theorem fetch_free (h : ¬ Taken db name) : fetch db [.id] .characters (nameCond name) = [] := by
  rw [fetch_nameCond, List.filter_eq_nil_iff.mpr, List.map_nil]
  intro r hr hname
  exact h ⟨r, hr, by simpa using hname⟩

/-- A character that is added under its name: the query returns its number unless the name was
taken. -/
theorem begun_of_added (h : KeysFit db) (hlen : name.length ≤ 16) (u : Bytes) (cls pos : Nat)
    (mobid level cstr cint cdex ccon skpts stpts skmpts : Int) : ∃ n,
    (-2 ^ 31 ≤ n ∧ n < 2 ^ 31) ∧ (n ≠ db.next .characters ↔ Taken db name) ∧
      Begun db (charAdded db u name cls pos mobid level cstr cint cdex ccon skpts stpts skmpts)
        name n (newRow schema .characters (db.next .characters) newCharCols (newCharVals name u mobid
          cstr cint cdex ccon pos cls skpts stpts skmpts level)) [] := by
  have hname : newRow schema .characters (db.next .characters) newCharCols (newCharVals name u mobid
      cstr cint cdex ccon pos cls skpts stpts skmpts level) .name = .text name :=
    Cell.coerce_text hlen
  have hrows := db.add_rows .characters newCharCols (newCharVals name u mobid cstr cint cdex ccon pos
    cls skpts stpts skmpts level)
  have hid := newRow_key (S := schema) .characters (db.next .characters) newCharCols
    (newCharVals name u mobid cstr cint cdex ccon pos cls skpts stpts skmpts level)
  have hitems := db.add_rows_of_ne (t := .characters) (u := .charItems) (by decide) newCharCols
    (newCharVals name u mobid cstr cint cdex ccon pos cls skpts stpts skmpts level)
  have hfetch : fetch (charAdded db u name cls pos mobid level cstr cint cdex ccon skpts stpts skmpts)
      [.id] .characters (nameCond name) = fetch db [.id] .characters (nameCond name) ++
        [[(Cell.int (db.next .characters)).print]] := by
    unfold charAdded
    rw [fetch_nameCond, fetch_nameCond, hrows, List.filter_append, List.map_append,
      List.filter_cons_of_pos (by simpa using hname)]
    rfl
  by_cases ht : Taken db name
  · obtain ⟨n, rows, hn, hrange, hne⟩ := fetch_taken h ht
    rw [hn] at hfetch
    exact ⟨n, hrange, iff_of_true hne ht, hrows, ⟨_, hfetch⟩, hname, hid,
      hitems.trans (List.append_nil _).symm⟩
  · rw [fetch_free ht] at hfetch
    exact ⟨db.next .characters, h.next, iff_of_false (not_not.mpr rfl) ht, hrows, ⟨_, hfetch⟩, hname,
      hid, hitems.trans (List.append_nil _).symm⟩

/-- After the insertion the query must return, and where it returns the number of another there
must be no items. -/
theorem whole_inserted (hE : E.sql.FailsAt fails) (hn : clean name) (hu : clean u)
    (hkeys : KeysFit db) (hints : ∀ o ∈ os, o.Ints) {dropped : List (List Int)}
    (hw : wanted = dropped ++ os.filterMap Order.item)
    {mobid level cstr cint cdex ccon skpts stpts skmpts : Int}
    (hdb : s.db = charAdded db u name cls pos mobid level cstr cint cdex ccon skpts stpts skmpts)
    {n : Nat} :
    Whole name wanted db (numbered E u name cls pos fails n os s) ↔
      dropped = [] ∧ ¬ fails n ∧ name.length ≤ 16 ∧ Completed u name cls pos fails s.sqlCalls os ∧
        (Taken db name → os.filterMap Order.item = []) := by
  have hrows : s.db.rows .characters = db.rows .characters ++ [newRow schema .characters
      (db.next .characters) newCharCols (newCharVals name u mobid cstr cint cdex ccon pos cls skpts
        stpts skmpts level)] := by
    rw [hdb]
    exact db.add_rows ..
  by_cases hlen : name.length ≤ 16
  swap
  · -- the name is cut to fit its column
    have hcut : Cell.text (name.take 16) ≠ .text name := by
      intro he
      have hcut := congrArg List.length (Cell.text.inj he)
      rw [List.length_take] at hcut
      omega
    have hspoilt : Spoilt name wanted db s.db := spoilt_of_name hcut hrows
    exact iff_of_false (hspoilt.not_whole (grown_numbered hn hu n s)) fun h => hlen h.2.2.1
  cases hask : fails n with
  | true =>
    have hfalse : numbered E u name cls pos fails n os s = .ok false s := if_pos hask
    rw [hfalse]
    exact iff_of_false (not_whole_of_false hrows) fun h => h.2.1 rfl
  | false =>
    obtain ⟨m, hrange, htaken, hbegun⟩ := begun_of_added hkeys hlen u cls pos mobid level cstr cint
      cdex ccon skpts stpts skmpts
    rw [← hdb] at hbegun
    obtain ⟨rows, hfound⟩ := hbegun.found
    have hrest : numbered E u name cls pos fails n os s = carryOut E u name cls pos m os s := by
      unfold numbered
      rw [hask, if_neg (by decide), hfound]
      exact bind_ok (colInt_of_range hrange)
    have hdone : ∀ (owner : Cell) (l : List (List Int)),
        List.Forall₂ (IsItem owner) l [] ↔ l = [] := fun _ _ => List.forall₂_nil_right_iff
    have hstart : List.Forall₂ (IsItem (.int (db.next .characters))) dropped [] ∨
        ([] : List (Row Col)).length < dropped.length := by
      cases dropped with
      | nil => exact .inl .nil
      | cons => exact .inr (Nat.succ_pos _)
    rw [← hbegun.id] at hstart
    rw [hrest, whole_begun hE hn hu hrange hints hbegun hw hstart, hdone, htaken]
    exact and_congr_right fun _ => ⟨fun h => ⟨nofun, hlen, h⟩, fun h => h.2.2⟩

/-- **Carrying out the orders makes all of the character or nothing** exactly when the calls that
fail are such. An item refused before the character is missing whatever comes after. -/
theorem whole_before (hE : E.sql.FailsAt fails) (hn : clean name) (hu : clean u)
    (hkeys : KeysFit s.db) (hid : -2 ^ 31 ≤ charid ∧ charid < 2 ^ 31) (hints : ∀ o ∈ os, o.Ints)
    {dropped : List (List Int)} (hw : wanted = dropped ++ os.filterMap Order.item)
    (hown : charid ≠ s.db.next .characters ∨
      Refused u name cls pos fails (Taken s.db name) s.sqlCalls os ∨
        dropped = [] ∧ Accepted u name cls pos fails (Taken s.db name) s.sqlCalls os) :
    Whole name wanted s.db (carryOut E u name cls pos charid os s) ↔
      Refused u name cls pos fails (Taken s.db name) s.sqlCalls os ∨
        dropped = [] ∧ Accepted u name cls pos fails (Taken s.db name) s.sqlCalls os := by
  induction os generalizing s charid dropped with
  | nil =>
    refine iff_of_false ?_ (by rintro (h | ⟨-, h⟩) <;> exact h)
    rintro (⟨-, ch, hmade⟩ | ⟨hr, -⟩)
    · have hchars := (List.append_nil _).trans hmade.char
      exact absurd (List.append_cancel_left hchars) nofun
    · cases hr
  | cons o os ih =>
    obtain ⟨ho, hos⟩ := List.forall_mem_cons.mp hints
    cases o with
    | newChar mobid level cstr cint cdex ccon skpts stpts skmpts =>
      by_cases hfit :
          (Order.newChar mobid level cstr cint cdex ccon skpts stpts skmpts).Fits u name cls pos
      swap
      · exact iff_of_false (not_whole_of_crash (carryOut_unfit hfit)) fun h =>
          hfit (h.elim (fun h => h.1) fun h => h.2.1)
      show _ ↔ (_ ∧ fails s.sqlCalls ∧ (fails (s.sqlCalls + 1) ∨ _ ∧ _)) ∨
        dropped = [] ∧ _ ∧ ¬ fails (s.sqlCalls + 1) ∧ if fails s.sqlCalls then _ ∧ _ else _ ∧ _ ∧ _
      rw [carryOut_newChar hE hn hu hfit]
      cases hins : fails s.sqlCalls with
      | true =>
        rw [if_pos rfl, if_pos rfl]
        cases hask : fails (s.sqlCalls + 1) with
        | true =>
          have hfalse : numbered E u name cls pos fails (s.sqlCalls + 1) os
              { s with sqlCalls := s.sqlCalls + 2 } = .ok false _ := if_pos hask
          rw [hfalse]
          exact iff_of_true (.inr ⟨rfl, rfl, rfl⟩) (.inl ⟨hfit, rfl, .inl rfl⟩)
        | false =>
          unfold numbered
          rw [hask, if_neg (by decide)]
          dsimp only
          by_cases ht : Taken s.db name
          · obtain ⟨n, rows, hfound, hrange, hne⟩ := fetch_taken hkeys ht
            rw [hfound]
            dsimp only
            rw [bind_ok (colInt_of_range hrange)]
            refine (ih (s := { s with sqlCalls := s.sqlCalls + 2 }) hkeys hrange hos hw
              (.inl hne)).trans ?_
            simp [hfit, ht]
          · rw [fetch_free ht]
            refine iff_of_false (not_whole_of_crash rfl) ?_
            simp [ht]
      | false =>
        rw [if_neg (by decide), if_neg (by decide)]
        refine (whole_inserted (s := { s with
          db := charAdded s.db u name cls pos mobid level cstr cint cdex ccon skpts stpts skmpts
          sqlCalls := s.sqlCalls + 2 }) hE hn hu hkeys hos hw rfl).trans ?_
        simp [hfit]
    | newItem slotid itemid add1 add2 add3 val1 val2 val3 =>
      have hw' : wanted = (dropped ++ [[slotid, itemid, add1, val1, add2, val2, add3, val3]]) ++
          os.filterMap Order.item := by
        rw [hw, List.append_assoc]
        rfl
      have hnot : dropped ++ [[slotid, itemid, add1, val1, add2, val2, add3, val3]] ≠ [] :=
        List.append_ne_nil_of_right_ne_nil _ (List.cons_ne_nil _ _)
      change _ ∨ (fails s.sqlCalls ∧ _) ∨ dropped = [] ∧ False at hown
      show _ ↔ (fails s.sqlCalls ∧ _) ∨ dropped = [] ∧ False
      rw [carryOut_newItem hE hid ho]
      cases hins : fails s.sqlCalls with
      | true =>
        rw [if_pos rfl]
        rw [hins] at hown
        refine (ih (s := { s with sqlCalls := s.sqlCalls + 1 }) hkeys hid hos hw' ?_).trans ?_
        · exact hown.imp_right fun h => .inl (h.elim (fun h => h.2) fun h => h.2.elim)
        · simp [hnot]
      | false =>
        -- an item of somebody else's
        rw [hins] at hown
        have hne : charid ≠ s.db.next .characters :=
          hown.resolve_right fun h => h.elim (fun h => absurd h.1 (by decide)) fun h => h.2
        let s' : Server := { s with
          db := s.db.add .charItems itemCols.tail
            (itemCells charid [slotid, itemid, add1, val1, add2, val2, add3, val3])
          sqlCalls := s.sqlCalls + 1 }
        have hrow := itemRow_isItem hid ho (s.db.next .charItems)
        have hspoilt : Spoilt name wanted s.db s'.db := by
          refine spoilt_of_item (.addItem ..) (s.db.add_rows ..) (List.mem_singleton_self _) fun h => ?_
          exact hne (Cell.int.inj (hrow.1.symm.trans h))
        have hgrown : Grown s'.db (fin (carryOut E u name cls pos charid os s')).db :=
          (keeps_carryOut hn hu os s').rel
        rw [if_neg (by decide)]
        refine iff_of_false (hspoilt.not_whole hgrown) ?_
        simp

end Before

/-- A player who has logged in and has no character yet. -/
def choosing (E : Env) : Server :=
  fin (run (exec E) [.addUser {}, .packet 0 (loginFrame (ascii "bob") (ascii "pw")) { now := 100 }]
    (Server.start newcomer))

/-- The calls after some of them fail. -/
def Env.failing (fails : Nat → Bool) : Env :=
  { Env.withItem with sql := (Engine.reference schema).failing fails }

/-- The elements of the only class. -/
def oneClass : List Xml :=
  [.node (ascii "transknight") (charTags.map fun tag => (ascii tag, ascii "1"))
    [.node (ascii "inventory") (itemTags.map fun tag => (ascii tag, ascii "1")) []]]

/-- One item comes with the class. -/
example : inventory 0 oneClass = [List.replicate 8 1] := by decide +kernel

end Destiny
