import Destiny.Sql.Lexer

/-!
# SQL statements

A fragment of SQL: `SELECT`, single-row `INSERT` and `DELETE`, with conditions that are
`OR`s of `AND`s of operands and of equalities between two operands. The parser splits a
condition at `OR` first and at `AND` inside, so `AND` binds tighter. What it accepts has
the meaning `Exec.lean` gives it; a text it refuses is outside the fragment, not an error.

The payload `α` of a string literal is arbitrary, and parsing does not look at it
(`parse_map`). With the lexer's treatment of holes this gives `parseText_inst`: a format
string filled in with clean arguments parses as the statement of the format string, with
the arguments as its literals.
-/

namespace Sql

open Text

inductive Cell where
  | null
  | int (n : Int)
  | text (b : Bytes)
  deriving DecidableEq, Repr

/-- A column's type: an integer, or a text of at most `width` characters. -/
inductive Kind where
  | int
  | text (width : Nat)
  deriving DecidableEq, Repr

/-- The cells a column of a type can hold. -/
def Cell.HasKind : Cell → Kind → Prop
  | .null, _ => True
  | .int _, .int => True
  | .text b, .text w => b.length ≤ w
  | _, _ => False

instance : (c : Cell) → (k : Kind) → Decidable (c.HasKind k)
  | .null, _ => .isTrue trivial
  | .int _, .int => .isTrue trivial
  | .text b, .text w => inferInstanceAs (Decidable (b.length ≤ w))
  | .int _, .text _ => .isFalse nofun
  | .text _, .int => .isFalse nofun

/-- Tables `τ` with columns `κ`. Each table has a key that counts its rows up. -/
structure Schema (τ κ : Type) where
  table : Bytes → Option τ
  column : τ → Bytes → Option κ
  columns : τ → List κ
  key : τ → κ
  kind : κ → Kind
  dflt : κ → Cell
  key_kind : ∀ t, kind (key t) = .int
  dflt_kind : ∀ k, (dflt k).HasKind (kind k)

inductive Operand (κ α : Type) where
  | col (k : κ)
  | str (v : α)
  | num (n : Nat)
  deriving DecidableEq, Repr

inductive Atom (κ α : Type) where
  | val (a : Operand κ α)
  | eq (a b : Operand κ α)
  deriving DecidableEq, Repr

/-- An `OR` of `AND`s. -/
abbrev Cond (κ α : Type) := List (List (Atom κ α))

inductive Stmt (τ κ α : Type) where
  | select (cols : List κ) (t : τ) (w : Cond κ α)
  | insert (t : τ) (cols : List κ) (vals : List (Operand κ α))
  | delete (t : τ) (w : Cond κ α)
  deriving DecidableEq, Repr

section Map
variable {τ κ α β : Type} (f : α → β)

def Operand.map : Operand κ α → Operand κ β
  | .col k => .col k
  | .str v => .str (f v)
  | .num n => .num n

def Atom.map : Atom κ α → Atom κ β
  | .val a => .val (a.map f)
  | .eq a b => .eq (a.map f) (b.map f)

def Stmt.map : Stmt τ κ α → Stmt τ κ β
  | .select cols t w => .select cols t (w.map (List.map (Atom.map f)))
  | .insert t cols vals => .insert t cols (vals.map (Operand.map f))
  | .delete t w => .delete t (w.map (List.map (Atom.map f)))

end Map

/-! ## Parsing -/

section Parser
variable {τ κ α : Type}

def isWord (k : Bytes) : Token α → Bool
  | .word w => w == k
  | _ => false

def isSym (c : UInt8) : Token α → Bool
  | .sym d => d == c
  | _ => false

def nameOf : Token α → Option Bytes
  | .word w => some w
  | .ident w => some w
  | _ => none

/-- The tokens between the occurrences of a keyword. -/
def splitAt (k : Bytes) : List (Token α) → List (List (Token α))
  | [] => [[]]
  | t :: ts =>
    if isWord k t then [] :: splitAt k ts
    else match splitAt k ts with
      | [] => [[t]]
      | g :: gs => (t :: g) :: gs

/-- All results, if every element has one. -/
def collect {γ δ : Type} (f : γ → Option δ) : List γ → Option (List δ)
  | [] => some []
  | x :: xs => match f x, collect f xs with
    | some y, some ys => some (y :: ys)
    | _, _ => none

/-- A comma-separated list and the tokens after it. -/
def sepBy {β : Type} (f : Token α → Option β) : List (Token α) → Option (List β × List (Token α))
  | [] => none
  | t :: ts => match f t with
    | none => none
    | some x => match ts with
      | [] => some ([x], [])
      | c :: rest =>
        if isSym 44 c then (sepBy f rest).map fun p => (x :: p.1, p.2)
        else some ([x], c :: rest)

variable (S : Schema τ κ)

def operand (t : τ) : Token α → Option (Operand κ α)
  | .word w => (S.column t w).map .col
  | .ident w => (S.column t w).map .col
  | .str v => some (.str v)
  | .num ds => some (.num (digitsVal 0 ds))
  | .sym _ => none

def literal : Token α → Option (Operand κ α)
  | .str v => some (.str v)
  | .num ds => some (.num (digitsVal 0 ds))
  | _ => none

def atom (t : τ) : List (Token α) → Option (Atom κ α)
  | [a] => (operand S t a).map .val
  | [a, e, b] =>
    if isSym 61 e then match operand S t a, operand S t b with
      | some x, some y => some (.eq x y)
      | _, _ => none
    else none
  | _ => none

def cond (t : τ) (ts : List (Token α)) : Option (Cond κ α) :=
  collect (fun g => collect (atom S t) (splitAt (ascii "AND") g)) (splitAt (ascii "OR") ts)

def tableOf (t : Token α) : Option τ := (nameOf t).bind S.table

/-- `WHERE` and a condition, or nothing. -/
def parseWhere (t : τ) : List (Token α) → Option (Cond κ α)
  | [] => some [[]]
  | k :: ts => if isWord (ascii "WHERE") k then cond S t ts else none

/-- `FROM`, a table and its condition. -/
def parseFrom : List (Token α) → Option (τ × Cond κ α)
  | k :: n :: ts =>
    if isWord (ascii "FROM") k then
      (tableOf S n).bind fun t => (parseWhere S t ts).map fun w => (t, w)
    else none
  | _ => none

def parseSelect : List (Token α) → Option (Stmt τ κ α)
  | [] => none
  | k :: ts =>
    if isSym 42 k then (parseFrom S ts).map fun p => .select (S.columns p.1) p.1 p.2
    else (sepBy nameOf (k :: ts)).bind fun q => (parseFrom S q.2).bind fun p =>
      (collect (S.column p.1) q.1).map fun cols => .select cols p.1 p.2

/-- The tail of an `INSERT`: `VALUES (…)`. -/
def parseValues : List (Token α) → Option (List (Operand κ α))
  | v :: o :: ts =>
    if isWord (ascii "VALUES") v && isSym 40 o then
      (sepBy literal ts).bind fun q => match q.2 with
        | [c] => if isSym 41 c then some q.1 else none
        | _ => none
    else none
  | _ => none

variable [DecidableEq κ]

def parseInsert : List (Token α) → Option (Stmt τ κ α)
  | i :: n :: o :: ts =>
    if isWord (ascii "INTO") i && isSym 40 o then
      (tableOf S n).bind fun t => (sepBy nameOf ts).bind fun q => match q.2 with
        | c :: rest =>
          if isSym 41 c then (parseValues rest).bind fun vals =>
            (collect (S.column t) q.1).bind fun cols =>
              -- the fragment leaves the key to the table's counter
              if cols.length = vals.length ∧ S.key t ∉ cols then some (.insert t cols vals)
              else none
          else none
        | [] => none
    else none
  | _ => none

def parse : List (Token α) → Option (Stmt τ κ α)
  | [] => none
  | k :: ts =>
    if isWord (ascii "SELECT") k then parseSelect S ts
    else if isWord (ascii "INSERT") k then parseInsert S ts
    else if isWord (ascii "DELETE") k then
      (parseFrom S ts).map fun p => .delete p.1 p.2
    else none

/-- The statement of a text with holes. -/
def compile {ι : Type} (its : List (UInt8 ⊕ ι)) : Option (Stmt τ κ (List (UInt8 ⊕ ι))) :=
  (lex its).bind (parse S)

/-- The statement of a text. -/
def parseText (b : Bytes) : Option (Stmt τ κ Bytes) :=
  (compile S (b.map .inl : List (UInt8 ⊕ Empty))).map (Stmt.map (inst nofun))

end Parser

/-! ## Parsing does not look at literals -/

section Naturality
variable {τ κ α β : Type} (f : α → β)

@[simp] theorem isWord_map (k : Bytes) (t : Token α) : isWord k (t.map f) = isWord k t := by
  cases t <;> rfl

@[simp] theorem isSym_map (c : UInt8) (t : Token α) : isSym c (t.map f) = isSym c t := by
  cases t <;> rfl

@[simp] theorem nameOf_map (t : Token α) : nameOf (t.map f) = nameOf t := by
  cases t <;> rfl

theorem splitAt_map (k : Bytes) (ts : List (Token α)) :
    splitAt k (ts.map (Token.map f)) = (splitAt k ts).map (List.map (Token.map f)) := by
  induction ts with
  | nil => rfl
  | cons t ts ih =>
    simp only [List.map_cons, splitAt, isWord_map, ih]
    split
    · rfl
    · cases splitAt k ts <;> rfl

theorem collect_map {γ δ γ' δ' : Type} {g : γ → Option δ} {g' : γ' → Option δ'} {m : γ → γ'}
    {r : δ → δ'} (h : ∀ x, g' (m x) = (g x).map r) (xs : List γ) :
    collect g' (xs.map m) = (collect g xs).map (List.map r) := by
  induction xs with
  | nil => rfl
  | cons x xs ih =>
    simp only [List.map_cons, collect, h, ih]
    cases g x <;> cases collect g xs <;> rfl

theorem sepBy_map {δ δ' : Type} {g : Token α → Option δ} {g' : Token β → Option δ'} {r : δ → δ'}
    (h : ∀ t, g' (t.map f) = (g t).map r) (ts : List (Token α)) :
    sepBy g' (ts.map (Token.map f)) =
      (sepBy g ts).map fun p => (p.1.map r, p.2.map (Token.map f)) := by
  fun_induction sepBy g ts with
  | case1 => rfl
  | case2 t ts e => simp [sepBy, h, e]
  | case3 t x e => simp [sepBy, h, e]
  | case4 t x e c rest hc ih =>
    simp only [List.map_cons, sepBy, h, e, Option.map_some, isSym_map, hc, if_true, ih,
      Option.map_map]
    rfl
  | case5 t x e c rest hc => simp [sepBy, h, e, hc]

theorem sepBy_nameOf_map (ts : List (Token α)) : sepBy nameOf (ts.map (Token.map f)) =
    (sepBy nameOf ts).map fun p => (p.1, p.2.map (Token.map f)) := by
  have h : ∀ t : Token α, nameOf (t.map f) = (nameOf t).map id := by simp
  simpa using sepBy_map (r := id) f h ts

variable (S : Schema τ κ)

theorem operand_map (t : τ) (a : Token α) :
    operand S t (a.map f) = (operand S t a).map (Operand.map f) := by
  cases a <;> simp only [Token.map, operand, Option.map_map, Option.map_some, Option.map_none] <;>
    rfl

theorem literal_map (a : Token α) :
    literal (κ := κ) (a.map f) = (literal a).map (Operand.map f) := by
  cases a <;> rfl

theorem atom_map (t : τ) (ts : List (Token α)) :
    atom S t (ts.map (Token.map f)) = (atom S t ts).map (Atom.map f) := by
  match ts with
  | [] => rfl
  | [a] => simp only [List.map_cons, List.map_nil, atom, operand_map, Option.map_map]; rfl
  | [_, _] => rfl
  | [a, e, b] =>
    simp only [List.map_cons, List.map_nil, atom, isSym_map, operand_map]
    split
    · cases operand S t a <;> cases operand S t b <;> rfl
    · rfl
  | _ :: _ :: _ :: _ :: _ => rfl

theorem cond_map (t : τ) (ts : List (Token α)) :
    cond S t (ts.map (Token.map f)) = (cond S t ts).map (List.map (List.map (Atom.map f))) := by
  unfold cond
  rw [splitAt_map]
  refine collect_map (fun g => ?_) _
  rw [splitAt_map]
  exact collect_map (atom_map f S t) _

theorem tableOf_map (a : Token α) : tableOf S (a.map f) = tableOf S a := by simp [tableOf]

theorem parseWhere_map (t : τ) (ts : List (Token α)) : parseWhere S t (ts.map (Token.map f)) =
    (parseWhere S t ts).map (List.map (List.map (Atom.map f))) := by
  cases ts with
  | nil => rfl
  | cons k ts =>
    simp only [List.map_cons, parseWhere, isWord_map, cond_map]
    split <;> rfl

theorem parseFrom_map (ts : List (Token α)) : parseFrom S (ts.map (Token.map f)) =
    (parseFrom S ts).map fun p => (p.1, p.2.map (List.map (Atom.map f))) := by
  match ts with
  | [] => rfl
  | [_] => rfl
  | k :: n :: ts =>
    simp only [List.map_cons, parseFrom, isWord_map, tableOf_map, parseWhere_map]
    split
    · cases tableOf S n with
      | none => rfl
      | some t => simp only [Option.bind_some, Option.map_map]; rfl
    · rfl

theorem parseSelect_map (ts : List (Token α)) :
    parseSelect S (ts.map (Token.map f)) = (parseSelect S ts).map (Stmt.map f) := by
  cases ts with
  | nil => rfl
  | cons k ts =>
    simp only [List.map_cons, parseSelect, isSym_map]
    split
    · rw [parseFrom_map, Option.map_map, Option.map_map]; rfl
    · rw [← List.map_cons, sepBy_nameOf_map]
      cases sepBy nameOf (k :: ts) with
      | none => rfl
      | some q =>
        simp only [Option.map_some, Option.bind_some, parseFrom_map]
        cases parseFrom S q.2 with
        | none => rfl
        | some p => simp only [Option.map_some, Option.bind_some, Option.map_map]; rfl

theorem parseValues_map (ts : List (Token α)) : parseValues (κ := κ) (ts.map (Token.map f)) =
    (parseValues ts).map (List.map (Operand.map f)) := by
  match ts with
  | [] => rfl
  | [_] => rfl
  | v :: o :: ts =>
    simp only [List.map_cons, parseValues, isWord_map, isSym_map]
    split
    · rw [sepBy_map (r := Operand.map f) f (literal_map f)]
      cases sepBy (literal (κ := κ)) ts with
      | none => rfl
      | some q =>
        obtain ⟨vs, rest⟩ := q
        match rest with
        | [] => rfl
        | [c] =>
          simp only [Option.map_some, Option.bind_some, List.map_cons, List.map_nil, isSym_map]
          split <;> rfl
        | _ :: _ :: _ => rfl
    · rfl

variable [DecidableEq κ]

theorem parseInsert_map (ts : List (Token α)) :
    parseInsert S (ts.map (Token.map f)) = (parseInsert S ts).map (Stmt.map f) := by
  match ts with
  | [] => rfl
  | [_] => rfl
  | [_, _] => rfl
  | i :: n :: o :: ts =>
    simp only [List.map_cons, parseInsert, isWord_map, isSym_map, tableOf_map]
    split
    · cases tableOf S n with
      | none => rfl
      | some t =>
        rw [Option.bind_some, Option.bind_some, sepBy_nameOf_map]
        cases sepBy nameOf ts with
        | none => rfl
        | some q =>
          obtain ⟨ns, rest⟩ := q
          cases rest with
          | nil => rfl
          | cons c rest =>
            simp only [Option.map_some, Option.bind_some, List.map_cons, isSym_map]
            split
            · rw [parseValues_map]
              cases parseValues (κ := κ) rest with
              | none => rfl
              | some vals =>
                simp only [Option.map_some, Option.bind_some, List.length_map]
                cases collect (S.column t) ns with
                | none => rfl
                | some cols => simp only [Option.bind_some]; split <;> rfl
            · rfl
    · rfl

/-- **Parsing does not look at literals.** -/
theorem parse_map (ts : List (Token α)) :
    parse S (ts.map (Token.map f)) = (parse S ts).map (Stmt.map f) := by
  cases ts with
  | nil => rfl
  | cons k ts =>
    simp only [List.map_cons, parse, isWord_map]
    split
    · exact parseSelect_map f S ts
    split
    · exact parseInsert_map f S ts
    split
    · rw [parseFrom_map, Option.map_map, Option.map_map]; rfl
    · rfl

end Naturality

section Compile
variable {τ κ ι : Type}

theorem Stmt.map_map {α β γ : Type} (f : α → β) (g : β → γ) (st : Stmt τ κ α) :
    (st.map f).map g = st.map (g ∘ f) := by
  have ho : ∀ a : Operand κ α, (a.map f).map g = a.map (g ∘ f) := fun a => by cases a <;> rfl
  have ha : ∀ a : Atom κ α, (a.map f).map g = a.map (g ∘ f) := fun a => by
    cases a <;> simp [Atom.map, ho]
  cases st <;> simp [Stmt.map, Function.comp_def, ho, ha]

variable [DecidableEq κ] (S : Schema τ κ)

/-- **A filled-in format parses as the format's statement.** -/
theorem parseText_inst {ρ : ι → Bytes} (hρ : ∀ h, clean (ρ h)) {its : List (UInt8 ⊕ ι)}
    {st : Stmt τ κ (List (UInt8 ⊕ ι))} (h : compile S its = some st) :
    parseText S (inst ρ its) = some (st.map (inst ρ)) := by
  obtain ⟨ts, hl, hp⟩ := Option.bind_eq_some_iff.mp h
  have hlex := lex_inst (κ := Empty) ρ hρ hl
  rw [refill] at hlex
  rw [parseText, compile, hlex, Option.bind_some, parse_map, hp, Option.map_some, Option.map_some,
    Stmt.map_map]
  congr 2
  funext v
  simp [refill]

end Compile

/-! ## How a text begins -/

section Begins
variable {τ κ : Type}

/-- The text begins with these tokens. -/
def Begins (ts : List (Token (List (UInt8 ⊕ Empty)))) (b : Bytes) : Prop :=
  ∃ p, p <+: b ∧ LexSt.feed ⟨.start, []⟩ (p.map .inl) = ⟨.start, ts⟩

theorem Begins.of_prefix {ts : List (Token (List (UInt8 ⊕ Empty)))} {a b : Bytes}
    (h : Begins ts a) (hab : a <+: b) : Begins ts b :=
  let ⟨p, hp, ho⟩ := h
  ⟨p, hp.trans hab, ho⟩

theorem Begins.prefix_lex {ts us : List (Token (List (UInt8 ⊕ Empty)))} {b : Bytes}
    (h : Begins ts b) (hl : lex (b.map .inl) = some us) : ts <+: us := by
  obtain ⟨p, ⟨r, rfl⟩, ho⟩ := h
  rw [lex, List.map_append, LexSt.feed_append, ho] at hl
  exact (LexSt.feed_toks _ _).trans (LexSt.finish_toks hl)

variable [DecidableEq κ] (S : Schema τ κ)

theorem Begins.parse {ts : List (Token (List (UInt8 ⊕ Empty)))} {b : Bytes} (h : Begins ts b)
    {st : Stmt τ κ Bytes} (hst : parseText S b = some st) :
    ∃ us st0, parse S (ts ++ us) = some st0 ∧ st = st0.map (inst fun h : Empty => nomatch h) := by
  obtain ⟨st0, hc, rfl⟩ := Option.map_eq_some_iff.mp hst
  obtain ⟨all, hl, hp⟩ := Option.bind_eq_some_iff.mp hc
  obtain ⟨us, rfl⟩ := h.prefix_lex hl
  exact ⟨us, st0, hp, rfl⟩

theorem select_of_begins {b : Bytes} (h : Begins [.word (ascii "SELECT")] b)
    {st : Stmt τ κ Bytes} (hst : parseText S b = some st) :
    ∃ cols t w, st = .select cols t w := by
  obtain ⟨us, st0, hp, rfl⟩ := h.parse S hst
  rw [List.singleton_append, Sql.parse, if_pos (by simp [isWord])] at hp
  cases us with
  | nil => cases hp
  | cons k us =>
    rw [parseSelect] at hp
    split at hp
    · obtain ⟨p, -, rfl⟩ := Option.map_eq_some_iff.mp hp
      exact ⟨_, _, _, rfl⟩
    · obtain ⟨q, -, hp⟩ := Option.bind_eq_some_iff.mp hp
      obtain ⟨p, -, hp⟩ := Option.bind_eq_some_iff.mp hp
      obtain ⟨cols, -, rfl⟩ := Option.map_eq_some_iff.mp hp
      exact ⟨_, _, _, rfl⟩

theorem delete_of_begins {b : Bytes} {n : Token (List (UInt8 ⊕ Empty))} {t : τ}
    (h : Begins [.word (ascii "DELETE"), .word (ascii "FROM"), n] b) (hn : tableOf S n = some t)
    {st : Stmt τ κ Bytes} (hst : parseText S b = some st) : ∃ w, st = .delete t w := by
  obtain ⟨us, st0, hp, rfl⟩ := h.parse S hst
  have h1 : ascii "DELETE" ≠ ascii "SELECT" := by decide
  have h2 : ascii "DELETE" ≠ ascii "INSERT" := by decide
  simp only [List.cons_append, Sql.parse, isWord, beq_iff_eq, h1, h2, if_false,
    if_true, List.nil_append, parseFrom, beq_self_eq_true, hn, Option.bind_some] at hp
  obtain ⟨q, hq, rfl⟩ := Option.map_eq_some_iff.mp hp
  obtain ⟨w, -, rfl⟩ := Option.map_eq_some_iff.mp hq
  exact ⟨_, rfl⟩

theorem insert_of_begins {b : Bytes} {n : Token (List (UInt8 ⊕ Empty))} {t : τ}
    (h : Begins [.word (ascii "INSERT"), .word (ascii "INTO"), n] b) (hn : tableOf S n = some t)
    {st : Stmt τ κ Bytes} (hst : parseText S b = some st) : ∃ cols vals, st = .insert t cols vals := by
  obtain ⟨us, st0, hp, rfl⟩ := h.parse S hst
  have h1 : ascii "INSERT" ≠ ascii "SELECT" := by decide
  simp only [List.cons_append, Sql.parse, isWord, beq_iff_eq, h1, if_false, if_true,
    List.nil_append] at hp
  cases us with
  | nil => cases hp
  | cons o us =>
    rw [parseInsert] at hp
    split at hp
    · rw [hn, Option.bind_some] at hp
      obtain ⟨q, -, hp⟩ := Option.bind_eq_some_iff.mp hp
      split at hp
      · split at hp
        · obtain ⟨vals, -, hp⟩ := Option.bind_eq_some_iff.mp hp
          obtain ⟨cols, -, hp⟩ := Option.bind_eq_some_iff.mp hp
          split at hp
          · cases hp
            exact ⟨_, _, rfl⟩
          · cases hp
        · cases hp
      · cases hp
    · cases hp

end Begins

end Sql
