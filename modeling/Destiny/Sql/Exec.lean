import Destiny.Sql.Parser

/-!
# Tables

The meaning of a statement on a database. A row gives every column a cell. Two cells are
equal as byte strings when both are texts and as numbers otherwise, a text counting for
the integer it starts with (`Text.leading`); `NULL` is equal to nothing, and an operand
standing alone is true when its number is not zero. An inserted row gets the table's
counter as its key, the given values converted to the types of their columns, and the
defaults elsewhere.

`Db` carries its invariants: every cell has its column's type, and every row's key is below
the counter, which makes a new key new.
-/

namespace Sql

open Text

variable {τ κ : Type}

/-- A row's cells. -/
abbrev Row (κ : Type) := κ → Cell

/-! ## Cells -/

/-- The number a cell counts for. -/
def Cell.number : Cell → Int
  | .null => 0
  | .int n => n
  | .text b => leading b

def Cell.eq : Cell → Cell → Bool
  | .null, _ => false
  | _, .null => false
  | .text a, .text b => a == b
  | a, b => a.number == b.number

/-- What the client library returns for a cell. -/
def Cell.print : Cell → Option Bytes
  | .null => none
  | .int n => some (decimal n)
  | .text b => some b

/-- A value stored in a column of a type. -/
def Cell.coerce : Kind → Cell → Cell
  | _, .null => .null
  | .int, c => .int (clamp32 c.number)
  | .text w, .text b => .text (b.take w)
  | .text w, c => .text ((decimal c.number).take w)

@[simp] theorem Cell.eq_text (c : Cell) (b : Bytes) :
    c.eq (.text b) = true ↔ c = .text b ∨ ∃ n, c = .int n ∧ n = leading b := by
  cases c <;> simp [Cell.eq, Cell.number]

theorem Cell.print_int (n : Int) : (Cell.int n).print = some (decimal n) := rfl

theorem Cell.coerce_int_decimal {n : Int} (h : -2 ^ 31 ≤ n ∧ n < 2 ^ 31) :
    Cell.coerce .int (.text (decimal n)) = .int n := by
  simp only [coerce, number, leading_decimal, clamp32_eq_self h]

theorem Cell.coerce_text {w : Nat} {b : Bytes} (h : b.length ≤ w) :
    Cell.coerce (.text w) (.text b) = .text b := by
  rw [coerce, List.take_of_length_le h]

theorem Cell.hasKind_coerce (k : Kind) (c : Cell) : (c.coerce k).HasKind k := by
  cases c <;> cases k <;> simp [coerce, HasKind]

/-- In a column of texts, being equal to a text is being that text. -/
theorem Cell.HasKind.eq_text {c : Cell} {w : Nat} (h : c.HasKind (.text w)) (b : Bytes) :
    c.eq (.text b) = true ↔ c = .text b := by
  cases c with
  | int n => exact h.elim
  | _ => simp

/-- In a column of integers, being equal to a text is being the integer it starts with. -/
theorem Cell.HasKind.eq_leading {c : Cell} (h : c.HasKind .int) (b : Bytes) :
    c.eq (.text b) = true ↔ c = .int (leading b) := by
  cases c with
  | text d => exact h.elim
  | _ => simp

/-! ## Conditions -/

def Operand.eval (r : Row κ) : Operand κ Bytes → Cell
  | .col k => r k
  | .str b => .text b
  | .num n => .int n

def Atom.holds (r : Row κ) : Atom κ Bytes → Bool
  | .val a => (a.eval r).number != 0
  | .eq a b => (a.eval r).eq (b.eval r)

/-- Some group of the condition holds entirely. -/
def holds (w : Cond κ Bytes) (r : Row κ) : Bool := w.any fun g => g.all (Atom.holds r)

/-! ## Databases -/

/-- The tables, each with its counter above the keys of its rows. -/
structure Db (S : Schema τ κ) where
  rows : τ → List (Row κ)
  next : τ → Int
  typed : ∀ t, ∀ r ∈ rows t, ∀ k, (r k).HasKind (S.kind k)
  fresh : ∀ t, ∀ r ∈ rows t, ∃ n, r (S.key t) = .int n ∧ n < next t

/-- Tables without rows. -/
def Db.empty (S : Schema τ κ) : Db S where
  rows _ := []
  next _ := 1
  typed := fun _ _ hr => nomatch hr
  fresh := fun _ _ hr => nomatch hr

/-- A row the client fetches: a printed cell for each column, `none` for `NULL`. -/
abbrev Fetched := List (Option Bytes)

variable {S : Schema τ κ}

/-- The key a counter gives is no row's. -/
theorem Db.next_ne_key (db : Db S) {t : τ} {r : Row κ} (h : r ∈ db.rows t) :
    r (S.key t) ≠ .int (db.next t) := by
  obtain ⟨n, hn, hlt⟩ := db.fresh t r h
  rw [hn]
  intro e
  cases e
  omega

section Rows
variable [DecidableEq κ]

/-- The row with key `n` that an `INSERT` of `vals` adds. -/
def newRow (S : Schema τ κ) (t : τ) (n : Int) (cols : List κ) (vals : List Cell) : Row κ := fun k =>
  if k = S.key t then .int n
  else match (cols.zip vals).find? fun p => p.1 = k with
    | some p => p.2.coerce (S.kind k)
    | none => S.dflt k

@[simp] theorem newRow_key (t : τ) (n : Int) (cols : List κ) (vals : List Cell) :
    newRow S t n cols vals (S.key t) = .int n := by simp [newRow]

theorem newRow_typed (t : τ) (n : Int) (cols : List κ) (vals : List Cell) (k : κ) :
    (newRow S t n cols vals k).HasKind (S.kind k) := by
  unfold newRow
  split
  · next h => rw [h, S.key_kind]; trivial
  · split
    · exact Cell.hasKind_coerce _ _
    · exact S.dflt_kind k

end Rows

section Tables
variable [DecidableEq τ]

/-- The rows of one table replaced by some of them. -/
def Db.restrict (db : Db S) (t : τ) (p : Row κ → Bool) : Db S where
  rows := fun u => if u = t then (db.rows t).filter p else db.rows u
  next := db.next
  typed := by
    intro u r hr
    split at hr
    · exact db.typed t r (List.mem_of_mem_filter hr)
    · exact db.typed u r hr
  fresh := by
    intro u r hr
    split at hr
    · next h => subst h; exact db.fresh u r (List.mem_of_mem_filter hr)
    · exact db.fresh u r hr

@[simp] theorem Db.restrict_rows (db : Db S) (t : τ) (p : Row κ → Bool) :
    (db.restrict t p).rows t = (db.rows t).filter p := by simp [restrict]

theorem Db.restrict_rows_of_ne (db : Db S) {t u : τ} (h : u ≠ t) (p : Row κ → Bool) :
    (db.restrict t p).rows u = db.rows u := by simp [restrict, h]

end Tables

section Exec
variable [DecidableEq τ] [DecidableEq κ]

/-- A row added to a table, its key the counter. -/
def Db.add (db : Db S) (t : τ) (cols : List κ) (vals : List Cell) : Db S where
  rows := fun u =>
    if u = t then db.rows t ++ [newRow S t (db.next t) cols vals] else db.rows u
  next := fun u => if u = t then db.next t + 1 else db.next u
  typed := by
    intro u r hr
    split at hr
    · rcases List.mem_append.mp hr with hr | hr
      · exact db.typed t r hr
      · obtain rfl := List.mem_singleton.mp hr
        exact newRow_typed t _ cols vals
    · exact db.typed u r hr
  fresh := by
    intro u r hr
    split at hr
    · next h =>
      subst h
      rw [if_pos rfl]
      rcases List.mem_append.mp hr with hr | hr
      · obtain ⟨n, hn, hlt⟩ := db.fresh u r hr
        exact ⟨n, hn, by omega⟩
      · obtain rfl := List.mem_singleton.mp hr
        exact ⟨_, newRow_key .., by omega⟩
    · next h => rw [if_neg h]; exact db.fresh u r hr

@[simp] theorem Db.add_rows (db : Db S) (t : τ) (cols : List κ) (vals : List Cell) :
    (db.add t cols vals).rows t = db.rows t ++ [newRow S t (db.next t) cols vals] := by
  simp [add]

theorem Db.add_rows_of_ne (db : Db S) {t u : τ} (h : u ≠ t) (cols : List κ) (vals : List Cell) :
    (db.add t cols vals).rows u = db.rows u := by simp [add, h]

@[simp] theorem Db.add_next (db : Db S) (t : τ) (cols : List κ) (vals : List Cell) :
    (db.add t cols vals).next t = db.next t + 1 := by simp [add]

theorem Db.add_next_of_ne (db : Db S) {t u : τ} (h : u ≠ t) (cols : List κ) (vals : List Cell) :
    (db.add t cols vals).next u = db.next u := by simp [add, h]

/-- The rows a `SELECT` returns. -/
def fetch (db : Db S) (cols : List κ) (t : τ) (w : Cond κ Bytes) : List Fetched :=
  ((db.rows t).filter (holds w)).map fun r => cols.map fun k => (r k).print

/-- What a statement does: the database it leaves and the rows it returns. -/
def exec (db : Db S) : Stmt τ κ Bytes → Db S × List Fetched
  | .select cols t w => (db, fetch db cols t w)
  | .insert t cols vals => (db.add t cols (vals.map (Operand.eval fun _ => .null)), [])
  | .delete t w => (db.restrict t fun r => !holds w r, [])

end Exec

end Sql
