import Destiny.Sql.Exec

/-!
# Database servers

An `Engine` is a server that is asked one statement after another. What is assumed of it
is what its manual says of the statements a program sends: a statement of the fragment is
carried out as `exec` says or refused without effect (`parsed`), and a text outside the
fragment does no more than its first words allow, a `SELECT` changing nothing and an
`INSERT` or a `DELETE` reaching only the table it names. Refusal may depend on the number
of the call, so any pattern of failures is an engine.

`Engine.reference` refuses exactly the texts outside the fragment.
-/

namespace Sql

open Text

variable {τ κ : Type} [DecidableEq τ] [DecidableEq κ]

structure Engine (S : Schema τ κ) where
  /-- The database after a statement, and the rows it returns unless it is refused. -/
  query : Nat → Db S → Bytes → Db S × Option (List Fetched)
  parsed : ∀ n db b st, parseText S b = some st →
    query n db b = ((exec db st).1, some (exec db st).2) ∨ query n db b = (db, none)
  select : ∀ n db b, Begins [.word (ascii "SELECT")] b → (query n db b).1 = db
  insert : ∀ n db b k t, Begins [.word (ascii "INSERT"), .word (ascii "INTO"), k] b →
    tableOf S k = some t → ∀ u ≠ t, (query n db b).1.rows u = db.rows u
  delete : ∀ n db b k t, Begins [.word (ascii "DELETE"), .word (ascii "FROM"), k] b →
    tableOf S k = some t →
      ((query n db b).1.rows t).Sublist (db.rows t) ∧ ∀ u ≠ t, (query n db b).1.rows u = db.rows u

/-- No statement of the fragment is refused. -/
def Engine.Answers {S : Schema τ κ} (E : Engine S) : Prop := ∀ n db b st, parseText S b = some st →
  E.query n db b = ((exec db st).1, some (exec db st).2)

/-- A statement of the fragment is refused by the number of its call alone. -/
def Engine.FailsAt {S : Schema τ κ} (E : Engine S) (fails : Nat → Bool) : Prop :=
  ∀ n db b st, parseText S b = some st →
    E.query n db b = if fails n then (db, none) else ((exec db st).1, some (exec db st).2)

/-- Carries out the fragment and refuses the rest. -/
def Engine.reference (S : Schema τ κ) : Engine S where
  query := fun _ db b => match parseText S b with
    | some st => ((exec db st).1, some (exec db st).2)
    | none => (db, none)
  parsed := fun _ _ _ _ h => by simp [h]
  select := by
    intro n db b h
    split
    · next st hst => obtain ⟨cols, t, w, rfl⟩ := select_of_begins S h hst; rfl
    · rfl
  insert := by
    intro n db b k t h hk u hu
    split
    · next st hst =>
      obtain ⟨cols, vals, rfl⟩ := insert_of_begins S h hk hst
      exact db.add_rows_of_ne hu _ _
    · rfl
  delete := by
    intro n db b k t h hk
    split
    · next st hst =>
      obtain ⟨w, rfl⟩ := delete_of_begins S h hk hst
      refine ⟨?_, fun u hu => db.restrict_rows_of_ne hu _⟩
      rw [exec, Db.restrict_rows]
      exact List.filter_sublist
    · exact ⟨List.Sublist.refl _, fun _ _ => rfl⟩

/-- A server whose calls fail by their number. -/
def Engine.failing {S : Schema τ κ} (E : Engine S) (fails : Nat → Bool) : Engine S where
  query := fun n db b => if fails n then (db, none) else E.query n db b
  parsed := by
    intro n db b st h
    split
    · exact .inr rfl
    · exact E.parsed n db b st h
  select := by
    intro n db b h
    split
    · rfl
    · exact E.select n db b h
  insert := by
    intro n db b k t h hk u hu
    split
    · rfl
    · exact E.insert n db b k t h hk u hu
  delete := by
    intro n db b k t h hk
    split
    · exact ⟨List.Sublist.refl _, fun _ _ => rfl⟩
    · exact E.delete n db b k t h hk

theorem Engine.Answers.failing {S : Schema τ κ} {E : Engine S} (h : E.Answers) (fails : Nat → Bool) :
    (E.failing fails).FailsAt fails := by
  intro n db b st hst
  rw [← h n db b st hst]
  rfl

/-- A server that refuses the statements whose rows are not as it has room for. -/
def Engine.within {S : Schema τ κ} (E : Engine S) (room : List Fetched → Bool) : Engine S where
  query := fun n db b => if (E.query n db b).2.all room then E.query n db b else (db, none)
  parsed := by
    intro n db b st h
    split
    · exact E.parsed n db b st h
    · exact .inr rfl
  select := by
    intro n db b h
    split
    · exact E.select n db b h
    · rfl
  insert := by
    intro n db b k t h hk u hu
    split
    · exact E.insert n db b k t h hk u hu
    · rfl
  delete := by
    intro n db b k t h hk
    split
    · exact E.delete n db b k t h hk
    · exact ⟨List.Sublist.refl _, fun _ _ => rfl⟩

theorem Engine.within_rows {S : Schema τ κ} {E : Engine S} {room : List Fetched → Bool} {n : Nat}
    {db : Db S} {b : Bytes} {rows : List Fetched} (h : ((E.within room).query n db b).2 = some rows) :
    room rows = true := by
  rw [within] at h
  dsimp only at h
  split at h
  · next hall => exact (Option.all_eq_true ..).mp hall rows h
  · cases h

theorem Engine.reference_answers (S : Schema τ κ) : (Engine.reference S).Answers := fun _ _ _ _ h => by
  simp [reference, h]

end Sql
