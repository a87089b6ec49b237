import Mathlib.Data.List.Induction
import Mathlib.Logic.Function.Basic

/-!
# Tables filled in order

Entries are stored one after another, each where its key says. A place holds the last entry
stored there, and what it held before when there is none: so what the table held before can be
told exactly at the places that were never stored to.
-/

namespace Prog

variable {α β ι : Type*} [DecidableEq ι] {key : α → ι} {val : α → β} {l : List α} {a : ι → β} {i : ι}

/-- A table after entries are stored into it. -/
def filled (key : α → ι) (val : α → β) (l : List α) (a : ι → β) : ι → β :=
  l.foldl (fun a x => Function.update a (key x) (val x)) a

/-- The last entry for a place. -/
def lastAt (key : α → ι) (l : List α) (i : ι) : Option α := (l.filter fun x => key x = i).getLast?

theorem filled_cons (x : α) (l : List α) (a : ι → β) :
    filled key val (x :: l) a = filled key val l (Function.update a (key x) (val x)) := rfl

theorem filled_append (l l' : List α) (a : ι → β) :
    filled key val (l ++ l') a = filled key val l' (filled key val l a) := List.foldl_append

theorem lastAt_eq_none : lastAt key l i = none ↔ ∀ x ∈ l, key x ≠ i := by
  rw [lastAt, List.getLast?_eq_none_iff, List.filter_eq_nil_iff]
  simp

/-- What is stored last at a place depends on the keys and values alone. -/
theorem lastAt_pairs (l : List α) (i : ι) :
    (lastAt key l i).map val = (lastAt Prod.fst (l.map fun x => (key x, val x)) i).map Prod.snd := by
  rw [lastAt, lastAt, List.filter_map, List.getLast?_map, Option.map_map]
  rfl

/-- A place holds the last entry stored there. -/
theorem filled_apply (l : List α) (a : ι → β) (i : ι) :
    filled key val l a i = ((lastAt key l i).map val).getD (a i) := by
  induction l using List.reverseRecOn with
  | nil => rfl
  | append_singleton l x ih =>
    rw [filled_append, lastAt, List.filter_append]
    show Function.update (filled key val l a) (key x) (val x) i = _
    by_cases hx : key x = i
    · rw [List.filter_cons_of_pos (by simpa using hx), ← hx, Function.update_self]
      simp
    · rw [List.filter_cons_of_neg (by simpa using hx), Function.update_of_ne (Ne.symm hx), ih]
      simp [lastAt]

/-- One value stored at every place of a list. -/
theorem filled_const (z : β) (l : List ι) (a : ι → β) (i : ι) :
    filled id (fun _ => z) l a i = if i ∈ l then z else a i := by
  rw [filled_apply]
  cases h : lastAt id l i with
  | none =>
    have hi : i ∉ l := fun hi => lastAt_eq_none.mp h i hi rfl
    rw [if_neg hi]
    rfl
  | some x =>
    have hi : i ∈ l := by
      by_contra hi
      have hnone : lastAt id l i = none := by
        apply lastAt_eq_none.mpr
        rintro y hy rfl
        exact hi hy
      rw [hnone] at h
      cases h
    rw [if_pos hi]
    rfl

/-- A table that was not cleared holds what a clear one would exactly when it was clear at the
places that were never stored to. -/
theorem filled_eq_iff {p : ι → Prop} {z : β} :
    (∀ i, p i → filled key val l a i = ((lastAt key l i).map val).getD z) ↔
      ∀ i, p i → (∀ x ∈ l, key x ≠ i) → a i = z := by
  refine forall_congr' fun i => imp_congr_right fun _ => ?_
  rw [filled_apply, ← lastAt_eq_none]
  cases lastAt key l i with
  | none => simp
  | some x => simp

end Prog
