import Mathlib.Data.List.Basic

/-!
# Memory

A memory gives every address its content. `patch` stores a list of values from an address on;
`bytesAt` reads as many back.
-/

namespace Prog

variable {α : Type*} {M : Nat → α} {a n m i : Nat} {b : List α}

/-- The contents of `n` addresses from `a` on. -/
def bytesAt (M : Nat → α) (a n : Nat) : List α := (List.range n).map fun k => M (a + k)

/-- A memory after values are stored from `a` on. -/
def patch (M : Nat → α) (a : Nat) (b : List α) : Nat → α := fun i =>
  if a ≤ i then (b[i - a]?).getD (M i) else M i

def memcpy (M : Nat → α) (dst src n : Nat) : Nat → α := patch M dst (bytesAt M src n)

@[simp] theorem bytesAt_length (M : Nat → α) (a n : Nat) : (bytesAt M a n).length = n := by
  unfold bytesAt
  rw [List.length_map, List.length_range]

theorem bytesAt_add (M : Nat → α) (a m n : Nat) :
    bytesAt M a (m + n) = bytesAt M a m ++ bytesAt M (a + m) n := by
  unfold bytesAt
  rw [List.range_add, List.map_append, List.map_map]
  congr 1
  apply List.map_congr_left
  intro k _
  show M (a + (m + k)) = M (a + m + k)
  rw [Nat.add_assoc]

/-- A shorter read is the start of a longer one. -/
theorem bytesAt_take (M : Nat → α) (a m n : Nat) : (bytesAt M a (n + m)).take n = bytesAt M a n := by
  rw [bytesAt_add]
  exact List.take_left' (bytesAt_length M a n)

theorem bytesAt_eq_iff {M' : Nat → α} {a' : Nat} :
    bytesAt M a n = bytesAt M' a' n ↔ ∀ k < n, M (a + k) = M' (a' + k) := by
  unfold bytesAt
  rw [List.map_inj_left]
  exact forall_congr' fun k => by rw [List.mem_range]

theorem patch_at {k : Nat} (hk : k < b.length) : patch M a b (a + k) = b[k] := by
  unfold patch
  rw [if_pos (Nat.le_add_right a k), Nat.add_sub_cancel_left, List.getElem?_eq_getElem hk]
  rfl

/-- What was stored is read back. -/
theorem bytesAt_patch (M : Nat → α) (a : Nat) (b : List α) :
    bytesAt (patch M a b) a b.length = b := by
  unfold bytesAt
  apply List.ext_getElem
  · rw [List.length_map, List.length_range]
  · intro k hk hk'
    rw [List.getElem_map, List.getElem_range]
    exact patch_at hk'

/-- All else is unchanged. -/
theorem patch_outside (h : i < a ∨ a + b.length ≤ i) : patch M a b i = M i := by
  unfold patch
  split
  · rw [List.getElem?_eq_none (by omega)]
    rfl
  · rfl

end Prog
