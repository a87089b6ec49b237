import Mathlib.Order.Lattice

/-!
# Latches

A latch is a flag with two thresholds: it is set once a value falls below the low one, and
stays set until the value reaches the high one. Setting it twice at one value is setting it
once.

`Paired f a b` says that the flags `a` and `b` were one flag, and that `f` has been applied
since to either, or both, or neither. Where `f` is idempotent the two agree again just when
both are up to date or neither is.
-/

namespace Prog

/-! ## One latch -/

section Latch
variable {α : Type} [LinearOrder α] {lo hi d : α} {b : Bool}

/-- The flag after a look at the value `d`. -/
def latch (lo hi d : α) (b : Bool) : Bool := decide (d < if b then hi else lo)

theorem latch_true : latch lo hi d true = decide (d < hi) := rfl
theorem latch_false : latch lo hi d false = decide (d < lo) := rfl

theorem latch_latch (h : lo ≤ hi) : latch lo hi d (latch lo hi d b) = latch lo hi d b := by
  cases hb : latch lo hi d b with
  | true =>
    -- below either threshold is below the high one
    have hlt : d < if b then hi else lo := of_decide_eq_true hb
    rw [latch_true, decide_eq_true_eq]
    cases b with
    | true => exact hlt
    | false => exact lt_of_lt_of_le hlt h
  | false =>
    have hnot : ¬ d < if b then hi else lo := of_decide_eq_false hb
    rw [latch_false, decide_eq_false_iff_not]
    cases b with
    | true => exact fun hlo => hnot (lt_of_lt_of_le hlo h)
    | false => exact hnot

end Latch

/-! ## Two copies of a flag -/

section Paired
variable {β : Type} {f : β → β} {a b : β}

def Paired (f : β → β) (a b : β) : Prop := ∃ o, (a = o ∨ a = f o) ∧ (b = o ∨ b = f o)

theorem Paired.of_eq (h : a = b) : Paired f a b := ⟨a, .inl rfl, .inl h.symm⟩

theorem Paired.symm (h : Paired f a b) : Paired f b a := by
  obtain ⟨o, ha, hb⟩ := h
  exact ⟨o, hb, ha⟩

/-- One of the copies is brought up to date. -/
theorem Paired.left (hf : ∀ b, f (f b) = f b) (h : Paired f a b) : Paired f (f a) b := by
  obtain ⟨o, ha, hb⟩ := h
  refine ⟨o, .inr ?_, hb⟩
  rcases ha with rfl | rfl
  · rfl
  · exact hf o

theorem Paired.eq (hf : ∀ b, f (f b) = f b) (h : Paired f a b) (hs : f a = a ↔ f b = b) : a = b := by
  obtain ⟨o, rfl | rfl, rfl | rfl⟩ := h
  · rfl
  · exact (hs.mpr (hf a)).symm
  · exact hs.mp (hf b)
  · rfl

end Paired

end Prog
