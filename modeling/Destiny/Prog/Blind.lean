import Destiny.Prog.Frame

/-!
# Two runs

`Blind R x` says that `x` does not look at what `R` lets two states differ in: from related
states it ends in the same way, in related states. Blindness is closed under sequencing. A
program that first makes related states equal is blind whatever it does after.
-/

namespace Prog

variable {ε σ α β : Type}

/-- Two results are the same value, or the same error, in related states. -/
inductive Agree (R : σ → σ → Prop) :
    EStateM.Result ε σ α → EStateM.Result ε σ α → Prop where
  | ok {s t : σ} (a : α) (h : R s t) : Agree R (.ok a s) (.ok a t)
  | error {s t : σ} (e : ε) (h : R s t) : Agree R (.error e s) (.error e t)

def Blind (R : σ → σ → Prop) (x : EStateM ε σ α) : Prop := ∀ s s', R s s' → Agree R (x s) (x s')

section Rules
variable {R : σ → σ → Prop}

theorem Agree.refl (hR : ∀ s, R s s) (r : EStateM.Result ε σ α) : Agree R r r := by
  cases r with
  | ok a s => exact .ok a (hR s)
  | error e s => exact .error e (hR s)

theorem Agree.fin {r r' : EStateM.Result ε σ α} (h : Agree R r r') : R (fin r) (fin r') := by
  cases h with
  | ok _ h => exact h
  | error _ h => exact h

theorem blind_pure (a : α) : Blind R (pure a : EStateM ε σ α) := fun _ _ h => .ok a h

theorem blind_throw (e : ε) : Blind R (throw e : EStateM ε σ α) := fun _ _ h => .error e h

theorem blind_modify {f : σ → σ} (hf : ∀ s s', R s s' → R (f s) (f s')) :
    Blind R (modify f : EStateM ε σ PUnit) := fun s s' h => .ok _ (hf s s' h)

/-- The rest of a sequence needs a look only where its first part returns. -/
theorem Agree.bind {x : EStateM ε σ α} {f : α → EStateM ε σ β} {s s' : σ} (hx : Agree R (x s) (x s'))
    (hf : ∀ a t t', x s = .ok a t → x s' = .ok a t' → R t t' → Agree R (f a t) (f a t')) :
    Agree R ((x >>= f) s) ((x >>= f) s') := by
  rw [bind_apply, bind_apply]
  generalize hr : x s = r at hx
  generalize hr' : x s' = r' at hx
  cases hx with
  | ok a ht => exact hf a _ _ hr hr' ht
  | error e ht => exact .error e ht

theorem blind_bind {x : EStateM ε σ α} {f : α → EStateM ε σ β} (hx : Blind R x)
    (hf : ∀ a, Blind R (f a)) : Blind R (x >>= f) := fun s s' h =>
  (hx s s' h).bind fun a t t' _ _ ht => hf a t t' ht

/-- What is read of the state does not depend on the difference. -/
theorem blind_get {f : σ → EStateM ε σ β} (hf : ∀ s s', R s s' → f s = f s')
    (hb : ∀ s, Blind R (f s)) : Blind R (get >>= f) := by
  intro s s' h
  show Agree R (f s s) (f s' s')
  rw [hf s s' h]
  exact hb s' s s' h

theorem blind_ite {c : Prop} [Decidable c] {x y : EStateM ε σ α} (hx : c → Blind R x)
    (hy : ¬ c → Blind R y) : Blind R (if c then x else y) := by
  split
  · next h => exact hx h
  · next h => exact hy h

/-- A program that starts by erasing the difference. -/
theorem blind_erase (hR : ∀ s, R s s) {f : σ → σ} {g : PUnit → EStateM ε σ β}
    (hf : ∀ s s', R s s' → f s = f s') : Blind R (modify f >>= g) := by
  intro s s' h
  show Agree R (g ⟨⟩ (f s)) (g ⟨⟩ (f s'))
  rw [hf s s' h]
  exact Agree.refl hR _

end Rules

end Prog
