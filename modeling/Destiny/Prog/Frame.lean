import Mathlib.Logic.Basic

/-!
# Frames and triples of stateful programs

A program is an `EStateM ε σ α`: it returns or it throws, and both leave a state
(`fin`). A `Frame` says what a program may do: `rel` relates the state it starts in to
the state it leaves, and `err` to the errors it throws. Both are closed under sequencing,
so a program keeps a frame (`Keeps`) as soon as its primitive operations do. The usual
frames are an unchanged view of the state (`Frame.same`) and a log that only grows, by
entries of some kind (`Frame.log`); `Frame.both` combines two.

`Triple P x Q E` is the usual pre- and postcondition form.
-/

namespace Prog

variable {ε σ α β γ : Type}

/-- The state a result leaves, returned or thrown. -/
def fin : EStateM.Result ε σ α → σ
  | .ok _ s => s
  | .error _ s => s

@[simp] theorem fin_ok (a : α) (s : σ) : fin (.ok a s : EStateM.Result ε σ α) = s := rfl
@[simp] theorem fin_error (e : ε) (s : σ) : fin (.error e s : EStateM.Result ε σ α) = s := rfl

/-- The error a result ends in, if any. -/
def thrown : EStateM.Result ε σ α → Option ε
  | .ok _ _ => none
  | .error e _ => some e

theorem ok_of_thrown {r : EStateM.Result ε σ Unit} (h : thrown r = none) : r = .ok () (fin r) := by
  cases r with
  | ok _ _ => rfl
  | error _ _ => cases h

/-- The value a result returns, if any. -/
def returned : EStateM.Result ε σ α → Option α
  | .ok a _ => some a
  | .error _ _ => none

theorem ok_of_returned {r : EStateM.Result ε σ α} {a : α} (h : returned r = some a) :
    r = .ok a (fin r) := by
  cases r with
  | ok b _ =>
    cases h
    rfl
  | error _ _ => cases h

theorem bind_apply (x : EStateM ε σ α) (f : α → EStateM ε σ β) (s : σ) :
    (x >>= f) s = match x s with
      | .ok a s' => f a s'
      | .error e s' => .error e s' := rfl

theorem bind_ok {x : EStateM ε σ α} {f : α → EStateM ε σ β} {s s' : σ} {a : α}
    (h : x s = .ok a s') : (x >>= f) s = f a s' := by
  rw [bind_apply, h]

theorem bind_error {x : EStateM ε σ α} {f : α → EStateM ε σ β} {s s' : σ} {e : ε}
    (h : x s = .error e s') : (x >>= f) s = .error e s' := by
  rw [bind_apply, h]

/-- Inversion of a sequence that returns: both parts return. -/
theorem of_bind_ok {x : EStateM ε σ α} {f : α → EStateM ε σ β} {s s' : σ} {b : β}
    (h : (x >>= f) s = .ok b s') : ∃ a t, x s = .ok a t ∧ f a t = .ok b s' := by
  rw [bind_apply] at h
  cases hx : x s with
  | ok a t => rw [hx] at h; exact ⟨a, t, rfl, h⟩
  | error e t => rw [hx] at h; cases h

/-- Inversion of a sequence that throws: one of its parts throws. -/
theorem of_bind_error {x : EStateM ε σ α} {f : α → EStateM ε σ β} {s s' : σ} {e : ε}
    (h : (x >>= f) s = .error e s') :
    x s = .error e s' ∨ ∃ a t, x s = .ok a t ∧ f a t = .error e s' := by
  rw [bind_apply] at h
  cases hx : x s with
  | ok a t => rw [hx] at h; exact .inr ⟨a, t, rfl, h⟩
  | error e t => rw [hx] at h; cases h; exact .inl rfl

/-- A computation whose value is dropped. -/
theorem fin_bind_pure (x : EStateM ε σ α) (b : β) (s : σ) :
    fin ((x >>= fun _ => pure b) s) = fin (x s) := by
  rw [bind_apply]
  cases x s <;> rfl

/-! ## Frames -/

structure Frame (ε σ : Type) where
  rel : σ → σ → Prop
  err : σ → ε → Prop
  refl : ∀ s, rel s s
  trans : ∀ {a b c}, rel a b → rel b c → rel a c
  /-- An error of a later part is one of the whole. -/
  err_trans : ∀ {a b e}, rel a b → err b e → err a e

/-- A view of the state is unchanged. -/
def Frame.same (v : σ → β) : Frame ε σ where
  rel s s' := v s' = v s
  err _ _ := True
  refl _ := rfl
  trans h1 h2 := h2.trans h1
  err_trans _ h := h

/-- A property of the state is kept. -/
def Frame.inv (I : σ → Prop) : Frame ε σ where
  rel s s' := I s → I s'
  err _ _ := True
  refl _ h := h
  trans h1 h2 h := h2 (h1 h)
  err_trans _ h := h

/-- Where a property of the state holds it is kept, and errors are of some kind. -/
def Frame.safe (I : σ → Prop) (P : ε → Prop) : Frame ε σ where
  rel s s' := I s → I s'
  err s e := I s → P e
  refl _ h := h
  trans h1 h2 h := h2 (h1 h)
  err_trans h he hi := he (h hi)

/-- A log, newest entry first, grows by entries of some kind. -/
def Frame.log (v : σ → List β) (Q : β → Prop) : Frame ε σ where
  rel s s' := ∃ es, v s' = es ++ v s ∧ ∀ e ∈ es, Q e
  err _ _ := True
  refl _ := ⟨[], rfl, by simp⟩
  trans := by
    rintro a b c ⟨es, he, hq⟩ ⟨es', he', hq'⟩
    refine ⟨es' ++ es, by rw [he', he, List.append_assoc], fun e h => ?_⟩
    exact (List.mem_append.mp h).elim (hq' e) (hq e)
  err_trans _ h := h

/-- Both frames at once. -/
def Frame.both (F G : Frame ε σ) : Frame ε σ where
  rel s s' := F.rel s s' ∧ G.rel s s'
  err s e := F.err s e ∧ G.err s e
  refl s := ⟨F.refl s, G.refl s⟩
  trans h1 h2 := ⟨F.trans h1.1 h2.1, G.trans h1.2 h2.2⟩
  err_trans h he := ⟨F.err_trans h.1 he.1, G.err_trans h.2 he.2⟩

/-- What `x` does from `s` is in the frame. -/
structure KeepsAt (F : Frame ε σ) (s : σ) (x : EStateM ε σ α) : Prop where
  rel : F.rel s (fin (x s))
  err : ∀ {e s'}, x s = .error e s' → F.err s e

def Keeps (F : Frame ε σ) (x : EStateM ε σ α) : Prop := ∀ s, KeepsAt F s x

section Rules

variable {F G : Frame ε σ} {s s' : σ}

theorem keepsAt_ok {x : EStateM ε σ α} {a : α} (h : x s = .ok a s') (hr : F.rel s s') :
    KeepsAt F s x where
  rel := by rw [h]; exact hr
  err he := by rw [h] at he; cases he

theorem keepsAt_error {x : EStateM ε σ α} {e : ε} (h : x s = .error e s') (hr : F.rel s s')
    (he : F.err s e) : KeepsAt F s x where
  rel := by rw [h]; exact hr
  err he' := by rw [h] at he'; cases he'; exact he

theorem keeps_pure (a : α) : Keeps F (pure a : EStateM ε σ α) := fun s =>
  keepsAt_ok rfl (F.refl s)

theorem keeps_throw {e : ε} (h : ∀ s, F.err s e) : Keeps F (throw e : EStateM ε σ α) := fun s =>
  keepsAt_error rfl (F.refl s) (h s)

theorem keeps_get : Keeps F (get : EStateM ε σ σ) := fun s => keepsAt_ok rfl (F.refl s)

theorem keeps_modify {f : σ → σ} (h : ∀ s, F.rel s (f s)) :
    Keeps F (modify f : EStateM ε σ PUnit) := fun s => keepsAt_ok rfl (h s)

theorem keeps_modify_at {f : σ → σ} (h : F.rel s (f s)) :
    KeepsAt F s (modify f : EStateM ε σ PUnit) := keepsAt_ok rfl h

theorem Keeps.rel_ok {x : EStateM ε σ α} (h : Keeps F x) {a : α} (hx : x s = .ok a s') :
    F.rel s s' := by
  have hr := (h s).rel
  rwa [hx] at hr

theorem Keeps.rel_error {x : EStateM ε σ α} (h : Keeps F x) {e : ε} (hx : x s = .error e s') :
    F.rel s s' := by
  have hr := (h s).rel
  rwa [hx] at hr

/-- A program that goes on as another one does after a change. -/
theorem KeepsAt.after {x y : EStateM ε σ α} (hy : KeepsAt F s' y) (h : x s = y s')
    (hr : F.rel s s') : KeepsAt F s x where
  rel := by
    rw [h]
    exact F.trans hr hy.rel
  err he := by
    rw [h] at he
    exact F.err_trans hr (hy.err he)

theorem keepsAt_bind {x : EStateM ε σ α} {f : α → EStateM ε σ β} (hx : KeepsAt F s x)
    (hf : ∀ a t, x s = .ok a t → KeepsAt F t (f a)) : KeepsAt F s (x >>= f) := by
  have hr := hx.rel
  cases e : x s with
  | error err t =>
    rw [e] at hr
    exact keepsAt_error (bind_error e) hr (hx.err e)
  | ok a t =>
    rw [e] at hr
    have h := hf a t e
    refine ⟨?_, fun he => ?_⟩
    · rw [bind_ok e]
      exact F.trans hr h.rel
    · rw [bind_ok e] at he
      exact F.err_trans hr (h.err he)

theorem keeps_bind {x : EStateM ε σ α} {f : α → EStateM ε σ β} (hx : Keeps F x)
    (hf : ∀ a, Keeps F (f a)) : Keeps F (x >>= f) := fun s =>
  keepsAt_bind (hx s) fun a t _ => hf a t

theorem keeps_ite {c : Prop} [Decidable c] {x y : EStateM ε σ α} (hx : c → Keeps F x)
    (hy : ¬ c → Keeps F y) : Keeps F (if c then x else y) := by
  split
  · next h => exact hx h
  · next h => exact hy h

theorem keepsAt_ite {c : Prop} [Decidable c] {x y : EStateM ε σ α} (hx : c → KeepsAt F s x)
    (hy : ¬ c → KeepsAt F s y) : KeepsAt F s (if c then x else y) := by
  split
  · next h => exact hx h
  · next h => exact hy h

/-- Where a stronger property holds and is kept, so is the weaker one. -/
theorem keepsAt_inv {I K : σ → Prop} {x : EStateM ε σ α} (hs : I s) (h : KeepsAt (.inv I) s x)
    (hK : ∀ s, I s → K s) : KeepsAt (.inv K) s x :=
  ⟨fun _ => hK _ (h.rel hs), fun _ => trivial⟩

/-- What is kept where the property holds is all that has to be looked at. -/
theorem keepsAt_safe {I : σ → Prop} {P : ε → Prop} {x : EStateM ε σ α}
    (h : I s → KeepsAt (.safe I P) s x) : KeepsAt (.safe I P) s x :=
  ⟨fun hs => (h hs).rel hs, fun he hs => (h hs).err he hs⟩

theorem Keeps.and {x : EStateM ε σ α} (hF : Keeps F x) (hG : Keeps G x) :
    Keeps (F.both G) x := fun s =>
  ⟨⟨(hF s).rel, (hG s).rel⟩, fun he => ⟨(hF s).err he, (hG s).err he⟩⟩

end Rules

/-! ## Triples -/

/-- From a state satisfying `P`, `x` returns in a state satisfying `Q` or throws in one
satisfying `E`. -/
def Triple (P : σ → Prop) (x : EStateM ε σ α) (Q : α → σ → Prop) (E : ε → σ → Prop) : Prop :=
  ∀ s, P s → (∀ a s', x s = .ok a s' → Q a s') ∧ ∀ e s', x s = .error e s' → E e s'

section Triples

variable {P P' : σ → Prop} {E E' : ε → σ → Prop} {Q Q' : α → σ → Prop}

theorem triple_pure {a : α} (h : ∀ s, P s → Q a s) :
    Triple P (pure a : EStateM ε σ α) Q E := fun s hs =>
  ⟨fun _ _ e => by cases e; exact h s hs, fun _ _ e => by cases e⟩

theorem triple_throw {e : ε} (h : ∀ s, P s → E e s) :
    Triple P (throw e : EStateM ε σ α) Q E := fun s hs =>
  ⟨fun _ _ e => (nomatch e), fun _ _ e => by cases e; exact h s hs⟩

theorem triple_modify {f : σ → σ} {Q : PUnit → σ → Prop} (h : ∀ s, P s → Q () (f s)) :
    Triple P (modify f : EStateM ε σ PUnit) Q E := fun s hs =>
  ⟨fun _ _ e => by cases e; exact h s hs, fun _ _ e => by cases e⟩

theorem triple_bind {x : EStateM ε σ α} {f : α → EStateM ε σ β} {R : β → σ → Prop}
    (hx : Triple P x Q E) (hf : ∀ a, Triple (Q a) (f a) R E) : Triple P (x >>= f) R E := by
  intro s hs
  obtain ⟨hok, herr⟩ := hx s hs
  cases e : x s with
  | ok a t => rw [bind_ok e]; exact hf a t (hok a t e)
  | error er t =>
    rw [bind_error e]
    refine ⟨fun _ _ h => (nomatch h), fun _ _ h => ?_⟩
    cases h
    exact herr _ _ e

theorem Triple.conseq {x : EStateM ε σ α} (h : Triple P x Q E) (hP : ∀ s, P' s → P s)
    (hQ : ∀ a s, Q a s → Q' a s) (hE : ∀ e s, E e s → E' e s) : Triple P' x Q' E' := fun s hs =>
  ⟨fun a t e => hQ a t ((h s (hP s hs)).1 a t e), fun a t e => hE a t ((h s (hP s hs)).2 a t e)⟩

/-- A frame carries a precondition that its relation and its errors respect. -/
theorem Keeps.triple {F : Frame ε σ} {x : EStateM ε σ α} (h : Keeps F x)
    (hQ : ∀ s s', P s → F.rel s s' → P s') (hE : ∀ s s' e, P s → F.rel s s' → F.err s e → E e s') :
    Triple P x (fun _ => P) E := fun s hs =>
  ⟨fun a t e => hQ s t hs (by simpa [e] using (h s).rel),
    fun er t e => hE s t er hs (by simpa [e] using (h s).rel) ((h s).err e)⟩

/-- A triple whose two postconditions agree holds of the state `x` leaves. -/
theorem Triple.fin {x : EStateM ε σ α} {R : σ → Prop} (h : Triple P x (fun _ => R) fun _ => R)
    {s : σ} (hs : P s) : R (fin (x s)) := by
  obtain ⟨hok, herr⟩ := h s hs
  cases e : x s with
  | ok a t => exact hok a t e
  | error er t => exact herr er t e

end Triples

end Prog
