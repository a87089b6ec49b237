import Destiny.Prog.Frame

/-!
# Runs

`run exec is` performs the steps `is` in order; a throw ends it. `Along C s is` says
that every step the run from `s` takes meets `C` in the state it is taken in, and
`Always I s is` that `I` holds in every state the run passes through, the one a throw
leaves included. `always_of_along` is the invariant rule; `always_iff_along` is the
exact form, for a condition that is necessary at every single step.
-/

namespace Prog

variable {ε σ ι : Type} (exec : ι → EStateM ε σ Unit)

/-- The steps one after another. -/
def run : List ι → EStateM ε σ Unit
  | [] => pure ()
  | i :: is => exec i >>= fun _ => run is

/-- Every step taken meets `C` in the state it starts from. -/
def Along (C : σ → ι → Prop) : σ → List ι → Prop
  | _, [] => True
  | s, i :: is => C s i ∧ ∀ s', exec i s = .ok () s' → Along C s' is

/-- `I` holds in every state passed through. -/
def Always (I : σ → Prop) : σ → List ι → Prop
  | s, [] => I s
  | s, i :: is => I s ∧ match exec i s with
    | .ok _ s' => Always I s' is
    | .error _ s' => I s'

instance Along.decide {C : σ → ι → Prop} [∀ s i, Decidable (C s i)] :
    ∀ s is, Decidable (Along exec C s is)
  | _, [] => .isTrue trivial
  | s, i :: is =>
    match h : exec i s with
    | .ok () t =>
      haveI := Along.decide (C := C) t is
      decidable_of_iff (C s i ∧ Along exec C t is) (by simp [Along, h])
    | .error _ t => decidable_of_iff (C s i) (by simp [Along, h])

instance Always.decide {I : σ → Prop} [DecidablePred I] : ∀ s is, Decidable (Always exec I s is)
  | s, [] => inferInstanceAs (Decidable (I s))
  | s, i :: is =>
    match h : exec i s with
    | .ok () t =>
      haveI := Always.decide (I := I) t is
      decidable_of_iff (I s ∧ Always exec I t is) (by simp [Always, h])
    | .error _ t => decidable_of_iff (I s ∧ I t) (by simp [Always, h])

variable {exec} {I : σ → Prop} {C : σ → ι → Prop}

theorem run_nil (s : σ) : run exec [] s = .ok () s := rfl

theorem run_cons_ok {i : ι} {is : List ι} {s s' : σ} (h : exec i s = .ok () s') :
    run exec (i :: is) s = run exec is s' := bind_ok h

theorem run_cons_error {i : ι} {is : List ι} {s s' : σ} {e : ε} (h : exec i s = .error e s') :
    run exec (i :: is) s = .error e s' := bind_error h

/-- The last step of a run is taken in the state the steps before it leave. -/
theorem run_append_ok {is js : List ι} {s s' : σ} (h : run exec is s = .ok () s') :
    run exec (is ++ js) s = run exec js s' := by
  induction is generalizing s with
  | nil => cases h; rfl
  | cons i is ih =>
    obtain ⟨_, t, ht, hr⟩ := of_bind_ok h
    rw [List.cons_append, run_cons_ok ht]
    exact ih hr

theorem along_append {is js : List ι} {s s' : σ} (h : Along exec C s (is ++ js))
    (hr : run exec is s = .ok () s') : Along exec C s' js := by
  induction is generalizing s with
  | nil => cases hr; exact h
  | cons i is ih =>
    obtain ⟨_, t, ht, hr'⟩ := of_bind_ok hr
    exact ih (h.2 t ht) hr'

theorem along_left {is js : List ι} {s : σ} (h : Along exec C s (is ++ js)) :
    Along exec C s is := by
  induction is generalizing s with
  | nil => trivial
  | cons i is ih => exact ⟨h.1, fun t ht => ih (h.2 t ht)⟩

theorem along_true (s : σ) (is : List ι) : Along exec (fun _ _ => True) s is := by
  induction is generalizing s with
  | nil => trivial
  | cons i is ih => exact ⟨trivial, fun t _ => ih t⟩

theorem Along.and {D : σ → ι → Prop} {is : List ι} {s : σ} (h : Along exec C s is)
    (h' : Along exec D s is) : Along exec (fun s i => C s i ∧ D s i) s is := by
  induction is generalizing s with
  | nil => trivial
  | cons i is ih => exact ⟨⟨h.1, h'.1⟩, fun t ht => ih (h.2 t ht) (h'.2 t ht)⟩

/-- **The invariant rule.** -/
theorem always_of_along (hstep : ∀ s i, I s → C s i → I (fin (exec i s))) :
    ∀ {is : List ι} {s : σ}, I s → Along exec C s is → Always exec I s is
  | [], _, hs, _ => hs
  | i :: is, s, hs, hc => by
    have hi := hstep s i hs hc.1
    refine ⟨hs, ?_⟩
    cases e : exec i s with
    | ok a t => rw [e] at hi; exact always_of_along hstep hi (hc.2 t e)
    | error _ t => rw [e] at hi; exact hi

theorem Always.mono {K : σ → Prop} (h : ∀ s, I s → K s) :
    ∀ {is : List ι} {s : σ}, Always exec I s is → Always exec K s is
  | [], _, hs => h _ hs
  | i :: is, s, hs => by
    refine ⟨h s hs.1, ?_⟩
    have h2 := hs.2
    cases e : exec i s with
    | ok a t => rw [e] at h2; exact h2.mono h
    | error _ t => rw [e] at h2; exact h t h2

/-- A run starts in a state it passes through. -/
theorem Always.head : ∀ {is : List ι} {s : σ}, Always exec I s is → I s
  | [], _, h => h
  | _ :: _, _, h => h.1

/-- **The exact rule.** Beside an invariant `J` of every step, let a step from a state
satisfying `I` keep `I` just when it meets `C`. Then a run stays in `I` just when each of
its steps meets `C`. -/
theorem always_iff_along {J : σ → Prop} (hJ : ∀ s i, J s → J (fin (exec i s)))
    (hstep : ∀ s i, J s → I s → (I (fin (exec i s)) ↔ C s i)) {is : List ι} {s : σ} (hj : J s)
    (hs : I s) : Always exec I s is ↔ Along exec C s is := by
  refine ⟨fun h => ?_, fun h => ?_⟩
  · induction is generalizing s with
    | nil => trivial
    | cons i is ih =>
      have h2 := h.2
      have hj' := hJ s i hj
      cases e : exec i s with
      | ok a t =>
        rw [e] at h2 hj'
        refine ⟨(hstep s i hj hs).1 (by rw [e]; exact h2.head), fun t' e' => ?_⟩
        rw [e] at e'
        cases e'
        exact ih hj' h2.head h2
      | error _ t =>
        rw [e] at h2
        exact ⟨(hstep s i hj hs).1 (by rw [e]; exact h2), fun t' e' => by rw [e] at e'; cases e'⟩
  · have hboth : Always exec (fun s => J s ∧ I s) s is :=
      always_of_along (fun s i hi hc => ⟨hJ s i hi.1, (hstep s i hi.1 hi.2).2 hc⟩) ⟨hj, hs⟩ h
    exact hboth.mono fun _ hi => hi.2

/-- The exact rule for a run that returns, where only the steps that return are looked at. -/
theorem always_iff_along_of_ok {J : σ → Prop} (hJ : ∀ s i, J s → J (fin (exec i s)))
    (hstep : ∀ s i t, J s → I s → exec i s = .ok () t → (I t ↔ C s i)) {is : List ι} {s s' : σ}
    (hj : J s) (hs : I s) (hr : run exec is s = .ok () s') :
    Always exec I s is ↔ Along exec C s is := by
  induction is generalizing s with
  | nil => exact iff_of_true hs trivial
  | cons i is ih =>
    obtain ⟨_, t, ht, hr⟩ := of_bind_ok hr
    have hj' := hJ s i hj
    rw [ht] at hj'
    have hhead := hstep s i t hj hs ht
    show (I s ∧ match exec i s with | .ok _ s' => _ | .error _ s' => _) ↔ _
    rw [ht]
    constructor
    · rintro ⟨-, h⟩
      refine ⟨hhead.mp h.head, fun t' ht' => ?_⟩
      rw [ht] at ht'
      cases ht'
      exact (ih hj' h.head hr).mp h
    · rintro ⟨hc, h⟩
      exact ⟨hs, (ih hj' (hhead.mpr hc) hr).mpr (h t ht)⟩

/-- A condition that follows from another in the states that the other keeps the run in. -/
theorem Along.imp_ok {D : σ → ι → Prop} {is : List ι} {s : σ} (hc : Along exec C s is)
    (hinv : ∀ s i t, I s → C s i → exec i s = .ok () t → I t)
    (h : ∀ s i, I s → C s i → D s i) (hs : I s) : Along exec D s is := by
  induction is generalizing s with
  | nil => trivial
  | cons i is ih => exact ⟨h s i hs hc.1, fun t ht => ih (hc.2 t ht) (hinv s i t hs hc.1 ht)⟩

theorem Along.imp {D : σ → ι → Prop} {is : List ι} {s : σ} (hc : Along exec C s is)
    (hinv : ∀ s i, I s → C s i → I (fin (exec i s))) (h : ∀ s i, I s → C s i → D s i) (hs : I s) :
    Along exec D s is := by
  refine hc.imp_ok (fun s i t hs hc ht => ?_) h hs
  have hi := hinv s i hs hc
  rwa [ht] at hi

/-- Two conditions that agree on the steps of a run that returns. -/
theorem along_congr_of_ok {D : σ → ι → Prop}
    (hstep : ∀ s i t, I s → exec i s = .ok () t → I t ∧ (C s i ↔ D s i)) {is : List ι} {s s' : σ}
    (hs : I s) (hr : run exec is s = .ok () s') : Along exec C s is ↔ Along exec D s is := by
  induction is generalizing s with
  | nil => rfl
  | cons i is ih =>
    obtain ⟨_, t, ht, hr⟩ := of_bind_ok hr
    obtain ⟨hi, hcd⟩ := hstep s i t hs ht
    have hrest : ∀ u, exec i s = .ok () u → (Along exec C u is ↔ Along exec D u is) := fun u hu => by
      rw [ht] at hu
      cases hu
      exact ih hi hr
    exact and_congr hcd (forall_congr' fun u => forall_congr' fun hu => hrest u hu)

/-- The state a run leaves is one it passes through. -/
theorem Always.fin : ∀ {is : List ι} {s : σ}, Always exec I s is → I (fin (run exec is s))
  | [], _, h => h
  | i :: is, s, h => by
    have h2 := h.2
    cases e : exec i s with
    | ok a t => rw [e] at h2; rw [run_cons_ok e]; exact h2.fin
    | error _ t => rw [e] at h2; rw [run_cons_error e]; exact h2

/-- What a run throws, one of its steps throws. -/
theorem run_error {P : ε → Prop} (hstep : ∀ s i, I s → C s i → I (Prog.fin (exec i s)))
    (herr : ∀ s i e s', I s → C s i → exec i s = .error e s' → P e) {is : List ι} {s s' : σ} {e : ε}
    (hs : I s) (hc : Along exec C s is) (hr : run exec is s = .error e s') : P e := by
  induction is generalizing s with
  | nil => cases hr
  | cons i is ih =>
    have hi := hstep s i hs hc.1
    cases h : exec i s with
    | ok a t =>
      rw [h] at hi
      rw [run_cons_ok h] at hr
      exact ih hi (hc.2 t h) hr
    | error e' t =>
      rw [run_cons_error h] at hr
      cases hr
      exact herr s i e s' hs hc.1 h

/-- The invariant rule at the state a run leaves. -/
theorem run_invariant (hstep : ∀ s i, I s → C s i → I (Prog.fin (exec i s))) {is : List ι} {s : σ}
    (hs : I s) (hc : Along exec C s is) : I (Prog.fin (run exec is s)) :=
  (always_of_along hstep hs hc).fin

theorem run_invariant_ok (hstep : ∀ s i, I s → C s i → I (Prog.fin (exec i s))) {is : List ι}
    {s s' : σ} (hs : I s) (hc : Along exec C s is) (hr : run exec is s = .ok () s') : I s' := by
  have := run_invariant hstep hs hc
  rw [hr] at this
  exact this

/-- The invariant rule for the steps that return. -/
theorem run_keeps (hstep : ∀ s i t, I s → C s i → exec i s = .ok () t → I t) {is : List ι}
    {s s' : σ} (hs : I s) (hc : Along exec C s is) (hr : run exec is s = .ok () s') : I s' := by
  induction is generalizing s with
  | nil =>
    cases hr
    exact hs
  | cons i is ih =>
    obtain ⟨_, t, ht, hr⟩ := of_bind_ok hr
    exact ih (hstep s i t hs hc.1 ht) (hc.2 t ht) hr

/-! ## Ghosts -/

variable {γ : Type} {upd : σ → γ → ι → γ}

/-- The steps with a value beside the state that follows them and that no step looks at. -/
def ghost (exec : ι → EStateM ε σ Unit) (upd : σ → γ → ι → γ) (i : ι) : EStateM ε (σ × γ) Unit :=
  fun h =>
    match exec i h.1 with
    | .ok _ t => .ok () (t, upd h.1 h.2 i)
    | .error e t => .error e (t, h.2)

theorem ghost_of_ok {i : ι} {s t : σ} (h : exec i s = .ok () t) (g : γ) :
    ghost exec upd i (s, g) = .ok () (t, upd s g i) := by
  unfold ghost
  rw [h]

theorem ghost_ok {i : ι} {h h' : σ × γ} (hr : ghost exec upd i h = .ok () h') :
    exec i h.1 = .ok () h'.1 ∧ h'.2 = upd h.1 h.2 i := by
  unfold ghost at hr
  cases e : exec i h.1 with
  | ok _ t =>
    rw [e] at hr
    cases hr
    exact ⟨rfl, rfl⟩
  | error _ t =>
    rw [e] at hr
    cases hr

theorem run_ghost (upd : σ → γ → ι → γ) {is : List ι} {s t : σ} (h : run exec is s = .ok () t) (g : γ) :
    ∃ g', run (ghost exec upd) is (s, g) = .ok () (t, g') := by
  induction is generalizing s g with
  | nil =>
    cases h
    exact ⟨g, rfl⟩
  | cons i is ih =>
    obtain ⟨_, u, hu, h⟩ := of_bind_ok h
    obtain ⟨g', hg'⟩ := ih h (upd s g i)
    exact ⟨g', (run_cons_ok (ghost_of_ok hu g)).trans hg'⟩

/-- A condition on the state alone. -/
theorem along_ghost (upd : σ → γ → ι → γ) {is : List ι} {s : σ} (g : γ) :
    Along (ghost exec upd) (fun h => C h.1) (s, g) is ↔ Along exec C s is := by
  induction is generalizing s g with
  | nil => rfl
  | cons i is ih =>
    refine and_congr_right fun _ => ⟨fun h t ht => ?_, fun h t ht => ?_⟩
    · exact (ih _).mp (h (t, upd s g i) (ghost_of_ok ht g))
    · obtain ⟨hok, hg⟩ := ghost_ok ht
      have hrest := h t.1 hok
      rw [← ih (upd s g i)] at hrest
      rwa [← hg] at hrest

end Prog
