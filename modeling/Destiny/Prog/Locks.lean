import Destiny.Prog.Runs
import Mathlib.Logic.Function.Basic
import Mathlib.Logic.Relation

/-!
# Threads and mutexes

A thread runs passes one after another: a pass is a list of statements, which lock a mutex,
unlock one, or act on what the threads share. An act gives the statements to run next, so that
loops and branches unfold as they run. A thread that waits for a mutex stays where it is.

A discipline (`Runs`) says in which order mutexes are taken, and what an act needs to hold. When
all passes keep to one, no thread takes a mutex twice, only holders unlock, passes end without a
mutex, and no threads wait for each other in a circle (`Config.Kept.safe`).
-/

namespace Prog

inductive Stmt (M A : Type) where
  | lock (m : M)
  | unlock (m : M)
  | act (a : A)

/-- What threads do: the pass each begins, and what acts do to the shared state. The choice
stands for everything else the thread depends on. -/
structure Threads (T M A X ε σ : Type) where
  body : T → X → σ → List (Stmt M A)
  perform : T → A → X → EStateM ε σ (List (Stmt M A))

/-- What is shared, who holds each mutex, and what each thread has left of its pass. -/
structure Config (T M A σ : Type) where
  shared : σ
  owner : M → Option T
  rest : T → List (Stmt M A)

/-- Nobody runs. -/
def Config.start {T M A σ : Type} (s : σ) : Config T M A σ := ⟨s, fun _ => none, fun _ => []⟩

variable {T M A X ε σ : Type}

section Goto
variable [DecidableEq T]

/-- The thread goes on with the given statements. -/
def Config.goto (w : Config T M A σ) (t : T) (k : List (Stmt M A)) : Config T M A σ :=
  { w with rest := Function.update w.rest t k }

variable {w : Config T M A σ} {t : T} {k : List (Stmt M A)}

@[simp] theorem goto_rest (w : Config T M A σ) (t : T) (k : List (Stmt M A)) :
    (w.goto t k).rest t = k := Function.update_self ..

@[simp] theorem goto_rest_ne {u : T} (h : u ≠ t) : (w.goto t k).rest u = w.rest u :=
  Function.update_of_ne h ..

@[simp] theorem goto_owner : (w.goto t k).owner = w.owner := rfl

@[simp] theorem goto_shared : (w.goto t k).shared = w.shared := rfl

end Goto

section Own
variable [DecidableEq M]

def Config.own (w : Config T M A σ) (m : M) (o : Option T) : Config T M A σ :=
  { w with owner := Function.update w.owner m o }

variable {w : Config T M A σ} {m n : M} {o : Option T}

@[simp] theorem own_rest : (w.own m o).rest = w.rest := rfl

@[simp] theorem own_shared : (w.own m o).shared = w.shared := rfl

@[simp] theorem own_owner : (w.own m o).owner m = o := Function.update_self ..

@[simp] theorem own_owner_ne (h : n ≠ m) : (w.own m o).owner n = w.owner n :=
  Function.update_of_ne h ..

end Own

section Step
variable [DecidableEq T] [DecidableEq M] {Θ : Threads T M A X ε σ}

/-- One statement of a thread, or the beginning of its next pass. -/
def Threads.step (Θ : Threads T M A X ε σ) (i : T × X) : EStateM ε (Config T M A σ) Unit := fun w =>
  match w.rest i.1 with
  | [] => .ok () (w.goto i.1 (Θ.body i.1 i.2 w.shared))
  | .lock m :: k => .ok () (if w.owner m = none then (w.goto i.1 k).own m (some i.1) else w)
  | .unlock m :: k => .ok () ((w.goto i.1 k).own m none)
  | .act a :: k =>
    match Θ.perform i.1 a i.2 w.shared with
    | .ok ss s => .ok () { w.goto i.1 (ss ++ k) with shared := s }
    | .error e s => .error e { w with shared := s }

/-- A thread waits for a mutex that another holds. -/
def Config.Waits (w : Config T M A σ) (t u : T) : Prop :=
  ∃ m k, w.rest t = .lock m :: k ∧ w.owner m = some u

/-- Mutexes are used as they should be. -/
structure Config.Safe (w : Config T M A σ) : Prop where
  relock : ∀ t m k, w.rest t = .lock m :: k → w.owner m ≠ some t
  holder : ∀ t m k, w.rest t = .unlock m :: k → w.owner m = some t
  released : ∀ t, w.rest t = [] → ∀ m, w.owner m ≠ some t
  acyclic : ∀ t, ¬ Relation.TransGen w.Waits t t

/-! ## Steps -/

variable {w w' : Config T M A σ} {t : T} {x : X} {m : M} {a : A} {k : List (Stmt M A)}

/-- What a step that returns does. -/
inductive Threads.Move (Θ : Threads T M A X ε σ) (t : T) (x : X) (w : Config T M A σ) :
    Config T M A σ → Prop
  | begin (h : w.rest t = []) : Move Θ t x w (w.goto t (Θ.body t x w.shared))
  | lock {m : M} {k : List (Stmt M A)} (h : w.rest t = .lock m :: k) (hm : w.owner m = none) :
      Move Θ t x w ((w.goto t k).own m (some t))
  | wait {m : M} {k : List (Stmt M A)} (h : w.rest t = .lock m :: k) (hm : w.owner m ≠ none) :
      Move Θ t x w w
  | unlock {m : M} {k : List (Stmt M A)} (h : w.rest t = .unlock m :: k) :
      Move Θ t x w ((w.goto t k).own m none)
  | act {a : A} {k ss : List (Stmt M A)} {s : σ} (h : w.rest t = .act a :: k)
      (hp : Θ.perform t a x w.shared = .ok ss s) :
      Move Θ t x w { w.goto t (ss ++ k) with shared := s }

theorem step_ok (h : Θ.step (t, x) w = .ok () w') : Θ.Move t x w w' := by
  unfold Threads.step at h
  split at h
  · next hr =>
    cases h
    exact .begin hr
  · next m k hr =>
    cases h
    split
    · next hm => exact .lock hr hm
    · next hm => exact .wait hr hm
  · next hr =>
    cases h
    exact .unlock hr
  · next a k hr =>
    split at h
    · next ss s hp =>
      cases h
      exact .act hr hp
    · cases h

/-- A step throws what an act throws. -/
theorem step_error {e : ε} (h : Θ.step (t, x) w = .error e w') :
    ∃ a k s, w.rest t = .act a :: k ∧ Θ.perform t a x w.shared = .error e s ∧
      w' = { w with shared := s } := by
  unfold Threads.step at h
  split at h
  · cases h
  · cases h
  · cases h
  · next a k hr =>
    split at h
    · cases h
    · next s hp =>
      cases h
      exact ⟨a, k, s, hr, hp, rfl⟩

theorem step_act (h : w.rest t = .act a :: k) : Θ.step (t, x) w =
    match Θ.perform t a x w.shared with
    | .ok ss s => .ok () { w.goto t (ss ++ k) with shared := s }
    | .error e s => .error e { w with shared := s } := by
  unfold Threads.step
  rw [h]

/-! ## Discipline -/

variable {rank : M → Nat} {req : A → List M → Prop} {held : List M}

/-- Statements that, begun with the given mutexes held, take each mutex above those they hold,
unlock only what they hold, act only where they may, and end with none. -/
def Runs (rank : M → Nat) (req : A → List M → Prop) : List M → List (Stmt M A) → Prop
  | held, [] => held = []
  | held, .lock m :: k => (∀ n ∈ held, rank n < rank m) ∧ Runs rank req (m :: held) k
  | held, .unlock m :: k => m ∈ held ∧ Runs rank req (held.erase m) k
  | held, .act a :: k => req a held ∧ Runs rank req held k

/-- Passes that keep to a discipline, and acts that go on within it. -/
structure Threads.Disciplined (Θ : Threads T M A X ε σ) (rank : M → Nat)
    (req : A → List M → Prop) : Prop where
  body : ∀ t x s, Runs rank req [] (Θ.body t x s)
  perform : ∀ {t a x s ss s' held k}, req a held → Θ.perform t a x s = .ok ss s' →
    Runs rank req held k → Runs rank req held (ss ++ k)

/-- The mutexes a thread holds let it run the rest of its pass. -/
def Config.Holds (w : Config T M A σ) (rank : M → Nat) (req : A → List M → Prop) (t : T)
    (held : List M) : Prop :=
  held.Nodup ∧ Runs rank req held (w.rest t) ∧ ∀ m, m ∈ held ↔ w.owner m = some t

/-- Every thread keeps to the discipline. -/
def Config.Kept (w : Config T M A σ) (rank : M → Nat) (req : A → List M → Prop) : Prop :=
  ∀ t, ∃ held, w.Holds rank req t held

omit [DecidableEq T] in
theorem kept_start (s : σ) : (Config.start s : Config T M A σ).Kept rank req := fun _ =>
  ⟨[], List.nodup_nil, rfl, fun _ => by simp [Config.start]⟩

/-- Another thread's step leaves a thread where it is. -/
theorem Threads.Move.rest_other (hm : Θ.Move t x w w') {u : T} (hu : u ≠ t) :
    w'.rest u = w.rest u := by
  cases hm with
  | wait => rfl
  | begin | lock | unlock | act => exact goto_rest_ne hu

/-- A thread that unlocks what it holds leaves the others what they hold. -/
theorem Threads.Move.owner_other (hm : Θ.Move t x w w')
    (hholder : ∀ m k, w.rest t = .unlock m :: k → w.owner m = some t) {u : T} (hu : u ≠ t) (n : M) :
    w'.owner n = some u ↔ w.owner n = some u := by
  cases hm with
  | begin | wait | act => rfl
  | @lock m k hr hfree =>
    by_cases hn : n = m
    · subst hn
      simp [hfree, Ne.symm hu]
    · simp [hn]
  | @unlock m k hr =>
    by_cases hn : n = m
    · subst hn
      simp [hholder n k hr, Ne.symm hu]
    · simp [hn]

omit [DecidableEq T] in
theorem Config.Holds.holder (h : w.Holds rank req t held) (hr : w.rest t = .unlock m :: k) :
    w.owner m = some t := by
  obtain ⟨-, hruns, hown⟩ := h
  rw [hr] at hruns
  exact (hown m).mp hruns.1

/-- A thread's own step takes it along its discipline. -/
theorem Config.Holds.step (hΘ : Θ.Disciplined rank req) (h : w.Holds rank req t held)
    (hm : Θ.Move t x w w') : ∃ held', w'.Holds rank req t held' := by
  obtain ⟨hnodup, hruns, hown⟩ := h
  cases hm with
  | begin hr =>
    rw [hr] at hruns
    obtain rfl : held = [] := hruns
    exact ⟨[], List.nodup_nil, by simpa using hΘ.body t x w.shared, hown⟩
  | @lock m k hr hfree =>
    rw [hr] at hruns
    obtain ⟨hrank, hruns⟩ := hruns
    have hnew : m ∉ held := fun hmem => absurd (hrank m hmem) (Nat.lt_irrefl _)
    refine ⟨m :: held, List.nodup_cons.mpr ⟨hnew, hnodup⟩, by simpa using hruns, fun n => ?_⟩
    by_cases hn : n = m
    · simp [hn]
    · simp [hn, hown]
  | wait hr hm => exact ⟨held, hnodup, hruns, hown⟩
  | @unlock m k hr =>
    rw [hr] at hruns
    refine ⟨held.erase m, hnodup.erase m, by simpa using hruns.2, fun n => ?_⟩
    rw [hnodup.mem_erase_iff, hown]
    by_cases hn : n = m
    · simp [hn]
    · simp [hn]
  | @act a k ss s hr hp =>
    rw [hr] at hruns
    refine ⟨held, hnodup, ?_, hown⟩
    show Runs rank req held ((w.goto t (ss ++ k)).rest t)
    rw [goto_rest]
    exact hΘ.perform hruns.1 hp hruns.2

theorem Config.Kept.step (hΘ : Θ.Disciplined rank req) (h : w.Kept rank req)
    (hm : Θ.Move t x w w') : w'.Kept rank req := by
  obtain ⟨held, hheld⟩ := h t
  intro u
  by_cases hu : u = t
  · exact hu ▸ hheld.step hΘ hm
  · obtain ⟨held', hnodup, hruns, hown⟩ := h u
    refine ⟨held', hnodup, (hm.rest_other hu).symm ▸ hruns, fun n => ?_⟩
    exact (hown n).trans (hm.owner_other (fun _ _ => hheld.holder) hu n).symm

omit [DecidableEq T] in
/-- What a thread waits for is above what it holds. -/
theorem Config.Waits.rank_lt (h : w.Kept rank req) {u : T} {n : M} {l : List (Stmt M A)}
    (hw : w.Waits t u) (ht : w.rest t = .lock m :: k) (hu : w.rest u = .lock n :: l) :
    rank m < rank n := by
  obtain ⟨held, -, hruns, hown⟩ := h u
  obtain ⟨m', k', hr, hm⟩ := hw
  rw [ht] at hr
  cases hr
  rw [hu] at hruns
  exact hruns.1 m ((hown m).mpr hm)

omit [DecidableEq T] in
/-- Along a chain of waiting threads the mutexes they wait for rise. -/
theorem waits_rank_lt (h : w.Kept rank req) {u : T} {n : M} {l : List (Stmt M A)}
    (hw : Relation.TransGen w.Waits t u) (ht : w.rest t = .lock m :: k)
    (hu : w.rest u = .lock n :: l) : rank m < rank n := by
  induction hw generalizing n l with
  | single hw => exact hw.rank_lt h ht hu
  | tail _ hw ih =>
    obtain ⟨m', k', hr, -⟩ := id hw
    exact Nat.lt_trans (ih hr) (hw.rank_lt h hr hu)

omit [DecidableEq T] in
/-- **Threads that keep to a discipline use their mutexes safely.** -/
theorem Config.Kept.safe (h : w.Kept rank req) : w.Safe where
  relock t m k hr hm := by
    obtain ⟨held, -, hruns, hown⟩ := h t
    rw [hr] at hruns
    exact Nat.lt_irrefl _ (hruns.1 m ((hown m).mpr hm))
  holder t m k hr := by
    obtain ⟨held, hheld⟩ := h t
    exact hheld.holder hr
  released t hr m hm := by
    obtain ⟨held, -, hruns, hown⟩ := h t
    rw [hr] at hruns
    have hempty : held = [] := hruns
    have hmem := (hown m).mpr hm
    rw [hempty] at hmem
    cases hmem
  acyclic t hw := by
    obtain ⟨u, ⟨m, k, hr, -⟩, -⟩ := Relation.TransGen.head'_iff.mp hw
    exact Nat.lt_irrefl _ (waits_rank_lt h hw hr hr)

theorem Config.Kept.fin (hΘ : Θ.Disciplined rank req) (h : w.Kept rank req) (i : T × X) :
    (fin (Θ.step i w)).Kept rank req := by
  obtain ⟨t, x⟩ := i
  cases e : Θ.step (t, x) w with
  | ok _ w' => exact h.step hΘ (step_ok e)
  | error e' w' =>
    obtain ⟨a, k, s, -, -, rfl⟩ := step_error e
    exact h

theorem kept_of_disciplined (hΘ : Θ.Disciplined rank req) (s : σ) (is : List (T × X)) :
    Always Θ.step (·.Kept rank req) (Config.start s) is :=
  always_of_along (C := fun _ _ => True) (fun _ i h _ => h.fin hΘ i) (kept_start s)
    (along_true _ is)

end Step

end Prog
