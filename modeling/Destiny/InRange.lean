import Destiny.Fetched
import Mathlib.Data.Fintype.Defs
import Mathlib.Data.Fintype.Basic

/-!
# The end of the list

Between a worker's size test and its `at(i)` the server thread can erase a client. Where `i` was
the last index, `at` then throws out of the worker; nothing else puts a worker past the end.
-/

namespace Destiny

open Prog

variable {T : Type}

/-- A worker's next statement is `at(i)`. -/
def StandsAt (process : T → Process) (w : Config T Mutex Act Clients) (u : T) (i : Nat) : Prop :=
  process u ≠ .server ∧ ∃ a k, w.rest u = .act a :: k ∧ a.atIndex = some i

/-- No worker stands at the end of the list or past it. -/
def InRange (process : T → Process) (w : Config T Mutex Act Clients) : Prop :=
  ∀ u i, StandsAt process w u i → i < w.shared.clientList.length

/-- Where a client is erased, no worker stands at the last index. -/
def EraseClear (process : T → Process) (w : Config T Mutex Act Clients) (y : T × Choice) : Prop :=
  ∀ j k, w.rest y.1 = .act (.erase j) :: k → ∀ u i, StandsAt process w u i →
    i + 1 ≠ w.shared.clientList.length

/-- The step evaluates `at(i)` within the list. -/
def Evaluates (process : T → Process) (w : Config T Mutex Act Clients) (y : T × Choice) : Prop :=
  ∀ i, StandsAt process w y.1 i → i < w.shared.clientList.length

/-- The index of the `at` that comes next. -/
def nextAt : Code → Option Nat
  | .act a :: _ => a.atIndex
  | _ => none

/-- Whether the erasing of a client comes next. -/
def erases : Code → Bool
  | .act (.erase _) :: _ => true
  | _ => false

theorem nextAt_eq_some {k : Code} {i : Nat} :
    nextAt k = some i ↔ ∃ a l, k = .act a :: l ∧ a.atIndex = some i := by
  rcases k with _ | ⟨m | m | a, k⟩ <;> simp [nextAt]

theorem erases_eq_true {k : Code} : erases k = true ↔ ∃ j l, k = .act (.erase j) :: l := by
  rcases k with _ | ⟨m | m | a, k⟩
  · simp [erases]
  · simp [erases]
  · simp [erases]
  · cases a <;> simp [erases]

theorem eraseClear_iff {process : T → Process} {w : Config T Mutex Act Clients} {y : T × Choice} :
    (erases (w.rest y.1) = true → ∀ u, process u ≠ .server → ∀ i ∈ nextAt (w.rest u),
      i + 1 ≠ w.shared.clientList.length) ↔ EraseClear process w y := by
  simp only [erases_eq_true, Option.mem_def, nextAt_eq_some]
  constructor
  · exact fun h j k hr u i hi => h ⟨j, k, hr⟩ u hi.1 i hi.2
  · exact fun h ⟨j, k, hr⟩ u hu i hi => h j k hr u i ⟨hu, hi⟩

instance EraseClear.decide [Fintype T] (process : T → Process) (w : Config T Mutex Act Clients)
    (y : T × Choice) : Decidable (EraseClear process w y) :=
  decidable_of_iff _ eraseClear_iff

section Steps
variable [DecidableEq T] {process : T → Process} {w w' : Config T Mutex Act Clients} {t u : T}
  {x : Choice} {g : T → List Ptr} {i : Nat}

theorem standsAt_other (hm : (threads process).Move t x w w') (hu : u ≠ t) :
    StandsAt process w' u i ↔ StandsAt process w u i := by
  unfold StandsAt
  rw [hm.rest_other hu]

/-- A worker goes to an `at(i)` from a size test only. -/
theorem Guarded.self_inRange (h : Guarded process (w, g)) (hw : InRange process w)
    (hm : (threads process).Move t x w w') (hi : StandsAt process w' t i) :
    i < w.shared.clientList.length := by
  obtain ⟨ht, b, l, hb, hi⟩ := hi
  have hworking : Working (w.rest t) (g t) := h.working t ht
  have hnone : ∀ c : Act, c.atIndex = none → c = b → False := fun c hc hcb => by
    rw [hcb, hi] at hc
    cases hc
  have htail : ∀ {st k}, w.rest t = st :: k → k = .act b :: l → False := fun {st k} hr hk => by
    rw [hr, hk] at hworking
    exact hnone b (hworking.first b List.mem_cons_self) rfl
  cases hm with
  | begin hr =>
    rw [goto_rest] at hb
    have hb : (process t).pass w.shared x = .act b :: l := hb
    exact (hnone b (pass_acts ht (hb ▸ List.mem_cons_self)).2.2 rfl).elim
  | lock hr hfree =>
    rw [own_rest, goto_rest] at hb
    exact (htail hr hb).elim
  | wait hr => exact hw t i ⟨ht, b, l, hb, hi⟩
  | unlock hr =>
    rw [own_rest, goto_rest] at hb
    exact (htail hr hb).elim
  | @act a k ss s' hr hp =>
    have hb : (w.goto t (ss ++ k)).rest t = .act b :: l := hb
    rw [goto_rest] at hb
    rw [hr] at hworking
    have ha : a.worker = true := hworking.worker a List.mem_cons_self
    have hdoes := ((perform_does hp).workerDoes ha).2
    cases ss with
    | nil => exact (htail hr hb).elim
    | cons st ss =>
      cases hb
      exact hdoes.range b ss rfl i hi

theorem Guarded.worker_inRange (h : Guarded process (w, g)) (hw : InRange process w)
    (ht : process t ≠ .server) (hm : (threads process).Move t x w w') : InRange process w' := by
  intro u i hi
  rw [(h.worker_self ht hm).1]
  by_cases hu : u = t
  · exact h.self_inRange hw hm (hu ▸ hi)
  · exact hw u i ((standsAt_other hm hu).mp hi)

omit [DecidableEq T] in
/-- A worker does not erase. -/
theorem Guarded.worker_clear (h : Guarded process (w, g)) (ht : process t ≠ .server) :
    EraseClear process w (t, x) := by
  intro j k hr
  have hworking : Working (w.rest t) (g t) := h.working t ht
  have hr : w.rest t = .act (.erase j) :: k := hr
  rw [hr] at hworking
  cases hworking.worker _ List.mem_cons_self

/-- The server thread's step, at its effect on the list's length. -/
theorem Guarded.server_inRange (h : Guarded process (w, g)) (hw : InRange process w)
    (ht : process t = .server) (hm : (threads process).Move t x w w') :
    InRange process w' ↔ EraseClear process w (t, x) := by
  have hother : ∀ u i, StandsAt process w' u i ↔ StandsAt process w u i := fun u i => by
    by_cases hu : u = t
    · exact iff_of_false (fun hi => hi.1 (hu ▸ ht)) fun hi => hi.1 (hu ▸ ht)
    · exact standsAt_other hm hu
  have hmore : w.shared.clientList.length ≤ w'.shared.clientList.length → InRange process w' :=
    fun hlen u i hi => Nat.lt_of_lt_of_le (hw u i ((hother u i).mp hi)) hlen
  have hclear : (∀ j k, w.rest t ≠ .act (.erase j) :: k) → EraseClear process w (t, x) :=
    fun hne j k hr => absurd hr (hne j k)
  cases hm with
  | begin hr => exact iff_of_true (hmore (Nat.le_refl _)) (hclear (by simp [hr]))
  | lock hr hfree => exact iff_of_true (hmore (Nat.le_refl _)) (hclear (by simp [hr]))
  | wait hr hm => exact iff_of_true hw (hclear (by simp [hr]))
  | unlock hr => exact iff_of_true (hmore (Nat.le_refl _)) (hclear (by simp [hr]))
  | @act a k ss s' hr hp =>
    have hserver : ServerAt w.shared (w.rest t) := h.server t ht
    have hsound : w.shared.Sound := h.sound
    rw [hr] at hserver
    have hdoes := perform_does hp
    by_cases ha : ∃ j, a = .erase j
    · obtain ⟨j, rfl⟩ := ha
      cases hserver with
      | @erase c _ hc =>
        cases hdoes
        have hj : j < w.shared.clientList.length := (List.getElem?_eq_some_iff.mp hc).1
        have hlen : (w.shared.clientList.eraseIdx j).length + 1 = w.shared.clientList.length := by
          rw [List.length_eraseIdx_of_lt hj]
          omega
        constructor
        · intro hw' j' k' _ u i hi hlast
          have hlt : i < (w.shared.clientList.eraseIdx j).length := hw' u i ((hother u i).mpr hi)
          omega
        · intro hclear u i hi
          have hi := (hother u i).mp hi
          have hlt : i < w.shared.clientList.length := hw u i hi
          have hlast := hclear j _ hr u i hi
          show i < (w.shared.clientList.eraseIdx j).length
          omega
    · have hne : ∀ j, a ≠ .erase j := fun j hj => ha ⟨j, hj⟩
      exact iff_of_true (hmore ((hserver.act hsound hdoes).length hne))
        (hclear fun j k' hr' => hne j (by rw [hr] at hr'; cases hr'; rfl))

theorem Config.Guarded.inRange (h : Config.Guarded process w) (hw : InRange process w)
    (y : T × Choice) : InRange process (Prog.fin ((threads process).step y w)) ↔
      EraseClear process w y := by
  obtain ⟨g, hg⟩ := h
  cases hstep : (threads process).step y w with
  | ok _ w' =>
    have hm := step_ok hstep
    by_cases ht : process y.1 = .server
    · exact hg.server_inRange hw ht hm
    · exact iff_of_true (hg.worker_inRange hw ht hm) (hg.worker_clear ht)
  | error e w' =>
    obtain ⟨-, -, ht, a, k, i, hr, hi, hlen⟩ := hg.error hstep
    exact absurd (hw y.1 i ⟨ht, a, k, hr, hi⟩) (Nat.not_lt.mpr hlen)

end Steps

/-! ## Runs -/

section Runs
variable [DecidableEq T] {process : T → Process} {s : Clients}

omit [DecidableEq T] in
theorem inRange_start (process : T → Process) (s : Clients) :
    InRange process (Config.start s) := by
  rintro u i ⟨-, a, k, hr, -⟩
  cases hr

/-- **Workers stay within the list** in the runs that erase no client while a worker stands at
the last index, and in no others; and in those runs no `at(i)` throws. -/
theorem inRange_iff (hone : OneServer process) (hs : s.Sound) (is : List (T × Choice)) :
    (Always (threads process).step (InRange process) (Config.start s) is ↔
      Along (threads process).step (EraseClear process) (Config.start s) is) ∧
    (Along (threads process).step (EraseClear process) (Config.start s) is →
      Along (threads process).step (Evaluates process) (Config.start s) is ∧
      ∀ w', run (threads process).step is (Config.start s) ≠ .error .outOfRange w') := by
  have hguarded : Config.Guarded process (Config.start s) := ⟨_, guarded_start process hs⟩
  have hfin : ∀ w y, Config.Guarded process w →
      Config.Guarded process (fin ((threads process).step y w)) := fun w y hw => hw.fin hone y
  have hboth : ∀ w y, Config.Guarded process w ∧ InRange process w → EraseClear process w y →
      Config.Guarded process (fin ((threads process).step y w)) ∧
        InRange process (fin ((threads process).step y w)) := fun w y hw hc =>
    ⟨hfin w y hw.1, (hw.1.inRange hw.2 y).mpr hc⟩
  refine ⟨always_iff_along hfin (fun w y hg hw => hg.inRange hw y) hguarded (inRange_start _ _),
    fun hc => ⟨?_, fun w' hr => ?_⟩⟩
  · exact hc.imp hboth (fun w y hw _ i hi => hw.2 y.1 i hi) ⟨hguarded, inRange_start _ _⟩
  · have herr : ∀ w y e w', Config.Guarded process w ∧ InRange process w → EraseClear process w y →
        (threads process).step y w = .error e w' → e ≠ .outOfRange := by
      rintro w y e w' ⟨⟨g, hg⟩, hw⟩ - he
      obtain ⟨-, -, ht, a, k, i, hr, hi, hlen⟩ := hg.error he
      exact absurd (hw y.1 i ⟨ht, a, k, hr, hi⟩) (Nat.not_lt.mpr hlen)
    exact run_error hboth herr ⟨hguarded, inRange_start _ _⟩ hc hr rfl

end Runs

/-- A client that connects, is fetched, and disconnects after that. -/
theorem inRange_iff_mapAndServer :
    OneServer mapAndServer ∧ Clients.empty.Sound ∧ ∀ w', run (threads mapAndServer).step
      [(true, {}), (true, {}), (true, {}), (false, {}), (false, {}), (false, {}), (false, {}),
        (true, { call := .disconnectClient 0 }), (true, {}), (true, {}), (true, {}), (true, {}),
        (false, {}), (false, {}), (false, {})]
      (Config.start .empty) ≠ .error .outOfRange w' :=
  ⟨mapAndServer_one, sound_empty, ((inRange_iff mapAndServer_one sound_empty _).2 (by decide)).2⟩

/-- The worker has found the client's index below the size; the server thread erases the client;
the worker's `at(0)` throws. -/
theorem worker_throws : ¬ ∀ (process : Bool → Process) (s : Clients), OneServer process → s.Sound →
    ∀ is w', run (threads process).step is (Config.start s) ≠ .error .outOfRange w' := fun h =>
  h mapAndServer .empty mapAndServer_one sound_empty
    [(true, {}), (true, {}), (true, {}), (false, {}), (false, {}), (false, {}),
      (true, { call := .disconnectClient 0 }), (true, {}), (true, {}), (true, {}), (true, {}),
      (false, {})] _ rfl

end Destiny
