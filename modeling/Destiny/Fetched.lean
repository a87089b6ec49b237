import Destiny.Threads

/-!
# Fetched clients

A worker fetches clients from the list and uses them under `PlayerMutex`. The server thread
erases a client from the list without a mutex, and deletes it under `PlayerMutex` after that: so
a client that was still in the list when a worker fetched it is not deleted until the worker
releases the mutex. The list can get shorter between a worker's size test and its `at(i)`.
-/

namespace Destiny

open Prog

variable {T : Type} [DecidableEq T]

/-- The clients that a worker's act uses. -/
def Act.clients : Act → List Ptr
  | .mapReady _ p | .playerMovement p | .visReady _ p | .visInGame _ p | .listSize p _
  | .listAt p _ | .listEnd p => [p]
  | .listInGame c p _ | .listOther c p _ => [c, p]
  | _ => []

/-- The index at which a worker's act evaluates `at`. -/
def Act.atIndex : Act → Option Nat
  | .mapAt i | .visAt i | .listAt _ i => some i
  | _ => none

/-- What workers do. -/
def Act.worker : Act → Bool
  | .create | .pushBack _ | .close _ | .findSize _ _ | .findAt _ _ | .erase _ | .delete _
  | .flags _ _ | .offline => false
  | _ => true

/-- The clients each thread has fetched since it last released `PlayerMutex`. -/
def fetching (w : Config T Mutex Act Clients) (g : T → List Ptr) (i : T × Choice) : T → List Ptr :=
  match w.rest i.1 with
  | .act a :: _ =>
    Function.update g i.1 (g i.1 ++ (a.atIndex.bind (w.shared.clientList[·]?)).toList)
  | .unlock .player :: _ => Function.update g i.1 []
  | _ => g

/-- No client that a worker has fetched is deleted. -/
def FetchedLive (process : T → Process) (h : Config T Mutex Act Clients × (T → List Ptr)) : Prop :=
  ∀ t, process t ≠ .server → ∀ p ∈ h.2 t, (h.1.shared.heap p).isSome

/-- The clients of a server between two of its calls. -/
structure Clients.Sound (s : Clients) : Prop where
  live : ∀ p ∈ s.clientList, (s.heap p).isSome
  nodup : s.clientList.Nodup
  below : ∀ p, (s.heap p).isSome → p < s.nextPtr

/-! ## Invariants -/

/-- What a pass has left once `PlayerMutex` is released. -/
def afterPlayer : Code → Code
  | [] => []
  | .unlock .player :: k => k
  | _ :: k => afterPlayer k

/-- What a worker has left of its pass, and the clients it has fetched. -/
structure Working (k : Code) (fetched : List Ptr) : Prop where
  worker : ∀ a, .act a ∈ k → a.worker = true
  uses : ∀ a, .act a ∈ k → ∀ p ∈ a.clients, p ∈ fetched
  after : ∀ a, .act a ∈ afterPlayer k → a.clients = []
  first : ∀ a, .act a ∈ k.tail → a.atIndex = none

/-- What the server thread has left of a call, and what the clients are like there. -/
inductive ServerAt (s : Clients) : Code → Prop
  | idle : ServerAt s []
  | create : ServerAt s [.act .create]
  | pushBack {c : Ptr} (hlive : (s.heap c).isSome) (hnew : c ∉ s.clientList) :
      ServerAt s [.act (.pushBack c)]
  | close {c : Ptr} (hc : c ∈ s.clientList) :
      ServerAt s (.act (.close c) :: .act (.findSize c 0) :: deleteClientSocket c)
  | findSize {c : Ptr} {i : Nat} (hc : c ∈ s.clientList.drop i) :
      ServerAt s (.act (.findSize c i) :: deleteClientSocket c)
  | findAt {c : Ptr} {i : Nat} (hc : c ∈ s.clientList.drop i) :
      ServerAt s (.act (.findAt c i) :: deleteClientSocket c)
  | erase {c : Ptr} {i : Nat} (hc : s.clientList[i]? = some c) :
      ServerAt s (.act (.erase i) :: deleteClientSocket c)
  | lock {c : Ptr} (hc : c ∉ s.clientList) : ServerAt s (deleteClientSocket c)
  | delete {c : Ptr} (hc : c ∉ s.clientList) :
      ServerAt s [.act (.delete c), .unlock .player]
  | unlock : ServerAt s [.unlock .player]
  | flags {c : Ptr} {f : Flags} : ServerAt s [.act (.flags c f)]
  | offline : ServerAt s [.act .offline]

/-- All threads, with the clients the workers have fetched. -/
structure Guarded (process : T → Process) (h : Config T Mutex Act Clients × (T → List Ptr)) :
    Prop where
  kept : h.1.Kept Mutex.rank Act.needs
  sound : h.1.shared.Sound
  server : ∀ t, process t = .server → ServerAt h.1.shared (h.1.rest t)
  working : ∀ t, process t ≠ .server → Working (h.1.rest t) (h.2 t)
  outside : ∀ t, process t ≠ .server → h.1.owner .player ≠ some t → h.2 t = []
  live : FetchedLive process h

variable {process : T → Process} {w w' : Config T Mutex Act Clients} {g : T → List Ptr} {t u : T}
  {x : Choice} {s s' : Clients} {a : Act} {ss k : Code} {l : List Ptr}

/-! ## Workers -/

omit [DecidableEq T] in
theorem afterPlayer_sub (k : Code) {st : Stmt Mutex Act} (h : st ∈ afterPlayer k) : st ∈ k := by
  induction k with
  | nil => cases h
  | cons st' k ih =>
    unfold afterPlayer at h
    split at h
    · cases ‹_ = ([] : Code)›
    · next heq =>
      cases heq
      exact List.mem_cons_of_mem _ h
    · next heq =>
      cases heq
      exact List.mem_cons_of_mem _ (ih h)

/-- What a worker's act goes on with. -/
structure WorkerDoes (s : Clients) (a : Act) (ss : Code) : Prop where
  worker : ∀ b, .act b ∈ ss → b.worker = true
  uses : ∀ b, .act b ∈ ss → ∀ p ∈ b.clients,
    p ∈ a.clients ∨ p ∈ (a.atIndex.bind (s.clientList[·]?)).toList
  after : ∀ k, afterPlayer (ss ++ k) = afterPlayer k
  first : ∀ b, .act b ∈ ss.tail → b.atIndex = none
  range : ∀ b k, ss = .act b :: k → ∀ i ∈ b.atIndex, i < s.clientList.length

theorem WorkerDoes.nil : WorkerDoes s a [] where
  worker _ hb := nomatch hb
  uses _ hb := nomatch hb
  after _ := rfl
  first _ hb := nomatch hb
  range _ _ hb := nomatch hb

theorem WorkerDoes.one {b : Act} (hb : b.worker = true)
    (huses : ∀ p ∈ b.clients, p ∈ a.clients ∨ p ∈ (a.atIndex.bind (s.clientList[·]?)).toList)
    (hrange : ∀ i ∈ b.atIndex, i < s.clientList.length) : WorkerDoes s a [.act b] where
  worker c hc := by
    cases List.mem_singleton.mp hc
    exact hb
  uses c hc := by
    cases List.mem_singleton.mp hc
    exact huses
  after _ := rfl
  first c hc := nomatch hc
  range c k hc := by
    cases hc
    exact hrange

/-- The body of a process's loop. -/
theorem WorkerDoes.body {b d : Act} (hb : b.worker = true) (hd : d.worker = true)
    (hclients : ∀ p ∈ b.clients, p ∈ a.clients) (hnone : d.clients = []) (hbi : b.atIndex = none)
    (hdi : d.atIndex = none) :
    WorkerDoes s a [.lock .main, .act b, .unlock .main, .act d] where
  worker c hc := by
    have hc : c = b ∨ c = d := by simpa using hc
    rcases hc with rfl | rfl
    · exact hb
    · exact hd
  uses c hc p hp := by
    have hc : c = b ∨ c = d := by simpa using hc
    rcases hc with rfl | rfl
    · exact .inl (hclients p hp)
    · rw [hnone] at hp
      cases hp
  after _ := rfl
  first c hc := by
    have hc : c = b ∨ c = d := by simpa using hc
    rcases hc with rfl | rfl
    · exact hbi
    · exact hdi
  range c k hc := by cases hc

theorem Does.workerDoes (h : Does x s a ss s') (ha : a.worker = true) :
    s' = s ∧ WorkerDoes s a ss := by
  have hat : ∀ {p : Ptr} {i : Nat}, s.clientList[i]? = some p →
      p ∈ ((some i).bind (s.clientList[·]?)).toList := fun hp => by simp [hp]
  cases h with
  | mapDone | moveDone | visDone | endDone => exact ⟨rfl, .nil⟩
  | mapMore hi | visMore hi | listMore hi =>
    refine ⟨rfl, .one rfl (fun p hp => .inl hp) fun j hj => ?_⟩
    cases hj
    exact hi
  | mapAt hp | visAt hp =>
    refine ⟨rfl, .one rfl (fun q hq => .inr ?_) fun j hj => nomatch hj⟩
    cases List.mem_singleton.mp hq
    exact hat hp
  | listAt hp =>
    refine ⟨rfl, .one rfl (fun q hq => ?_) fun j hj => nomatch hj⟩
    obtain rfl | hq := List.mem_cons.mp hq
    · exact .inl List.mem_cons_self
    · cases List.mem_singleton.mp hq
      exact .inr (hat hp)
  | mapTake | visTake => exact ⟨rfl, .body rfl rfl (fun p hp => hp) rfl rfl rfl⟩
  | mapSkip | visUnready | visSkip =>
    exact ⟨rfl, .one rfl (fun p hp => nomatch hp) fun j hj => nomatch hj⟩
  | moveMore | visReady | listDone | listTake | otherMore | endMore =>
    exact ⟨rfl, .one rfl (fun p hp => .inl hp) fun j hj => nomatch hj⟩
  | listSkip | otherDone =>
    refine ⟨rfl, .one rfl (fun q hq => .inl ?_) fun j hj => nomatch hj⟩
    cases List.mem_singleton.mp hq
    exact List.mem_cons_self
  | create | pushBack | close | findMore | findDone | found | notFound | erase | delete | flags
  | offline => cases ha

theorem Act.needs_player (ha : a.worker = true) {held : List Mutex} (h : a.needs held) :
    .player ∈ held := by
  cases a with
  | mapSize | mapAt | mapReady | visSize | visAt | visReady | visInGame => exact h.1
  | playerMovement | listSize | listAt | listInGame | listOther | listEnd => exact h
  | create | pushBack | close | findSize | findAt | erase | delete | flags | offline => cases ha

omit [DecidableEq T] in
/-- A worker's act runs under `PlayerMutex`. -/
theorem worker_owns (hk : w.Kept Mutex.rank Act.needs) (hr : w.rest t = .act a :: k)
    (ha : a.worker = true) : w.owner .player = some t := by
  obtain ⟨held, -, hruns, hown⟩ := hk t
  rw [hr] at hruns
  exact (hown .player).mp (a.needs_player ha hruns.1)

theorem pass_acts {q : Process} (hq : q ≠ .server) (h : .act a ∈ q.pass s x) :
    a.worker = true ∧ a.clients = [] ∧ a.atIndex = none := by
  have honline : ∀ k : Code, .act a ∈ (if s.serverOnline then k else []) → .act a ∈ k :=
    fun k hmem => by
      split at hmem
      · exact hmem
      · cases hmem
  cases q with
  | map =>
    have hmem := honline _ h
    obtain rfl : a = .mapSize 0 := by simpa [mapProcess] using hmem
    exact ⟨rfl, rfl, rfl⟩
  | visibility =>
    have hmem := honline _ h
    obtain rfl : a = .visSize 0 := by simpa [visibilityProcess] using hmem
    exact ⟨rfl, rfl, rfl⟩
  | world =>
    have hmem := honline _ h
    simp [worldProcess] at hmem
  | server => exact absurd rfl hq

theorem fetching_ne (h : u ≠ t) : fetching w g (t, x) u = g u := by
  unfold fetching
  dsimp only
  cases w.rest t with
  | nil => rfl
  | cons st k =>
    cases st with
    | lock m => rfl
    | unlock m =>
      cases m with
      | player => exact Function.update_of_ne h ..
      | drop | monster | main => rfl
    | act a => exact Function.update_of_ne h ..

theorem fetching_act (hr : w.rest t = .act a :: k) : fetching w g (t, x) t =
    g t ++ (a.atIndex.bind (w.shared.clientList[·]?)).toList := by
  unfold fetching
  dsimp only
  rw [hr]
  exact Function.update_self ..

theorem fetching_unlock (hr : w.rest t = .unlock .player :: k) : fetching w g (t, x) t = [] := by
  unfold fetching
  dsimp only
  rw [hr]
  exact Function.update_self ..

/-- A step that neither acts nor releases `PlayerMutex`. -/
theorem fetching_else (hact : ∀ a k, w.rest t ≠ .act a :: k)
    (hunlock : ∀ k, w.rest t ≠ .unlock .player :: k) : fetching w g (t, x) = g := by
  unfold fetching
  dsimp only
  split
  · exact absurd ‹_› (hact _ _)
  · exact absurd ‹_› (hunlock _)
  · rfl

theorem pass_working {q : Process} (hq : q ≠ .server) : Working (q.pass s x) [] where
  worker a ha := (pass_acts hq ha).1
  uses a ha p hp := by
    rw [(pass_acts hq ha).2.1] at hp
    exact hp
  after a ha := (pass_acts hq (afterPlayer_sub _ ha)).2.1
  first a ha := (pass_acts hq (List.mem_of_mem_tail ha)).2.2

theorem Working.idle : Working [] l where
  worker _ ha := nomatch ha
  uses _ ha := nomatch ha
  after _ ha := nomatch ha
  first _ ha := nomatch ha

theorem Working.tail {st : Stmt Mutex Act} (h : Working (st :: k) l) (hst : st ≠ .unlock .player) :
    Working k l where
  worker a ha := h.worker a (List.mem_cons_of_mem _ ha)
  uses a ha := h.uses a (List.mem_cons_of_mem _ ha)
  after a ha := by
    apply h.after
    unfold afterPlayer
    split
    · cases ‹_ = ([] : Code)›
    · next heq =>
      cases heq
      exact absurd rfl hst
    · next heq =>
      cases heq
      exact ha
  first a ha := h.first a (List.mem_of_mem_tail ha)

theorem Working.unlock (h : Working (.unlock .player :: k) l) : Working k [] where
  worker a ha := h.worker a (List.mem_cons_of_mem _ ha)
  uses a ha p hp := by
    have hnone : a.clients = [] := h.after a ha
    rw [hnone] at hp
    exact hp
  after a ha := h.after a (afterPlayer_sub k ha)
  first a ha := h.first a (List.mem_of_mem_tail ha)

theorem Working.act (h : Working (.act a :: k) l) (hd : WorkerDoes s a ss) :
    Working (ss ++ k) (l ++ (a.atIndex.bind (s.clientList[·]?)).toList) where
  worker b hb := by
    rcases List.mem_append.mp hb with hb | hb
    · exact hd.worker b hb
    · exact h.worker b (List.mem_cons_of_mem _ hb)
  uses b hb p hp := by
    rcases List.mem_append.mp hb with hb | hb
    · rcases hd.uses b hb p hp with hp | hp
      · exact List.mem_append_left _ (h.uses a List.mem_cons_self p hp)
      · exact List.mem_append_right _ hp
    · exact List.mem_append_left _ (h.uses b (List.mem_cons_of_mem _ hb) p hp)
  after b hb := by
    rw [hd.after k] at hb
    exact h.after b hb
  first b hb := by
    cases ss with
    | nil => exact h.first b (List.mem_of_mem_tail hb)
    | cons st ss =>
      rcases List.mem_append.mp hb with hb | hb
      · exact hd.first b hb
      · exact h.first b hb

theorem wait_else {m : Mutex} (hr : w.rest t = .lock m :: k) : fetching w g (t, x) = g :=
  fetching_else (by simp [hr]) (by simp [hr])

/-- A worker's own step. -/
theorem Guarded.worker_self (h : Guarded process (w, g)) (ht : process t ≠ .server)
    (hm : (threads process).Move t x w w') : w'.shared = w.shared ∧
      Working (w'.rest t) (fetching w g (t, x) t) ∧
      (w'.owner .player ≠ some t → fetching w g (t, x) t = []) ∧
      ∀ p ∈ fetching w g (t, x) t, (w.shared.heap p).isSome := by
  have hworking : Working (w.rest t) (g t) := h.working t ht
  have hout := h.outside t ht
  have hlive := h.live t ht
  cases hm with
  | begin hr =>
    have hnone : g t = [] := hout (h.kept.safe.released t hr .player)
    rw [fetching_else (by simp [hr]) (by simp [hr]), goto_rest, hnone]
    exact ⟨rfl, pass_working ht, fun _ => rfl, fun p hp => nomatch hp⟩
  | @lock m k hr hfree =>
    rw [hr] at hworking
    rw [wait_else hr, own_rest, goto_rest]
    refine ⟨rfl, hworking.tail (by simp), fun hown => hout ?_, hlive⟩
    by_cases hmp : Mutex.player = m
    · subst hmp
      simp [hfree]
    · rwa [own_owner_ne hmp] at hown
  | wait hr hm =>
    rw [wait_else hr]
    exact ⟨rfl, hworking, hout, hlive⟩
  | @unlock m k hr =>
    rw [hr] at hworking
    by_cases hmp : m = .player
    · subst hmp
      rw [fetching_unlock hr, own_rest, goto_rest]
      exact ⟨rfl, hworking.unlock, fun _ => rfl, fun p hp => nomatch hp⟩
    · rw [fetching_else (by simp [hr]) (by simp [hr, hmp]), own_rest, goto_rest]
      refine ⟨rfl, hworking.tail (by simp [hmp]), fun hown => hout ?_, hlive⟩
      rwa [own_owner_ne (Ne.symm hmp)] at hown
  | @act a k ss s' hr hp =>
    rw [hr] at hworking
    have ha : a.worker = true := hworking.worker a List.mem_cons_self
    obtain ⟨hs, hdoes⟩ := (perform_does hp).workerDoes ha
    rw [fetching_act hr]
    refine ⟨hs, ?_, fun hown => absurd (worker_owns h.kept hr ha) hown, fun p hp => ?_⟩
    · show Working ((w.goto t (ss ++ k)).rest t) _
      rw [goto_rest]
      exact hworking.act hdoes
    · rcases List.mem_append.mp hp with hp | hp
      · exact hlive p hp
      · obtain ⟨i, -, hi⟩ := Option.bind_eq_some_iff.mp (Option.mem_toList.mp hp)
        exact h.sound.live p (List.mem_of_getElem? hi)

/-- A thread that does not step is where it was. -/
theorem Guarded.worker_other (h : Guarded process (w, g)) (hu : process u ≠ .server)
    (hm : (threads process).Move t x w w') (hne : u ≠ t) :
    Working (w'.rest u) (fetching w g (t, x) u) ∧
      (w'.owner .player ≠ some u → fetching w g (t, x) u = []) := by
  rw [fetching_ne hne, hm.rest_other hne]
  refine ⟨h.working u hu, fun hown => h.outside u hu fun hold => hown ?_⟩
  exact (hm.owner_other (fun m k hr => h.kept.safe.holder t m k hr) hne .player).mpr hold

theorem Guarded.worker_step (h : Guarded process (w, g)) (ht : process t ≠ .server)
    (hm : (threads process).Move t x w w') : Guarded process (w', fetching w g (t, x)) := by
  obtain ⟨hs, hworking, hout, hlive⟩ := h.worker_self ht hm
  refine ⟨h.kept.step (threads_disciplined process) hm, ?_, fun u hu => ?_, fun u hu => ?_,
    fun u hu => ?_, fun u hu p hp => ?_⟩
  · rw [hs]
    exact h.sound
  · rw [hs, hm.rest_other fun hut => ht (hut ▸ hu)]
    exact h.server u hu
  · by_cases hut : u = t
    · exact hut ▸ hworking
    · exact (h.worker_other hu hm hut).1
  · by_cases hut : u = t
    · exact hut ▸ hout
    · exact (h.worker_other hu hm hut).2
  · show (w'.shared.heap p).isSome
    rw [hs]
    by_cases hut : u = t
    · exact hlive p (hut ▸ hp)
    · apply h.live u hu p
      have hp : p ∈ fetching w g (t, x) u := hp
      rwa [fetching_ne hut] at hp

/-! ## The server thread -/

theorem call_at (s : Clients) (c : Call) : ServerAt s (s.call c) := by
  cases c with
  | addUser => exact .create
  | disconnectClient c =>
    show ServerAt s (s.disconnectClient c)
    unfold Clients.disconnectClient
    split
    · next hc => exact .close hc
    · exact .idle
  | packet c f => exact .flags
  | shutDown => exact .offline

theorem ServerAt.lock_tail {m : Mutex} (h : ServerAt s (.lock m :: k)) : ServerAt s k := by
  cases h with
  | lock hc => exact .delete hc

theorem ServerAt.unlock_tail {m : Mutex} (h : ServerAt s (.unlock m :: k)) : ServerAt s k := by
  cases h with
  | unlock => exact .idle

/-- What one act of the server thread keeps. -/
structure Goes (s s' : Clients) (a : Act) (k : Code) : Prop where
  sound : s'.Sound
  server : ServerAt s' k
  live : ∀ p, a ≠ .delete p → (s.heap p).isSome → (s'.heap p).isSome
  length : (∀ i, a ≠ .erase i) → s.clientList.length ≤ s'.clientList.length

theorem Goes.same (hs : s.Sound) (h : ServerAt s k) : Goes s s a k :=
  ⟨hs, h, fun _ _ hp => hp, fun _ => Nat.le_refl _⟩

theorem ServerAt.act (h : ServerAt s (.act a :: k)) (hs : s.Sound) (hd : Does x s a ss s') :
    Goes s s' a (ss ++ k) := by
  cases h with
  | create =>
    cases hd
    have hfresh : s.nextPtr ∉ s.clientList := fun hmem =>
      Nat.lt_irrefl _ (hs.below _ (hs.live _ hmem))
    have hlive : ∀ p, (s.heap p).isSome →
        ((if p = s.nextPtr then some {} else s.heap p : Option Flags)).isSome := fun p hp => by
      split
      · rfl
      · exact hp
    refine ⟨⟨fun p hp => hlive p (hs.live p hp), hs.nodup, fun p hp => ?_⟩,
      .pushBack (by simp) hfresh, fun p _ => hlive p, fun _ => Nat.le_refl _⟩
    by_cases hpn : p = s.nextPtr
    · exact hpn ▸ Nat.lt_succ_self _
    · have hp : ((if p = s.nextPtr then some {} else s.heap p : Option Flags)).isSome := hp
      rw [if_neg hpn] at hp
      exact Nat.lt_succ_of_lt (hs.below p hp)
  | @pushBack c hlive hnew =>
    cases hd
    refine ⟨⟨fun p hp => ?_, ?_, hs.below⟩, .idle, fun _ _ hp => hp, fun _ => by simp⟩
    · rcases List.mem_append.mp hp with hp | hp
      · exact hs.live p hp
      · exact List.mem_singleton.mp hp ▸ hlive
    · refine List.nodup_append.mpr ⟨hs.nodup, List.nodup_singleton c, fun p hp q hq hpq => ?_⟩
      cases List.mem_singleton.mp hq
      exact hnew (hpq ▸ hp)
  | @close c hc =>
    cases hd
    exact .same hs (.findSize hc)
  | @findSize c i hc =>
    cases hd with
    | findMore hi => exact .same hs (.findAt hc)
    | findDone hi =>
      rw [List.drop_eq_nil_of_le (Nat.not_lt.mp hi)] at hc
      cases hc
  | @findAt c i hc =>
    cases hd with
    | found hp => exact .same hs (.erase hp)
    | @notFound _ p _ hp hne =>
      refine .same hs (.findSize ?_)
      obtain ⟨hi, hpi⟩ := List.getElem?_eq_some_iff.mp hp
      rw [List.drop_eq_getElem_cons hi, hpi] at hc
      exact (List.mem_cons.mp hc).resolve_left (Ne.symm hne)
  | @erase c i hc =>
    cases hd
    have hsub : List.Sublist (s.clientList.eraseIdx i) s.clientList := List.eraseIdx_sublist ..
    refine ⟨⟨fun p hp => hs.live p (hsub.subset hp), hs.nodup.sublist hsub, hs.below⟩,
      .lock fun hmem => ?_, fun _ _ hp => hp, fun hne => absurd rfl (hne i)⟩
    obtain ⟨hi, hci⟩ := List.getElem?_eq_some_iff.mp hc
    obtain ⟨j, hj, hne, hcj⟩ := List.mem_eraseIdx_iff_getElem.mp hmem
    exact hne (hs.nodup.getElem_inj_iff.mp (hcj.trans hci.symm))
  | @delete c hc =>
    cases hd
    have hsome : ∀ p, ((if p = c then none else s.heap p : Option Flags)).isSome ↔
        p ≠ c ∧ (s.heap p).isSome := fun p => by
      split
      · next h => simp [h]
      · next h => simp [h]
    refine ⟨⟨fun p hp => (hsome p).mpr ⟨?_, hs.live p hp⟩, hs.nodup,
      fun p hp => hs.below p ((hsome p).mp hp).2⟩, .unlock,
      fun p hne hp => (hsome p).mpr ⟨?_, hp⟩, fun _ => Nat.le_refl _⟩
    · rintro rfl
      exact hc hp
    · rintro rfl
      exact hne rfl
  | @flags c f =>
    cases hd
    have hsome : ∀ p, ((if p = c then (s.heap p).map fun _ => f else s.heap p :
        Option Flags)).isSome ↔ (s.heap p).isSome := fun p => by
      split
      · next h => simp
      · rfl
    exact ⟨⟨fun p hp => (hsome p).mpr (hs.live p hp), hs.nodup,
      fun p hp => hs.below p ((hsome p).mp hp)⟩, .idle, fun p _ hp => (hsome p).mpr hp,
      fun _ => Nat.le_refl _⟩
  | offline =>
    cases hd
    exact ⟨⟨hs.live, hs.nodup, hs.below⟩, .idle, fun _ _ hp => hp, fun _ => Nat.le_refl _⟩

/-- The server thread's own step. -/
theorem Guarded.server_self (h : Guarded process (w, g)) (ht : process t = .server)
    (hm : (threads process).Move t x w w') : w'.shared.Sound ∧ ServerAt w'.shared (w'.rest t) ∧
      ∀ p, (w.shared.heap p).isSome → w.owner .player ≠ some t → (w'.shared.heap p).isSome := by
  have hserver : ServerAt w.shared (w.rest t) := h.server t ht
  have hs : w.shared.Sound := h.sound
  cases hm with
  | begin hr =>
    rw [goto_rest, goto_shared]
    refine ⟨hs, ?_, fun _ hp _ => hp⟩
    show ServerAt w.shared ((process t).pass w.shared x)
    rw [ht]
    exact call_at w.shared x.call
  | lock hr hfree =>
    rw [hr] at hserver
    rw [own_rest, goto_rest, own_shared, goto_shared]
    exact ⟨hs, hserver.lock_tail, fun _ hp _ => hp⟩
  | wait hr hm => exact ⟨hs, hserver, fun _ hp _ => hp⟩
  | unlock hr =>
    rw [hr] at hserver
    rw [own_rest, goto_rest, own_shared, goto_shared]
    exact ⟨hs, hserver.unlock_tail, fun _ hp _ => hp⟩
  | @act a k ss s' hr hp =>
    rw [hr] at hserver
    have hgoes := hserver.act hs (perform_does hp)
    refine ⟨hgoes.sound, ?_, fun p hlive hout => hgoes.live p ?_ hlive⟩
    · show ServerAt s' ((w.goto t (ss ++ k)).rest t)
      rw [goto_rest]
      exact hgoes.server
    · rintro rfl
      -- A client is deleted under `PlayerMutex`.
      obtain ⟨held, -, hruns, hown⟩ := h.kept t
      have hruns : Runs Mutex.rank Act.needs held (w.rest t) := hruns
      rw [hr] at hruns
      exact hout ((hown .player).mp hruns.1)

/-- One thread accepts clients and disconnects them. -/
def OneServer (process : T → Process) : Prop :=
  ∀ t u, process t = .server → process u = .server → t = u

theorem Guarded.server_step (hone : OneServer process) (h : Guarded process (w, g))
    (ht : process t = .server) (hm : (threads process).Move t x w w') :
    Guarded process (w', fetching w g (t, x)) := by
  obtain ⟨hsound, hserver, hlive⟩ := h.server_self ht hm
  have hne : ∀ u, process u ≠ .server → u ≠ t := fun u hu hut => hu (hut ▸ ht)
  refine ⟨h.kept.step (threads_disciplined process) hm, hsound, fun u hu => ?_,
    fun u hu => (h.worker_other hu hm (hne u hu)).1,
    fun u hu => (h.worker_other hu hm (hne u hu)).2, fun u hu p hp => ?_⟩
  · rw [hone u t hu ht]
    exact hserver
  · have hp : p ∈ fetching w g (t, x) u := hp
    rw [fetching_ne (hne u hu)] at hp
    refine hlive p (h.live u hu p hp) fun hown => ?_
    -- While the server holds `PlayerMutex`, no worker has fetched a client.
    have hnone : g u = [] := h.outside u hu fun hown' => by
      have hown' : w.owner .player = some u := hown'
      rw [hown] at hown'
      cases hown'
      exact hu ht
    rw [hnone] at hp
    cases hp

omit [DecidableEq T] in
theorem guarded_start (process : T → Process) (hs : s.Sound) :
    Guarded process (Config.start s, fun _ => []) where
  kept := kept_start s
  sound := hs
  server _ _ := .idle
  working _ _ := .idle
  outside _ _ _ := rfl
  live _ _ _ hp := nomatch hp

/-! ## Faults -/

/-- What an act throws. -/
inductive Throws (s : Clients) (a : Act) : ThreadFault → Prop
  | useAfterFree {p : Ptr} (hp : p ∈ a.clients ∨ a = .close p) (h : s.heap p = none) :
      Throws s a .useAfterFree
  | outOfRange {i : Nat} (hi : a.atIndex = some i ∨ ∃ c, a = .findAt c i)
      (h : s.clientList.length ≤ i) : Throws s a .outOfRange

variable {e : ThreadFault} {p : Ptr} {i : Nat} {α : Type}

theorem deref_error (h : deref p s = .error e s') : s' = s ∧ e = .useAfterFree ∧ s.heap p = none := by
  unfold deref at h
  split at h <;> cases h
  exact ⟨rfl, rfl, ‹_›⟩

theorem clientAt_error (h : clientAt i s = .error e s') :
    s' = s ∧ e = .outOfRange ∧ s.clientList.length ≤ i := by
  unfold clientAt at h
  split at h <;> cases h
  exact ⟨rfl, rfl, List.getElem?_eq_none_iff.mp ‹_›⟩

/-- A statement that dereferences a client first. -/
theorem deref_throws {f : Flags → EStateM ThreadFault Clients Code}
    (hp : p ∈ a.clients ∨ a = .close p)
    (hf : ∀ fl e s', f fl s = .error e s' → s' = s ∧ Throws s a e)
    (h : (deref p >>= f) s = .error e s') : s' = s ∧ Throws s a e := by
  rcases of_bind_error h with h | ⟨fl, s1, h1, h⟩
  · obtain ⟨rfl, rfl, hnone⟩ := deref_error h
    exact ⟨rfl, .useAfterFree hp hnone⟩
  · obtain rfl := (deref_ok h1).2
    exact hf fl e s' h

theorem clientAt_throws {f : Ptr → EStateM ThreadFault Clients Code}
    (hi : a.atIndex = some i ∨ ∃ c, a = .findAt c i) (hf : ∀ q s e s', f q s ≠ .error e s')
    (h : (clientAt i >>= f) s = .error e s') : s' = s ∧ Throws s a e := by
  rcases of_bind_error h with h | ⟨q, s1, -, h⟩
  · obtain ⟨rfl, rfl, hlen⟩ := clientAt_error h
    exact ⟨rfl, .outOfRange hi hlen⟩
  · exact absurd h (hf q s1 e s')

theorem perform_error (h : perform a x s = .error e s') : s' = s ∧ Throws s a e := by
  cases a with
  | mapSize | visSize | findSize | listSize =>
    rcases of_bind_error h with h | ⟨_, s1, -, h⟩
    · cases h
    · split at h <;> cases h
  | mapAt | visAt | listAt => exact clientAt_throws (.inl rfl) (fun _ _ _ _ h => by cases h) h
  | findAt c => exact clientAt_throws (.inr ⟨c, rfl⟩) (fun _ _ _ _ h => by cases h) h
  | mapReady | visInGame =>
    refine deref_throws (.inl List.mem_cons_self) (fun _ _ _ h => ?_) h
    split at h <;> cases h
  | visReady | playerMovement | listEnd =>
    exact deref_throws (.inl List.mem_cons_self) (fun _ _ _ h => by cases h) h
  | listInGame c p i =>
    by_cases hcp : c = p
    · have h : (if c = p then pure [Stmt.act (Act.listSize c (i + 1))] else _ :
          EStateM ThreadFault Clients Code) s = .error e s' := h
      rw [if_pos hcp] at h
      cases h
    · have h : (if c = p then _ else deref p >>= fun f => pure [Stmt.act
          (if ¬ f.inGame then Act.listSize c (i + 1) else .listOther c p i)] :
          EStateM ThreadFault Clients Code) s = .error e s' := h
      rw [if_neg hcp] at h
      exact deref_throws (.inl (by simp [Act.clients])) (fun _ _ _ h => by cases h) h
  | listOther c p i =>
    refine deref_throws (.inl List.mem_cons_self) (fun _ e' s2 h => ?_) h
    exact deref_throws (.inl (by simp [Act.clients])) (fun _ _ _ h => by cases h) h
  | close => exact deref_throws (.inr rfl) (fun _ _ _ h => by cases h) h
  | create | pushBack | erase | delete | flags | offline => cases h

/-- Guarded threads throw only at an `at(i)` whose size test no longer holds. -/
theorem Guarded.error (h : Guarded process (w, g))
    (he : (threads process).step (t, x) w = .error e w') : w' = w ∧ e = .outOfRange ∧
      process t ≠ .server ∧ ∃ a k i, w.rest t = .act a :: k ∧ a.atIndex = some i ∧
        w.shared.clientList.length ≤ i := by
  obtain ⟨a, k, s, hr, hp, rfl⟩ := step_error he
  obtain ⟨rfl, hthrows⟩ := perform_error hp
  clear hp he
  refine ⟨rfl, ?_⟩
  by_cases ht : process t = .server
  · have hserver : ServerAt w.shared (w.rest t) := h.server t ht
    have hsound : w.shared.Sound := h.sound
    rw [hr] at hserver
    exfalso
    cases hthrows with
    | useAfterFree hp hnone =>
      cases hserver with
      | @close c hc =>
        rcases hp with hp | hp
        · cases hp
        · cases hp
          have hlive := hsound.live _ hc
          rw [hnone] at hlive
          cases hlive
      | create | pushBack | findSize | findAt | erase | delete | flags | offline =>
        rcases hp with hp | hp <;> cases hp
    | outOfRange hi hlen =>
      cases hserver with
      | @findAt c i hc =>
        rcases hi with hi | ⟨c', hi⟩
        · cases hi
        · cases hi
          rw [List.drop_eq_nil_of_le hlen] at hc
          cases hc
      | create | pushBack | findSize | close | erase | delete | flags | offline =>
        rcases hi with hi | ⟨c', hi⟩ <;> cases hi
  · have hworking : Working (w.rest t) (g t) := h.working t ht
    rw [hr] at hworking
    have ha : a.worker = true := hworking.worker a List.mem_cons_self
    cases hthrows with
    | @useAfterFree p hp hnone =>
      rcases hp with hp | rfl
      · have hlive : (w.shared.heap p).isSome :=
          h.live t ht p (hworking.uses a List.mem_cons_self p hp)
        rw [hnone] at hlive
        cases hlive
      · cases ha
    | @outOfRange i hi hlen =>
      rcases hi with hi | ⟨c, rfl⟩
      · exact ⟨rfl, ht, a, k, i, hr, hi, hlen⟩
      · cases ha

theorem Guarded.step (hone : OneServer process) (h : Guarded process (w, g))
    (hok : (threads process).step (t, x) w = .ok () w') :
    Guarded process (w', fetching w g (t, x)) := by
  by_cases ht : process t = .server
  · exact h.server_step hone ht (step_ok hok)
  · exact h.worker_step ht (step_ok hok)

theorem Guarded.fin (hone : OneServer process) (h : Guarded process (w, g)) (y : T × Choice) :
    Guarded process (fin (ghost (threads process).step fetching y (w, g))) := by
  cases hstep : (threads process).step y w with
  | ok _ w' =>
    rw [ghost_of_ok hstep]
    exact h.step hone hstep
  | error e w' =>
    have hghost : ghost (threads process).step fetching y (w, g) = .error e (w', g) := by
      unfold ghost
      rw [hstep]
    rw [hghost, (h.error hstep).1]
    exact h

/-- The threads at some point of a run. -/
def Config.Guarded (process : T → Process) (w : Config T Mutex Act Clients) : Prop :=
  ∃ g, Destiny.Guarded process (w, g)

theorem Config.Guarded.fin (hone : OneServer process) (h : Config.Guarded process w)
    (y : T × Choice) : Config.Guarded process (fin ((threads process).step y w)) := by
  obtain ⟨g, hg⟩ := h
  cases hstep : (threads process).step y w with
  | ok _ w' => exact ⟨_, hg.step hone hstep⟩
  | error e w' =>
    rw [(hg.error hstep).1]
    exact ⟨g, hg⟩

/-- **A client that a worker has fetched is not deleted** before the worker releases
`PlayerMutex`, and no thread dereferences a deleted client. -/
theorem fetched_live (hone : OneServer process) (hs : s.Sound) (is : List (T × Choice)) :
    Always (ghost (threads process).step fetching) (FetchedLive process)
        (Config.start s, fun _ => []) is ∧
      ∀ w', run (threads process).step is (Config.start s) ≠ .error .useAfterFree w' := by
  refine ⟨?_, fun w' hr => ?_⟩
  · have halways : Always (ghost (threads process).step fetching) (Guarded process)
        (Config.start s, fun _ => []) is :=
      always_of_along (C := fun _ _ => True) (fun h y hg _ => hg.fin hone y) (guarded_start process hs)
        (along_true _ is)
    exact halways.mono fun _ hg => hg.live
  · have herr : ∀ w y e w', Config.Guarded process w → (threads process).step y w = .error e w' →
        e = .outOfRange := fun w y e w' ⟨g, hg⟩ he => (hg.error he).2.1
    cases run_error (C := fun _ _ => True) (fun _ y hw _ => Config.Guarded.fin hone hw y)
      (fun w y e w' hw _ he => herr w y e w' hw he) ⟨_, guarded_start process hs⟩
      (along_true _ is) hr

/-- Nobody is connected. -/
def Clients.empty : Clients := ⟨[], fun _ => none, 0, true⟩

theorem sound_empty : Clients.empty.Sound :=
  ⟨fun _ hp => (List.not_mem_nil hp).elim, List.nodup_nil, fun _ hp => (Bool.false_ne_true hp).elim⟩

/-- The server thread and one worker. -/
def mapAndServer (b : Bool) : Process := if b then .server else .map

theorem mapAndServer_one : OneServer mapAndServer := by
  unfold OneServer
  decide

theorem fetched_live_mapAndServer :
    OneServer mapAndServer ∧ Clients.empty.Sound ∧ ∀ w', run (threads mapAndServer).step
      [(true, {}), (true, {}), (true, {}), (false, {}), (false, {}), (false, {}), (false, {})]
      (Config.start .empty) ≠ .error .useAfterFree w' :=
  ⟨mapAndServer_one, sound_empty, (fetched_live mapAndServer_one sound_empty _).2⟩

end Destiny
