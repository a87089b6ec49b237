import Destiny.Prog.Locks
import Destiny.Server.Control

/-!
# The server's threads

`MapProcess`, `VisibilityProcess` and `WorldProcess` run beside the thread that accepts clients,
handles their packets and disconnects them. An act is one statement, with the size test of a
loop and the `at(i)` after it as two. Of the clients only what decides a branch before a lock is
kept; whatever else `PlayerMovement` and `VisiblityList` do with the clients they were given is a
number of statements that dereference these, and the number is a choice.
-/

namespace Destiny

open Prog

inductive Mutex where
  | drop
  | monster
  | player
  | main
  deriving DecidableEq

/-- The order in which mutexes are taken. -/
def Mutex.rank : Mutex → Nat
  | .drop => 0
  | .monster => 1
  | .player => 2
  | .main => 3

structure Flags where
  ready : Bool := false
  inGame : Bool := false
  isLoggedIn : Bool := false

/-- What the threads share. -/
structure Clients where
  clientList : List Ptr
  heap : Ptr → Option Flags
  nextPtr : Ptr
  serverOnline : Bool

inductive ThreadFault where
  | useAfterFree
  | outOfRange
  deriving DecidableEq

inductive Process where
  | map
  | visibility
  | world
  | server
  deriving DecidableEq

/-- What the server thread does next. -/
inductive Call where
  | addUser
  | disconnectClient (c : Ptr)
  /-- A packet, after which the client has the given flags. -/
  | packet (c : Ptr) (flags : Flags)
  | shutDown

structure Choice where
  call : Call := .addUser
  /-- Whether a function has another statement. -/
  again : Bool := false

inductive Act where
  -- `MapProcess`
  | mapSize (i : Nat)
  | mapAt (i : Nat)
  | mapReady (i : Nat) (thisclient : Ptr)
  | playerMovement (thisclient : Ptr)
  -- `VisibilityProcess`
  | visSize (i : Nat)
  | visAt (i : Nat)
  | visReady (i : Nat) (thisclient : Ptr)
  | visInGame (i : Nat) (thisclient : Ptr)
  -- `VisiblityList`
  | listSize (this : Ptr) (i : Nat)
  | listAt (this : Ptr) (i : Nat)
  | listInGame (this otherclient : Ptr) (i : Nat)
  | listOther (this otherclient : Ptr) (i : Nat)
  | listEnd (this : Ptr)
  -- `AddUser` and `DisconnectClient`
  | create
  | pushBack (thisclient : Ptr)
  | close (thisclient : Ptr)
  | findSize (thisclient : Ptr) (i : Nat)
  | findAt (thisclient : Ptr) (i : Nat)
  | erase (i : Nat)
  | delete (thisclient : Ptr)
  -- what else the server thread does
  | flags (thisclient : Ptr) (flags : Flags)
  | offline

abbrev Code := List (Stmt Mutex Act)

/-! ## Statements -/

def deref (p : Ptr) : EStateM ThreadFault Clients Flags := fun s =>
  match s.heap p with
  | some flags => .ok flags s
  | none => .error .useAfterFree s

/-- `ClientList.at(i)`. -/
def clientAt (i : Nat) : EStateM ThreadFault Clients Ptr := fun s =>
  match s.clientList[i]? with
  | some p => .ok p s
  | none => .error .outOfRange s

/-- A loop's size test, and what follows it. -/
def sizeTest (i : Nat) (body after : Act) : EStateM ThreadFault Clients Code := do
  let s ← get
  if i < s.clientList.length then return [.act body] else return [.act after]

/-- The same where the pass goes on behind the loop. -/
def loopTest (i : Nat) (body : Act) : EStateM ThreadFault Clients Code := do
  let s ← get
  if i < s.clientList.length then return [.act body] else return []

def perform : Act → Choice → EStateM ThreadFault Clients Code
  | .mapSize i, _ => loopTest i (.mapAt i)
  | .mapAt i, _ => do
    let thisclient ← clientAt i
    return [.act (.mapReady i thisclient)]
  | .mapReady i thisclient, _ => do
    let f ← deref thisclient
    if ¬ f.ready then return [.act (.mapSize (i + 1))]
    else return [.lock .main, .act (.playerMovement thisclient), .unlock .main,
      .act (.mapSize (i + 1))]
  | .playerMovement thisclient, x => do
    let _ ← deref thisclient
    return if x.again then [.act (.playerMovement thisclient)] else []
  | .visSize i, _ => loopTest i (.visAt i)
  | .visAt i, _ => do
    let thisclient ← clientAt i
    return [.act (.visReady i thisclient)]
  | .visReady i thisclient, _ => do
    let f ← deref thisclient
    return [.act (if ¬ f.ready then .visSize (i + 1) else .visInGame i thisclient)]
  | .visInGame i thisclient, _ => do
    let f ← deref thisclient
    if ¬ f.inGame ∨ ¬ f.isLoggedIn then return [.act (.visSize (i + 1))]
    else return [.lock .main, .act (.listSize thisclient 0), .unlock .main, .act (.visSize (i + 1))]
  | .listSize this i, _ => sizeTest i (.listAt this i) (.listEnd this)
  | .listAt this i, _ => do
    let otherclient ← clientAt i
    return [.act (.listInGame this otherclient i)]
  | .listInGame this otherclient i, _ => do
    if this = otherclient then return [.act (.listSize this (i + 1))]
    let f ← deref otherclient
    return [.act (if ¬ f.inGame then .listSize this (i + 1) else .listOther this otherclient i)]
  | .listOther this otherclient i, x => do
    let _ ← deref this
    let _ ← deref otherclient
    return [.act (if x.again then .listOther this otherclient i else .listSize this (i + 1))]
  | .listEnd this, x => do
    let _ ← deref this
    return if x.again then [.act (.listEnd this)] else []
  | .create, _ => do
    let s ← get
    set { s with
      heap := fun p => if p = s.nextPtr then some {} else s.heap p
      nextPtr := s.nextPtr + 1 }
    return [.act (.pushBack s.nextPtr)]
  | .pushBack thisclient, _ => do
    modify fun s => { s with clientList := s.clientList ++ [thisclient] }
    return []
  | .close thisclient, _ => do
    let _ ← deref thisclient
    return []
  | .findSize thisclient i, _ => loopTest i (.findAt thisclient i)
  | .findAt thisclient i, _ => do
    let client ← clientAt i
    return [.act (if client = thisclient then .erase i else .findSize thisclient (i + 1))]
  | .erase i, _ => do
    modify fun s => { s with clientList := s.clientList.eraseIdx i }
    return []
  | .delete thisclient, _ => do
    modify fun s => { s with heap := fun p => if p = thisclient then none else s.heap p }
    return []
  | .flags thisclient flags, _ => do
    modify fun s => { s with
      heap := fun p => if p = thisclient then (s.heap p).map fun _ => flags else s.heap p }
    return []
  | .offline, _ => do
    modify fun s => { s with serverOnline := false }
    return []

/-! ## Passes -/

def mapProcess : Code :=
  [.lock .player, .act (.mapSize 0), .unlock .player, .lock .monster, .unlock .monster]

def visibilityProcess : Code :=
  [.lock .drop, .lock .monster, .lock .player, .act (.visSize 0), .unlock .player,
    .unlock .monster, .unlock .drop]

def worldProcess : Code :=
  [.lock .drop, .lock .monster, .lock .player, .lock .main, .unlock .main, .unlock .player,
    .unlock .monster, .unlock .drop]

def deleteClientSocket (thisclient : Ptr) : Code :=
  [.lock .player, .act (.delete thisclient), .unlock .player]

/-- `DisconnectClient`, which is called for clients in the list. -/
def Clients.disconnectClient (s : Clients) (c : Ptr) : Code :=
  if c ∈ s.clientList then
    .act (.close c) :: .act (.findSize c 0) :: deleteClientSocket c
  else []

def Clients.call (s : Clients) : Call → Code
  | .addUser => [.act .create]
  | .disconnectClient c => s.disconnectClient c
  | .packet c flags => [.act (.flags c flags)]
  | .shutDown => [.act .offline]

/-- One round of a process. -/
def Process.pass (s : Clients) (x : Choice) : Process → Code
  | .map => if s.serverOnline then mapProcess else []
  | .visibility => if s.serverOnline then visibilityProcess else []
  | .world => if s.serverOnline then worldProcess else []
  | .server => s.call x.call

/-- Threads that each run a process. -/
def threads {T : Type} (process : T → Process) : Threads T Mutex Act Choice ThreadFault Clients where
  body t x s := (process t).pass s x
  perform _ := perform

/-! ## Lock order -/

/-- The mutexes that an act runs under. -/
def Act.needs : Act → List Mutex → Prop
  | .mapSize _, held | .mapAt _, held | .mapReady _ _, held | .visSize _, held | .visAt _, held
  | .visReady _ _, held | .visInGame _ _, held =>
    .player ∈ held ∧ ∀ n ∈ held, n.rank < Mutex.main.rank
  | .playerMovement _, held | .listSize _ _, held | .listAt _ _, held | .listInGame _ _ _, held
  | .listOther _ _ _, held | .listEnd _, held | .delete _, held => .player ∈ held
  | .create, _ | .pushBack _, _ | .close _, _ | .findSize _ _, _ | .findAt _ _, _ | .erase _, _
  | .flags _ _, _ | .offline, _ => True

variable {s s' : Clients} {x : Choice} {a : Act} {ss k : Code} {held : List Mutex} {i : Nat}
  {p : Ptr} {f : Flags}

theorem deref_ok (h : deref p s = .ok f s') : s.heap p = some f ∧ s = s' := by
  unfold deref at h
  split at h <;> cases h
  exact ⟨‹_›, rfl⟩

theorem clientAt_ok (h : clientAt i s = .ok p s') : s.clientList[i]? = some p ∧ s = s' := by
  unfold clientAt at h
  split at h <;> cases h
  exact ⟨‹_›, rfl⟩

theorem loopTest_ok (h : loopTest i a s = .ok ss s') :
    s' = s ∧ (ss = [.act a] ∧ i < s.clientList.length ∨ ss = [] ∧ ¬ i < s.clientList.length) := by
  obtain ⟨_, s1, h1, h⟩ := of_bind_ok h
  cases h1
  split at h <;> cases h
  · exact ⟨rfl, .inl ⟨rfl, ‹_›⟩⟩
  · exact ⟨rfl, .inr ⟨rfl, ‹_›⟩⟩

/-- What an act that returns does. -/
inductive Does (x : Choice) (s : Clients) : Act → Code → Clients → Prop
  | mapMore {i : Nat} (h : i < s.clientList.length) : Does x s (.mapSize i) [.act (.mapAt i)] s
  | mapDone {i : Nat} : Does x s (.mapSize i) [] s
  | mapAt {i : Nat} {p : Ptr} (h : s.clientList[i]? = some p) :
      Does x s (.mapAt i) [.act (.mapReady i p)] s
  | mapSkip {i : Nat} {p : Ptr} : Does x s (.mapReady i p) [.act (.mapSize (i + 1))] s
  | mapTake {i : Nat} {p : Ptr} : Does x s (.mapReady i p)
      [.lock .main, .act (.playerMovement p), .unlock .main, .act (.mapSize (i + 1))] s
  | moveMore {p : Ptr} : Does x s (.playerMovement p) [.act (.playerMovement p)] s
  | moveDone {p : Ptr} : Does x s (.playerMovement p) [] s
  | visMore {i : Nat} (h : i < s.clientList.length) : Does x s (.visSize i) [.act (.visAt i)] s
  | visDone {i : Nat} : Does x s (.visSize i) [] s
  | visAt {i : Nat} {p : Ptr} (h : s.clientList[i]? = some p) :
      Does x s (.visAt i) [.act (.visReady i p)] s
  | visUnready {i : Nat} {p : Ptr} : Does x s (.visReady i p) [.act (.visSize (i + 1))] s
  | visReady {i : Nat} {p : Ptr} : Does x s (.visReady i p) [.act (.visInGame i p)] s
  | visSkip {i : Nat} {p : Ptr} : Does x s (.visInGame i p) [.act (.visSize (i + 1))] s
  | visTake {i : Nat} {p : Ptr} : Does x s (.visInGame i p)
      [.lock .main, .act (.listSize p 0), .unlock .main, .act (.visSize (i + 1))] s
  | listMore {c : Ptr} {i : Nat} (h : i < s.clientList.length) :
      Does x s (.listSize c i) [.act (.listAt c i)] s
  | listDone {c : Ptr} {i : Nat} : Does x s (.listSize c i) [.act (.listEnd c)] s
  | listAt {c p : Ptr} {i : Nat} (h : s.clientList[i]? = some p) :
      Does x s (.listAt c i) [.act (.listInGame c p i)] s
  | listSkip {c p : Ptr} {i : Nat} : Does x s (.listInGame c p i) [.act (.listSize c (i + 1))] s
  | listTake {c p : Ptr} {i : Nat} : Does x s (.listInGame c p i) [.act (.listOther c p i)] s
  | otherMore {c p : Ptr} {i : Nat} : Does x s (.listOther c p i) [.act (.listOther c p i)] s
  | otherDone {c p : Ptr} {i : Nat} : Does x s (.listOther c p i) [.act (.listSize c (i + 1))] s
  | endMore {c : Ptr} : Does x s (.listEnd c) [.act (.listEnd c)] s
  | endDone {c : Ptr} : Does x s (.listEnd c) [] s
  | create : Does x s .create [.act (.pushBack s.nextPtr)]
      { s with heap := fun p => if p = s.nextPtr then some {} else s.heap p, nextPtr := s.nextPtr + 1 }
  | pushBack {c : Ptr} : Does x s (.pushBack c) [] { s with clientList := s.clientList ++ [c] }
  | close {c : Ptr} : Does x s (.close c) [] s
  | findMore {c : Ptr} {i : Nat} (h : i < s.clientList.length) :
      Does x s (.findSize c i) [.act (.findAt c i)] s
  | findDone {c : Ptr} {i : Nat} (h : ¬ i < s.clientList.length) : Does x s (.findSize c i) [] s
  | found {c : Ptr} {i : Nat} (h : s.clientList[i]? = some c) :
      Does x s (.findAt c i) [.act (.erase i)] s
  | notFound {c p : Ptr} {i : Nat} (h : s.clientList[i]? = some p) (hp : p ≠ c) :
      Does x s (.findAt c i) [.act (.findSize c (i + 1))] s
  | erase {i : Nat} : Does x s (.erase i) [] { s with clientList := s.clientList.eraseIdx i }
  | delete {c : Ptr} : Does x s (.delete c) []
      { s with heap := fun p => if p = c then none else s.heap p }
  | flags {c : Ptr} {f : Flags} : Does x s (.flags c f) []
      { s with heap := fun p => if p = c then (s.heap p).map fun _ => f else s.heap p }
  | offline : Does x s .offline [] { s with serverOnline := false }

theorem perform_does (h : perform a x s = .ok ss s') : Does x s a ss s' := by
  cases a with
  | mapSize i =>
    obtain ⟨rfl, ⟨rfl, hi⟩ | ⟨rfl, -⟩⟩ := loopTest_ok h
    · exact .mapMore hi
    · exact .mapDone
  | visSize i =>
    obtain ⟨rfl, ⟨rfl, hi⟩ | ⟨rfl, -⟩⟩ := loopTest_ok h
    · exact .visMore hi
    · exact .visDone
  | findSize c i =>
    obtain ⟨rfl, ⟨rfl, hi⟩ | ⟨rfl, hi⟩⟩ := loopTest_ok h
    · exact .findMore hi
    · exact .findDone hi
  | listSize c i =>
    obtain ⟨_, s1, h1, h⟩ := of_bind_ok h
    cases h1
    split at h <;> cases h
    · exact .listMore ‹_›
    · exact .listDone
  | mapAt i =>
    obtain ⟨p, s1, h1, h⟩ := of_bind_ok h
    obtain ⟨hp, rfl⟩ := clientAt_ok h1
    cases h
    exact .mapAt hp
  | visAt i =>
    obtain ⟨p, s1, h1, h⟩ := of_bind_ok h
    obtain ⟨hp, rfl⟩ := clientAt_ok h1
    cases h
    exact .visAt hp
  | listAt c i =>
    obtain ⟨p, s1, h1, h⟩ := of_bind_ok h
    obtain ⟨hp, rfl⟩ := clientAt_ok h1
    cases h
    exact .listAt hp
  | findAt c i =>
    obtain ⟨p, s1, h1, h⟩ := of_bind_ok h
    obtain ⟨hp, rfl⟩ := clientAt_ok h1
    cases h
    split
    · next hpc => exact .found (hpc ▸ hp)
    · next hpc => exact .notFound hp hpc
  | mapReady i p =>
    obtain ⟨f, s1, h1, h⟩ := of_bind_ok h
    obtain ⟨-, rfl⟩ := deref_ok h1
    split at h <;> cases h
    · exact .mapSkip
    · exact .mapTake
  | visReady i p =>
    obtain ⟨f, s1, h1, h⟩ := of_bind_ok h
    obtain ⟨-, rfl⟩ := deref_ok h1
    cases h
    split
    · exact .visUnready
    · exact .visReady
  | visInGame i p =>
    obtain ⟨f, s1, h1, h⟩ := of_bind_ok h
    obtain ⟨-, rfl⟩ := deref_ok h1
    split at h <;> cases h
    · exact .visSkip
    · exact .visTake
  | playerMovement p =>
    obtain ⟨f, s1, h1, h⟩ := of_bind_ok h
    obtain ⟨-, rfl⟩ := deref_ok h1
    cases h
    split
    · exact .moveMore
    · exact .moveDone
  | listInGame c p i =>
    by_cases hcp : c = p
    · have h : (if c = p then pure [Stmt.act (Act.listSize c (i + 1))] else _ :
          EStateM ThreadFault Clients Code) s = .ok ss s' := h
      rw [if_pos hcp] at h
      cases h
      exact .listSkip
    · have h : (if c = p then _ else deref p >>= fun f => pure [Stmt.act
          (if ¬ f.inGame then Act.listSize c (i + 1) else .listOther c p i)] :
          EStateM ThreadFault Clients Code) s = .ok ss s' := h
      rw [if_neg hcp] at h
      obtain ⟨f, s1, h1, h⟩ := of_bind_ok h
      obtain ⟨-, rfl⟩ := deref_ok h1
      cases h
      split
      · exact .listSkip
      · exact .listTake
  | listOther c p i =>
    obtain ⟨f, s1, h1, h⟩ := of_bind_ok h
    obtain ⟨-, rfl⟩ := deref_ok h1
    obtain ⟨f', s2, h2, h⟩ := of_bind_ok h
    obtain ⟨-, rfl⟩ := deref_ok h2
    cases h
    split
    · exact .otherMore
    · exact .otherDone
  | listEnd c =>
    obtain ⟨f, s1, h1, h⟩ := of_bind_ok h
    obtain ⟨-, rfl⟩ := deref_ok h1
    cases h
    split
    · exact .endMore
    · exact .endDone
  | close c =>
    obtain ⟨f, s1, h1, h⟩ := of_bind_ok h
    obtain ⟨-, rfl⟩ := deref_ok h1
    cases h
    exact .close
  | create =>
    cases h
    exact .create
  | pushBack c =>
    cases h
    exact .pushBack
  | erase i =>
    cases h
    exact .erase
  | delete c =>
    cases h
    exact .delete
  | flags c f =>
    cases h
    exact .flags
  | offline =>
    cases h
    exact .offline

/-- An act goes on within the lock order. -/
theorem Does.runs (h : Does x s a ss s') (hneeds : a.needs held)
    (hk : Runs Mutex.rank Act.needs held k) : Runs Mutex.rank Act.needs held (ss ++ k) := by
  have hloop : ∀ b d : Act, .player ∈ held ∧ (∀ n ∈ held, n.rank < Mutex.main.rank) →
      b.needs (.main :: held) → d.needs held → Runs Mutex.rank Act.needs held
        (([.lock .main, .act b, .unlock .main, .act d] : Code) ++ k) := by
    intro b d hheld hb hd
    refine ⟨hheld.2, hb, List.mem_cons_self, ?_⟩
    rw [List.erase_cons_head]
    exact ⟨hd, hk⟩
  cases h with
  | mapTake => exact hloop _ _ hneeds (List.mem_cons_of_mem _ hneeds.1) hneeds
  | visTake => exact hloop _ _ hneeds (List.mem_cons_of_mem _ hneeds.1) hneeds
  | mapDone | moveDone | visDone | endDone | pushBack | close | findDone | erase | delete | flags
  | offline => exact hk
  | _ => exact ⟨hneeds, hk⟩

theorem pass_runs (s : Clients) (x : Choice) (q : Process) :
    Runs Mutex.rank Act.needs [] (q.pass s x) := by
  have honline : ∀ k : Code, Runs Mutex.rank Act.needs [] k →
      Runs Mutex.rank Act.needs [] (if s.serverOnline then k else []) := fun k hk => by
    split
    · exact hk
    · rfl
  cases q with
  | map => exact honline _ (by simp [mapProcess, Runs, Act.needs, Mutex.rank])
  | visibility => exact honline _ (by simp [visibilityProcess, Runs, Act.needs, Mutex.rank])
  | world => exact honline _ (by simp [worldProcess, Runs, Mutex.rank])
  | server =>
    show Runs _ _ [] (s.call x.call)
    cases x.call with
    | addUser => simp [Clients.call, Runs, Act.needs]
    | disconnectClient c =>
      show Runs _ _ [] (s.disconnectClient c)
      unfold Clients.disconnectClient
      split
      · simp [deleteClientSocket, Runs, Act.needs]
      · rfl
    | packet c flags => simp [Clients.call, Runs, Act.needs]
    | shutDown => simp [Clients.call, Runs, Act.needs]

theorem threads_disciplined {T : Type} (process : T → Process) :
    (threads process).Disciplined Mutex.rank Act.needs where
  body t x s := pass_runs s x (process t)
  perform hneeds h hk := (perform_does h).runs hneeds hk

/-- **Mutexes are used safely** by any number of threads, whatever the list and the flags. -/
theorem locks_safe {T : Type} [DecidableEq T] (process : T → Process) (s : Clients)
    (is : List (T × Choice)) :
    Always (threads process).step Config.Safe (Config.start s) is :=
  (kept_of_disciplined (threads_disciplined process) s is).mono fun _ h => h.safe

end Destiny
