import Destiny.Prog.Sweep
import Destiny.Server.State

/-!
# The socket server

The base class of the server, in `commom/socket_server.cpp`: the clients' sockets, their
flags, and the two loops of `ServerLoop` over `ClientList`. `accepted`, `deleted` and
`received` log the clients taken by `AddUser`, those deleted, and the calls of
`ReceiveData`, the newest last.

`ReceiveData` succeeds or fails at will. Whatever it does otherwise, it changes neither the
list nor a flag.
-/

namespace Destiny

open Prog

/-! ## `fd_set` -/

/-- `FD_SETSIZE` of winsock2. -/
def fdSetSize : Nat := 64

/-- An `fd_set` of winsock2. -/
structure FdSet where
  fdArray : List UInt32
  bound : fdArray.length ≤ fdSetSize

namespace FdSet

/-- `FD_ZERO`. -/
def zero : FdSet := ⟨[], Nat.zero_le _⟩

/-- `FD_SET`: a full set stays as it is. -/
def set (fds : FdSet) (sock : UInt32) : FdSet :=
  if sock ∈ fds.fdArray then fds
  else if h : fds.fdArray.length < fdSetSize then
    ⟨fds.fdArray ++ [sock], by rw [List.length_append]; exact h⟩
  else fds

/-- `FD_ISSET`. -/
def isSet (fds : FdSet) (sock : UInt32) : Bool := decide (sock ∈ fds.fdArray)

variable {fds : FdSet} {sock : UInt32} {l : List UInt32}

theorem isSet_iff : fds.isSet sock ↔ sock ∈ fds.fdArray := decide_eq_true_iff

theorem mem_set (h : sock ∈ fds.fdArray) (k : UInt32) : sock ∈ (fds.set k).fdArray := by
  unfold set
  split
  · exact h
  · split
    · exact List.mem_append_left _ h
    · exact h

theorem mem_set_self (h : fds.fdArray.length < fdSetSize) : sock ∈ (fds.set sock).fdArray := by
  unfold set
  split
  · assumption
  · exact List.mem_append_right _ (List.mem_singleton_self _)

theorem of_mem_set {k : UInt32} (h : sock ∈ (fds.set k).fdArray) : sock ∈ fds.fdArray ∨ sock = k := by
  unfold set at h
  split at h
  · exact .inl h
  · split at h
    · exact (List.mem_append.mp h).imp_right List.mem_singleton.mp
    · exact .inl h

theorem length_set (fds : FdSet) (k : UInt32) :
    (fds.set k).fdArray.length ≤ fds.fdArray.length + 1 := by
  unfold set
  split
  · omega
  · split
    · rw [List.length_append]
      rfl
    · omega

/-- `FD_SET` of several sockets. -/
def setAll (fds : FdSet) (l : List UInt32) : FdSet := l.foldl set fds

theorem of_mem_setAll (h : sock ∈ (fds.setAll l).fdArray) : sock ∈ fds.fdArray ∨ sock ∈ l := by
  induction l generalizing fds with
  | nil => exact .inl h
  | cons k l ih =>
    rcases ih h with h | h
    · exact (of_mem_set h).imp_right fun he : sock = k => he ▸ List.mem_cons_self
    · exact .inr (List.mem_cons_of_mem _ h)

theorem mem_setAll (h : sock ∈ fds.fdArray) : sock ∈ (fds.setAll l).fdArray := by
  induction l generalizing fds with
  | nil => exact h
  | cons k l ih => exact ih (mem_set h k)

/-- While there is room, every socket gets in. -/
theorem mem_setAll_self (hroom : fds.fdArray.length + l.length ≤ fdSetSize) (h : sock ∈ l) :
    sock ∈ (fds.setAll l).fdArray := by
  induction l generalizing fds with
  | nil => cases h
  | cons k l ih =>
    rw [List.length_cons] at hroom
    have hset := length_set fds k
    rcases List.mem_cons.mp h with rfl | h
    · change sock ∈ ((fds.set sock).setAll l).fdArray
      exact mem_setAll (mem_set_self (by omega))
    · change sock ∈ ((fds.set k).setAll l).fdArray
      exact ih (by omega) h

end FdSet

/-! ## State -/

structure CClientSocket where
  sock : UInt32
  isActive : Bool

/-- `INVALID_SOCKET`. -/
def invalidSocket : UInt32 := 0xffffffff

structure CServerSocket where
  heap : Ptr → Option CClientSocket
  nextPtr : Ptr
  clientList : List Ptr
  accepted : List Ptr
  deleted : List Ptr
  received : List Ptr

inductive SocketFault where
  | useAfterFree
  | outOfRange
  deriving DecidableEq, Repr

abbrev SM := EStateM SocketFault CServerSocket

namespace CServerSocket

/-- Dereference a client. -/
def clientSocket (c : Ptr) : SM CClientSocket := fun s =>
  match s.heap c with
  | some cl => .ok cl s
  | none => .error .useAfterFree s

def setSocket (s : CServerSocket) (c : Ptr) (cl : CClientSocket) : CServerSocket :=
  { s with heap := fun p => if p = c then some cl else s.heap p }

/-! ## Clients come and go -/

def addUser (sock : UInt32) : SM Unit := modify fun s =>
  { s with
    heap := fun p => if p = s.nextPtr then some ⟨sock, true⟩ else s.heap p
    nextPtr := s.nextPtr + 1
    clientList := s.clientList ++ [s.nextPtr]
    accepted := s.accepted ++ [s.nextPtr] }

def deleteClientSocket (c : Ptr) : SM Unit := do
  let _ ← clientSocket c
  modify fun s => { s with
    heap := fun p => if p = c then none else s.heap p
    deleted := s.deleted ++ [c] }

def disconnectClient (c : Ptr) : SM Unit := do
  let _ ← clientSocket c
  modify fun s => s.setSocket c ⟨invalidSocket, false⟩
  modify fun s => { s with clientList := s.clientList.erase c }
  deleteClientSocket c

/-- `DisconnectAll`: the flags of the clients in the game are cleared. -/
def disconnectAll (inGame : Ptr → Bool) : SM Unit := modify fun s =>
  { s with heap := fun p => (s.heap p).map fun cl =>
      if p ∈ s.clientList ∧ inGame p then { cl with isActive := false } else cl }

/-! ## The loops -/

/-- A turn of the loop of `FillFDS`. -/
def fillClient (c : Ptr) (fds : FdSet) : SM FdSet := do
  let client ← clientSocket c
  if client.isActive then return fds.set client.sock
  else do
    disconnectClient c
    return fds

def fillFDS (fds : FdSet) : SM FdSet := do
  let s ← get
  sweep clientList .outOfRange fillClient s.clientList.length 0 fds

/-- `ReceiveData`, and whether it succeeds. -/
def receiveData (recv : Ptr → Bool) (c : Ptr) : SM Bool := do
  modify fun s => { s with received := s.received ++ [c] }
  return recv c

/-- A turn of the loop of `HandleClients`. -/
def handleClient (fds : FdSet) (recv : Ptr → Bool) (c : Ptr) (_ : Unit) : SM Unit := do
  let client ← clientSocket c
  if ¬ client.isActive then return ()
  else if fds.isSet client.sock then do
    let ok ← receiveData recv c
    if ¬ ok then disconnectClient c
    else return ()
  else return ()

def handleClients (fds : FdSet) (recv : Ptr → Bool) : SM Unit := do
  let s ← get
  sweep clientList .outOfRange (handleClient fds recv) s.clientList.length 0 ()

/-! ## Runs -/

/-- What changes `ClientList` or a flag. -/
inductive SocketStep where
  | addUser (sock : UInt32)
  | disconnectAll (inGame : Ptr → Bool)
  | fillFDS (fds : FdSet)
  | handleClients (fds : FdSet) (recv : Ptr → Bool)

def serve : SocketStep → SM Unit
  | .addUser sock => addUser sock
  | .disconnectAll inGame => disconnectAll inGame
  | .fillFDS fds => do
    let _ ← fillFDS fds
    pure ()
  | .handleClients fds recv => handleClients fds recv

/-- A server without clients. -/
def start : CServerSocket where
  heap _ := none
  nextPtr := 0
  clientList := []
  accepted := []
  deleted := []
  received := []

/-! ## Views of a state -/

def active (s : CServerSocket) (c : Ptr) : Bool := (s.heap c).any (·.isActive)

def sock (s : CServerSocket) (c : Ptr) : UInt32 := ((s.heap c).map (·.sock)).getD 0

/-- A client whose `ReceiveData` is due. -/
def ready (s : CServerSocket) (fds : FdSet) (c : Ptr) : Bool := s.active c && fds.isSet (s.sock c)

/-- The state after `DisconnectClient`. -/
def disconnect (s : CServerSocket) (c : Ptr) : CServerSocket :=
  { s with
    heap := fun p => if p = c then none else s.heap p
    clientList := s.clientList.erase c
    deleted := s.deleted ++ [c] }

def receive (s : CServerSocket) (c : Ptr) : CServerSocket := { s with received := s.received ++ [c] }

variable {s t : CServerSocket} {c : Ptr} {cl : CClientSocket} {fds : FdSet}

theorem clientSocket_apply (h : s.heap c = some cl) : clientSocket c s = .ok cl s := by
  unfold clientSocket
  rw [h]

theorem active_eq (h : s.heap c = some cl) : s.active c = cl.isActive := by
  rw [active, h, Option.any_some]

theorem sock_eq (h : s.heap c = some cl) : s.sock c = cl.sock := by
  rw [sock, h, Option.map_some, Option.getD_some]

theorem active_congr (h : t.heap c = s.heap c) : t.active c = s.active c := by
  rw [active, active, h]

theorem sock_congr (h : t.heap c = s.heap c) : t.sock c = s.sock c := by
  rw [sock, sock, h]

theorem ready_congr (h : t.heap c = s.heap c) : t.ready fds c = s.ready fds c := by
  rw [ready, ready, active_congr h, sock_congr h]

theorem disconnectClient_apply (h : s.heap c = some cl) :
    disconnectClient c s = .ok () (s.disconnect c) := by
  have hclosed : ∀ t : CServerSocket, t.heap c = some ⟨invalidSocket, false⟩ →
      deleteClientSocket c t = .ok () { t with
        heap := fun p => if p = c then none else t.heap p
        deleted := t.deleted ++ [c] } := fun t ht => bind_ok (clientSocket_apply ht)
  unfold disconnectClient
  rw [bind_ok (clientSocket_apply h)]
  refine (hclosed _ (if_pos rfl)).trans ?_
  unfold disconnect
  congr 2
  funext p
  change (if p = c then none else if p = c then some _ else s.heap p) = _
  split <;> rfl

/-! ## One turn of each loop -/

/-- What a turn of `FillFDS` does. -/
def fillNext (c : Ptr) (r : FdSet × CServerSocket) : FdSet × CServerSocket :=
  if r.2.active c then (r.1.set (r.2.sock c), r.2) else (r.1, r.2.disconnect c)

/-- What a turn of `HandleClients` does. -/
def handleNext (fds : FdSet) (recv : Ptr → Bool) (c : Ptr) (r : Unit × CServerSocket) :
    Unit × CServerSocket :=
  if r.2.ready fds c then
    ((), if recv c then r.2.receive c else (r.2.receive c).disconnect c)
  else r

theorem fillClient_apply (h : s.heap c = some cl) :
    fillClient c fds s = .ok (fillNext c (fds, s)).1 (fillNext c (fds, s)).2 := by
  unfold fillClient fillNext
  rw [bind_ok (clientSocket_apply h), active_eq h, sock_eq h]
  cases cl.isActive with
  | true => rfl
  | false => exact bind_ok (disconnectClient_apply h)

theorem handleClient_apply (recv : Ptr → Bool) (u : Unit) (h : s.heap c = some cl) :
    handleClient fds recv c u s =
      .ok (handleNext fds recv c (u, s)).1 (handleNext fds recv c (u, s)).2 := by
  unfold handleClient handleNext
  rw [bind_ok (clientSocket_apply h), ready, active_eq h, sock_eq h]
  cases cl.isActive with
  | false => rfl
  | true =>
    cases fds.isSet cl.sock with
    | false => rfl
    | true =>
      rw [if_neg (by decide), if_pos rfl, Bool.true_and, if_pos rfl]
      rw [bind_ok (show receiveData recv c s = .ok (recv c) (s.receive c) from rfl)]
      cases recv c with
      | true => rfl
      | false => exact disconnectClient_apply (s := s.receive c) h

/-! ## Well-formed states -/

/-- Every entry of `ClientList` is a client that has not been deleted, and none is there
twice. -/
structure Sound (s : CServerSocket) : Prop where
  nodup : s.clientList.Nodup
  alive : ∀ c ∈ s.clientList, (s.heap c).isSome

/-- No two clients have one socket: `accept` returns none that is still open. -/
def OwnSocks (s : CServerSocket) : Prop :=
  ∀ c ∈ s.clientList, ∀ d ∈ s.clientList, s.sock c = s.sock d → c = d

theorem Sound.get (h : s.Sound) (hc : c ∈ s.clientList) : ∃ cl, s.heap c = some cl :=
  Option.isSome_iff_exists.mp (h.alive c hc)

theorem heap_disconnect {d : Ptr} (h : d ≠ c) : (s.disconnect c).heap d = s.heap d := if_neg h

theorem mem_disconnect (h : s.Sound) {d : Ptr} :
    d ∈ (s.disconnect c).clientList ↔ d ≠ c ∧ d ∈ s.clientList := h.nodup.mem_erase_iff

theorem Sound.disconnect (h : s.Sound) (c : Ptr) : (s.disconnect c).Sound where
  nodup := h.nodup.erase c
  alive d hd := by
    obtain ⟨hne, hd⟩ := (mem_disconnect h).mp hd
    rw [heap_disconnect hne]
    exact h.alive d hd

theorem Sound.receive (h : s.Sound) (c : Ptr) : (s.receive c).Sound := ⟨h.nodup, h.alive⟩

theorem Sound.addUser (h : s.Sound) (hnew : s.nextPtr ∉ s.clientList) (k : UInt32) :
    (fin (CServerSocket.addUser k s)).Sound where
  nodup := by
    refine List.Nodup.append h.nodup (List.nodup_singleton _) fun c hc hn => ?_
    exact hnew (List.mem_singleton.mp hn ▸ hc)
  alive c hc := by
    change (if c = s.nextPtr then some _ else s.heap c).isSome
    split
    · rfl
    · next hne =>
      refine h.alive c ((List.mem_append.mp hc).resolve_right fun hn => ?_)
      exact hne (List.mem_singleton.mp hn)

theorem Sound.disconnectAll (h : s.Sound) (inGame : Ptr → Bool) :
    (fin (CServerSocket.disconnectAll inGame s)).Sound where
  nodup := h.nodup
  alive c hc := by
    obtain ⟨cl, hcl⟩ := h.get hc
    change ((s.heap c).map _).isSome
    rw [hcl]
    rfl

theorem OwnSocks.disconnect (h : s.OwnSocks) (hs : s.Sound) (c : Ptr) :
    (s.disconnect c).OwnSocks := by
  intro d hd e he hde
  obtain ⟨hd, hdl⟩ := (mem_disconnect hs).mp hd
  obtain ⟨he, hel⟩ := (mem_disconnect hs).mp he
  rw [sock_congr (heap_disconnect hd), sock_congr (heap_disconnect he)] at hde
  exact h d hdl e hel hde

/-- A new client has a socket that was not open. -/
theorem OwnSocks.addUser (h : s.OwnSocks) (hnew : s.nextPtr ∉ s.clientList) {k : UInt32}
    (hk : ∀ c ∈ s.clientList, s.sock c ≠ k) : (fin (CServerSocket.addUser k s)).OwnSocks := by
  have hold : ∀ c ∈ s.clientList, (fin (CServerSocket.addUser k s)).sock c = s.sock c :=
    fun c hc => sock_congr (if_neg fun he : c = s.nextPtr => hnew (he ▸ hc))
  have hnext : (fin (CServerSocket.addUser k s)).heap s.nextPtr = some ⟨k, true⟩ := if_pos rfl
  have hat : (fin (CServerSocket.addUser k s)).sock s.nextPtr = k := sock_eq hnext
  intro c hc d hd hcd
  rcases List.mem_append.mp hc with hc | hc <;> rcases List.mem_append.mp hd with hd | hd
  · rw [hold c hc, hold d hd] at hcd
    exact h c hc d hd hcd
  · rw [List.mem_singleton.mp hd, hold c hc, hat] at hcd
    exact absurd hcd (hk c hc)
  · rw [List.mem_singleton.mp hc, hold d hd, hat] at hcd
    exact absurd hcd.symm (hk d hd)
  · rw [List.mem_singleton.mp hc, List.mem_singleton.mp hd]

theorem OwnSocks.disconnectAll (h : s.OwnSocks) (inGame : Ptr → Bool) :
    (fin (CServerSocket.disconnectAll inGame s)).OwnSocks := by
  have hsock : ∀ c, (fin (CServerSocket.disconnectAll inGame s)).sock c = s.sock c := by
    intro c
    change (((s.heap c).map _).map _).getD 0 = ((s.heap c).map _).getD 0
    rw [Option.map_map]
    congr 2
    funext cl
    change (if _ then { cl with isActive := false } else cl : CClientSocket).sock = cl.sock
    split <;> rfl
  intro c hc d hd hcd
  rw [hsock, hsock] at hcd
  exact h c hc d hd hcd

end CServerSocket

end Destiny
