import Destiny.Server.Handlers

/-!
# Words of a command

What `strtok` finds depends on the packet alone, so which command a packet gives, and with
which arguments, is a function of the packet.
-/

namespace Destiny

open Text Sql Prog

/-- The token at an index, where `strtok` continues, and what it leaves of the memory. -/
def token (mem : Bytes) (i : Nat) : Option (Bytes × Nat × Bytes) := do
  let r ← scan mem i
  let t ← r.token
  return (t, if mem[r.last]? = some 0 then r.last else r.last + 1, mem.set r.last 0)

/-- The tokens from an index on. -/
def tokens : Nat → Bytes → Nat → Option (List Bytes)
  | 0, _, _ => some []
  | n + 1, mem, i =>
    match token mem i with
    | none => none
    | some (t, next, mem) => (tokens n mem next).map (t :: ·)

/-- The arguments of a packet that gives a command. -/
def Packet.args (P : Packet) (name : Bytes) (n : Nat) : Option (List Bytes) :=
  match token P.mem 12 with
  | none => none
  | some (t, _, mem) => if t = name then tokens n mem 28 else none

/-- The level of a client's session. -/
def Server.level (s : Server) (c : Ptr) : Nat :=
  ((s.heap c).map (·.playerSession.accesslevel)).getD 0

variable {J : Junk} {c : Ptr} {s t : Server} {P : Packet} {mem : Bytes} {i n : Nat}

theorem level_received (s : Server) (c : Ptr) (l : List Nat) :
    (s.received c l).level c = s.level c := by
  rw [Server.level, s.received_heap c, Option.map_map]
  rfl

theorem strtok_ok {o : Option Bytes} {next : Nat} {mem' : Bytes}
    (h : strtok mem i s = .ok (o, next, mem') t) :
    (token mem i = o.map fun name => (name, next, mem')) ∧ ∃ l, t = { s with reads := l } := by
  unfold strtok at h
  cases hr : scan mem i with
  | none =>
    rw [hr] at h
    obtain ⟨_, s1, h1, h⟩ := of_bind_ok h
    cases h
  | some r =>
    rw [hr] at h
    obtain ⟨_, s1, h1, h⟩ := of_bind_ok h
    cases h1
    cases h
    refine ⟨?_, _, rfl⟩
    rw [token, hr]
    obtain ⟨token, last⟩ := r
    cases token <;> rfl

/-- A token put before those that follow. -/
theorem consToken_ok {name : Bytes} {ts o : Option (List Bytes)}
    (h : (match ts with
      | none => return none
      | some ts => return some (name :: ts) : M (Option (List Bytes))) s = .ok o t) :
    o = ts.map (name :: ·) ∧ t = s := by
  cases ts <;> cases h <;> exact ⟨rfl, rfl⟩

theorem strtokMany_ok {o : Option (List Bytes)} (h : strtokMany n mem i s = .ok o t) :
    o = tokens n mem i ∧ ∃ l, t = { s with reads := l } := by
  induction n generalizing mem i s t o with
  | zero =>
    cases h
    exact ⟨rfl, _, rfl⟩
  | succ n ih =>
    obtain ⟨⟨o1, next, mem1⟩, s1, h1, h⟩ := of_bind_ok h
    obtain ⟨htoken, l, rfl⟩ := strtok_ok h1
    rw [tokens, htoken]
    cases o1 with
    | none =>
      cases h
      exact ⟨rfl, l, rfl⟩
    | some t1 =>
      obtain ⟨o2, s2, h2, h⟩ := of_bind_ok h
      obtain ⟨rfl, l2, rfl⟩ := ih h2
      obtain ⟨rfl, rfl⟩ := consToken_ok h
      exact ⟨rfl, l2, rfl⟩

theorem arguments_ok {o : Option (List Bytes)} (h : arguments n mem s = .ok o t) :
    o = tokens (n + 1) mem 28 ∧ ∃ l, t = { s with reads := l } := by
  obtain ⟨⟨o1, next, mem1⟩, s1, h1, h⟩ := of_bind_ok h
  obtain ⟨htoken, l, rfl⟩ := strtok_ok h1
  rw [tokens, htoken]
  cases o1 with
  | none => cases h
  | some t1 =>
    obtain ⟨o2, s2, h2, h⟩ := of_bind_ok h
    obtain ⟨rfl, l2, rfl⟩ := strtokMany_ok h2
    obtain ⟨rfl, rfl⟩ := consToken_ok h
    exact ⟨rfl, l2, rfl⟩

theorem strtok_apply {name : Bytes} {next : Nat} {mem' : Bytes}
    (h : token mem i = some (name, next, mem')) (s : Server) :
    ∃ l, strtok mem i s = .ok (some name, next, mem') { s with reads := l } := by
  unfold strtok
  unfold token at h
  cases hr : scan mem i with
  | none =>
    rw [hr] at h
    cases h
  | some r =>
    rw [hr] at h
    obtain ⟨token, last⟩ := r
    cases token with
    | none => cases h
    | some name =>
      cases h
      exact ⟨_, rfl⟩

theorem strtokMany_apply {ts : List Bytes} (h : tokens n mem i = some ts) (s : Server) :
    ∃ l, strtokMany n mem i s = .ok (some ts) { s with reads := l } := by
  induction n generalizing mem i ts s with
  | zero =>
    cases h
    exact ⟨s.reads, rfl⟩
  | succ n ih =>
    rw [tokens] at h
    split at h
    · cases h
    next name next mem' htoken =>
    obtain ⟨us, hus, rfl⟩ := Option.map_eq_some_iff.mp h
    obtain ⟨l1, h1⟩ := strtok_apply htoken s
    obtain ⟨l2, h2⟩ := ih hus { s with reads := l1 }
    exact ⟨l2, (bind_ok h1).trans (bind_ok h2)⟩

theorem arguments_apply {ts : List Bytes} (h : tokens (n + 1) mem 28 = some ts) (s : Server) :
    ∃ l, arguments n mem s = .ok (some ts) { s with reads := l } := by
  rw [tokens] at h
  split at h
  · cases h
  next name next mem' htoken =>
  obtain ⟨us, hus, rfl⟩ := Option.map_eq_some_iff.mp h
  obtain ⟨l1, h1⟩ := strtok_apply htoken s
  obtain ⟨l2, h2⟩ := strtokMany_apply hus { s with reads := l1 }
  exact ⟨l2, (bind_ok h1).trans (bind_ok h2)⟩

theorem packetCommand_apply {name : Bytes} {next : Nat}
    (ht : token P.mem 12 = some (name, next, mem)) (hc : (s.heap c).isSome) :
    ∃ l, packetCommand J c P s = command J c (s.level c) mem name { s with reads := l } := by
  obtain ⟨cl, hcl⟩ := Option.isSome_iff_exists.mp hc
  obtain ⟨l, h1⟩ := strtok_apply ht s
  refine ⟨l, (bind_ok (client_of_some hcl)).trans ((bind_ok h1).trans ?_)⟩
  rw [Server.level, hcl]
  rfl

/-- A packet that gives a command runs it at the level of its client. -/
theorem packetCommand_ok {r : Bool} {name : Bytes} {next : Nat}
    (ht : token P.mem 12 = some (name, next, mem)) (h : packetCommand J c P s = .ok r t) :
    ∃ l, command J c (s.level c) mem name { s with reads := l } = .ok r t := by
  obtain ⟨cl, s1, h1, h⟩ := of_bind_ok h
  have hcl := (client_ok h1).1
  obtain rfl := (client_ok h1).2.symm
  obtain ⟨⟨o, next', mem'⟩, s2, h2, h⟩ := of_bind_ok h
  obtain ⟨htoken, l, rfl⟩ := strtok_ok h2
  rw [ht] at htoken
  cases o with
  | none => cases htoken
  | some name' =>
    cases htoken
    refine ⟨l, ?_⟩
    rw [Server.level, hcl]
    exact h

/-- What a packet that may give a command keeps. -/
theorem keepsAt_packetCommand_of {F : Frame Fault Server} (hc : Keeps F (client c))
    (hstrtok : ∀ mem i, Keeps F (strtok mem i))
    (h : ∀ name next mem l, token P.mem 12 = some (name, next, mem) →
      KeepsAt F { s with reads := l } (command J c (s.level c) mem name)) :
    KeepsAt F s (packetCommand J c P) := by
  refine keepsAt_bind (hc s) fun cl t ht => ?_
  obtain ⟨hcl, rfl⟩ := client_ok ht
  rw [Server.level, hcl] at h
  refine keepsAt_bind (hstrtok _ _ _) fun ⟨o, next, mem⟩ u hu => ?_
  obtain ⟨htoken, l, rfl⟩ := strtok_ok hu
  cases o with
  | none => exact keeps_pure _ _
  | some name => exact h name next mem l htoken

end Destiny
