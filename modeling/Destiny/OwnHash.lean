import Destiny.Mutual

/-!
# Hashes of the connections

`GetHash1` makes a hash from the keys in a login packet and from the number of times that
`ReceiveData` has received on the connection. Every socket has a member for it, but `CheckLogin`
sets that of the server, and every packet to every client is encrypted with it. The counter is
counted up from what the memory of the new client held.
-/

namespace Destiny

open Text Sql Prog

/-- What a server does: a step, in which a packet may be received, or a `recv` that brings no packet,
as that of a client's first four bytes. -/
inductive Input where
  | step (i : Step)
  | receiveData (c : Ptr)

/-- An input. A `recv` is counted before anything is done with what it brings. -/
def performInput (E : Env) : Input → M Unit
  | .step i => exec E i
  | .receiveData c => connected c (modifyClient c fun cl => { cl with recvpkts := cl.recvpkts + 1 })

/-- The login keys in a packet. -/
def Packet.keysLogin (P : Packet) : Bytes := (P.mem.drop 64).take 16

/-- What has been received on a connection: how often, and the keys in the last login packet with
the number of times up to it. -/
structure Received where
  recvs : Nat := 0
  login : Option (Bytes × Nat) := none
  deriving DecidableEq

/-- What is received on the connections, beside a run. -/
def record (s : Server) (g : Ptr → Received) : Input → Ptr → Received
  | .step (.packet c P _), p =>
    if p = c ∧ c ∈ s.clientList then
      { recvs := (g p).recvs + 1
        login := if P.opcode = 0x020d then some (P.keysLogin, (g p).recvs + 1) else (g p).login }
    else g p
  | .receiveData c, p =>
    if p = c ∧ c ∈ s.clientList then { g p with recvs := (g p).recvs + 1 } else g p
  | .step _, p => g p

/-- The hash that belongs to a login. -/
def ownHash (E : Env) (login : Bytes × Nat) : Nat := E.getHash1 login.1 login.2

/-- The receiver of a packet, and the hash that it is encrypted with. -/
def Event.sentWith : Event → Option (Ptr × Nat)
  | .send p _ hash1 => some (p, hash1)
  | _ => none

/-- What an input sends to a client is encrypted with the hash of its own last login. -/
def OwnHash (E : Env) (h : Server × (Ptr → Received)) (i : Input) : Prop :=
  ∀ e ∈ h.1.since (fin (performInput E i h.1)), ∀ sent ∈ e.sentWith,
    ∀ login ∈ (record h.1 h.2 i sent.1).login, sent.2 = ownHash E login

instance (E : Env) (h : Server × (Ptr → Received)) (i : Input) : Decidable (OwnHash E h i) :=
  inferInstanceAs (Decidable (∀ e ∈ _, _))

/-- The hash that a login packet sets is the one that belongs to it, and to the last login of every
other connected client. -/
def OneHash (E : Env) (h : Server × (Ptr → Received)) : Input → Prop
  | .step (.packet c P _) => c ∈ h.1.clientList → P.opcode = 0x020d →
    (∀ cl ∈ h.1.heap c, E.getHash1 P.keysLogin (cl.recvpkts + 1) =
      ownHash E (P.keysLogin, (h.2 c).recvs + 1)) ∧
    ∀ p ∈ h.1.clientList, p ≠ c → ∀ login ∈ (h.2 p).login,
      ownHash E login = ownHash E (P.keysLogin, (h.2 c).recvs + 1)
  | .step _ | .receiveData _ => True

instance (E : Env) (h : Server × (Ptr → Received)) : (i : Input) → Decidable (OneHash E h i)
  | .step (.packet c P _) => inferInstanceAs (Decidable (c ∈ h.1.clientList → P.opcode = 0x020d →
      (∀ cl ∈ h.1.heap c, E.getHash1 P.keysLogin (cl.recvpkts + 1) =
        ownHash E (P.keysLogin, (h.2 c).recvs + 1)) ∧
      ∀ p ∈ h.1.clientList, p ≠ c → ∀ login ∈ (h.2 p).login,
        ownHash E login = ownHash E (P.keysLogin, (h.2 c).recvs + 1)))
  | .step (.addUser _) | .step (.disconnectClient _) | .step (.visiblityList ..) | .receiveData _ =>
    .isTrue trivial

variable {E : Env} {J : Junk} {c p : Ptr} {s t u : Server} {P : Packet} {g : Ptr → Received} {k : Nat}

/-! ## What is sent under a hash -/

/-- The hash is `k` after, and what has been sent since was encrypted with it, to clients that are
there. -/
structure Sent (k : Nat) (s t : Server) : Prop where
  hash1 : t.hash1 = k
  live : ∀ p, (t.heap p).isSome = (s.heap p).isSome
  log : ∃ es, t.trace = es ++ s.trace ∧ ∀ e ∈ es, ∀ sent ∈ e.sentWith,
    (s.heap sent.1).isSome ∧ sent.2 = k

theorem Sent.trans (h1 : Sent k s t) (h2 : Sent k t u) : Sent k s u := by
  obtain ⟨es, ht, hes⟩ := h1.log
  obtain ⟨fs, hu, hfs⟩ := h2.log
  refine ⟨h2.hash1, fun p => (h2.live p).trans (h1.live p), fs ++ es, ?_, fun e he => ?_⟩
  · rw [hu, ht, List.append_assoc]
  · rcases List.mem_append.mp he with he | he
    · intro sent hsent
      rw [← h1.live]
      exact hfs e he sent hsent
    · exact hes e he

/-- The hash stays, and what is sent is encrypted with it. -/
def sends1 : Frame Fault Server where
  rel s t := Sent s.hash1 s t
  err _ _ := True
  refl _ := ⟨rfl, fun _ => rfl, [], rfl, fun _ h => absurd h List.not_mem_nil⟩
  trans h1 h2 := h1.trans (h1.hash1 ▸ h2)
  err_trans _ h := h

theorem sends1_same (h1 : t.hash1 = s.hash1) (h2 : ∀ p, (t.heap p).isSome = (s.heap p).isSome)
    (h3 : t.trace = s.trace) : sends1.rel s t :=
  ⟨h1, h2, [], h3, fun _ h => absurd h List.not_mem_nil⟩

theorem sends1_log {e : Event} (he : e.sentWith = none) : Logs sends1 e := fun _ =>
  ⟨rfl, fun _ => rfl, [e], rfl, fun e' he' sent hsent => by
    rw [List.mem_singleton.mp he', he] at hsent
    cases hsent⟩

theorem sends1_update (s : Server) (c : Ptr) (f : CConnClient → CConnClient) :
    sends1.rel s (s.update c f) :=
  sends1_same rfl (s.update_isSome c f) rfl

theorem open_sends1 (c : Ptr) : Open sends1 c where
  packet _ _ := sends1_same rfl (fun _ => rfl) rfl
  calls _ := sends1_same rfl (fun _ => rfl) rfl
  send s p n hp := ⟨rfl, fun _ => rfl, [_], rfl, fun e he sent hsent => by
    rw [List.mem_singleton.mp he] at hsent
    cases hsent
    exact ⟨Option.isSome_iff_ne_none.mpr hp, rfl⟩⟩
  fault _ _ _ _ := trivial
  derefs _ _ := trivial
  visible _ _ _ _ _ _ := trivial
  listed _ _ _ _ := trivial
  reads _ _ := sends1_same rfl (fun _ => rfl) rfl
  npcId _ _ := sends1_same rfl (fun _ => rfl) rfl
  body s f _ := sends1_update s c f
  data _ _ := sends1_same rfl (fun _ => rfl) rfl
  ids _ _ _ _ _ := sends1_same rfl (fun _ => rfl) rfl
  moves s f _ := sends1_update s c f
  lists := ⟨sends1_log rfl, fun _ => sends1_log rfl, fun _ => trivial⟩

theorem session_sends1 (f : CAccount → CAccount) : Session sends1 c f := fun s => sends1_update s c _

theorem logins_sends1 (c : Ptr) (u : Bytes) : Logins sends1 c u where
  ok := sends1_log rfl
  userid _ := session_sends1 _
  grant s b := sends1.trans (session_sends1 (fun a => { a with accesslevel := u32 (atoi b) }) s)
    (sends1_log (e := .granted c (atoi b)) rfl _)
  clientid _ := session_sends1 _
  loggedIn := session_sends1 _

/-- Only a login changes the hash. -/
theorem sends1_packet (ho : c ∈ s.clientList → P.opcode ≠ 0x020d) :
    sends1.rel s (fin (exec E (.packet c P J) s)) := by
  have hO := open_sends1 c
  refine (keepsAt_packet hO.toCommon P fun hc l => hO.dispatch P _ (fun h => absurd h (ho hc))
    (fun _ => ?_) fun _ _ _ _ _ _ => sends1_log rfl).rel
  exact ⟨fun _ => session_sends1 _, session_sends1 _, session_sends1 _⟩

theorem sends1_visiblityList : sends1.rel s (fin (exec E (.visiblityList c J) s)) :=
  (keepsAt_visiblityList (open_sends1 c).toBasic (fun _ _ _ => trivial)
    ⟨fun _ => sends1_log rfl, fun _ _ => sends1_log rfl⟩ (open_sends1 c).ids
    (fun _ _ => sends1_same rfl (fun _ => rfl) rfl) fun s f _ => sends1_update s c f).rel

/-! ## Logins -/

/-- What a login packet sets before its checks. -/
theorem readLogin_hash1 {r : Bytes × Bytes × Nat} (h : readLogin E c P s = .ok r t) :
    ∃ cl, s.heap c = some cl ∧ t.hash1 = E.getHash1 P.keysLogin cl.recvpkts := by
  obtain ⟨keys, s1, h1, h⟩ := of_bind_ok h
  obtain ⟨pass, s2, h2, h⟩ := of_bind_ok h
  obtain ⟨user, s3, h3, h⟩ := of_bind_ok h
  obtain ⟨ver, s4, h4, h⟩ := of_bind_ok h
  obtain ⟨cl, s5, h5, h⟩ := of_bind_ok h
  obtain ⟨rfl, rfl⟩ := rd_ok h1
  obtain ⟨-, rfl⟩ := rd_ok h2
  obtain ⟨-, rfl⟩ := rd_ok h3
  obtain ⟨-, rfl⟩ := rdInt_ok h4
  obtain ⟨hcl, rfl⟩ := client_ok h5
  cases h
  exact ⟨cl, hcl, rfl⟩

/-- A packet that is too short for its opcode to be read does nothing. -/
theorem packet_cases (hc : c ∈ s.clientList) :
    (∃ e l, exec E (.packet c P J) s = .error e (s.received c l)) ∨
      ∃ l, exec E (.packet c P J) s =
        (dispatch E J c P P.opcode >>= fun _ => pure ()) (s.received c l) := by
  have hcount : modifyClient c (fun cl => { cl with recvpkts := cl.recvpkts + 1 }) s =
      .ok () (s.received c s.reads) := rfl
  have hexec : exec E (.packet c P J) s =
      (packetControl E J c P >>= fun _ => pure ()) (s.received c s.reads) := by
    rw [exec, connected_apply, if_pos hc]
    exact bind_ok hcount
  rw [hexec]
  cases h1 : rdInt P 4 2 (s.received c s.reads) with
  | error e u =>
    obtain ⟨-, l, rfl⟩ := rdInt_error h1
    exact .inl ⟨e, l, bind_error (bind_error h1)⟩
  | ok op u =>
    obtain ⟨rfl, rfl⟩ := rdInt_ok h1
    cases h2 : rdInt P 6 2 { s.received c s.reads with
        reads := (s.received c s.reads).reads ++ List.range' 4 2 } with
    | error e u =>
      obtain ⟨-, l, rfl⟩ := rdInt_error h2
      exact .inl ⟨e, l, bind_error ((bind_ok h1).trans (bind_error h2))⟩
    | ok cid u =>
      obtain ⟨-, rfl⟩ := rdInt_ok h2
      refine .inr ⟨s.reads ++ List.range' 4 2 ++ List.range' 6 2, ?_⟩
      have hcontrol : packetControl E J c P (s.received c s.reads) =
          dispatch E J c P P.opcode (s.received c (s.reads ++ List.range' 4 2 ++ List.range' 6 2)) :=
        (bind_ok h1).trans (bind_ok h2)
      rw [bind_apply, hcontrol, bind_apply]

/-- A login packet sends under the hash that belongs to its keys and to the counter, or nothing. -/
theorem sent_login {cl : CConnClient} (hc : c ∈ s.clientList) (hcl : s.heap c = some cl)
    (ho : P.opcode = 0x020d) :
    (∃ e t, exec E (.packet c P J) s = .error e t ∧ t.trace = s.trace) ∨
      Sent (E.getHash1 P.keysLogin (cl.recvpkts + 1)) s (fin (exec E (.packet c P J) s)) := by
  rcases packet_cases (E := E) (J := J) (P := P) hc with ⟨e, l, hx⟩ | ⟨l, hx⟩
  · exact .inl ⟨e, _, hx, rfl⟩
  rw [ho] at hx
  have hx : exec E (.packet c P J) s = (checkLogin E J c P >>= fun _ => pure ()) (s.received c l) := hx
  cases hr : readLogin E c P (s.received c l) with
  | error e u =>
    obtain ⟨⟨m, rfl⟩, -⟩ := readLogin_error hr
    have hlogin : checkLogin E J c P (s.received c l) = .error e { s.received c l with reads := m } :=
      bind_error hr
    exact .inl ⟨e, _, hx.trans (bind_error hlogin), rfl⟩
  | ok r u =>
    obtain ⟨rfl, hnamed⟩ := readLogin_ok hr
    obtain ⟨cl', hcl', hhash⟩ := readLogin_hash1 hr
    have hcount : cl'.recvpkts = cl.recvpkts + 1 := by
      rw [Server.received_heap, hcl] at hcl'
      cases hcl'
      rfl
    rw [hcount] at hhash
    have hbegin : Sent (E.getHash1 P.keysLogin (cl.recvpkts + 1)) s u := by
      refine ⟨hhash, fun p => ?_, [_], hnamed.trace, fun e he sent hsent => ?_⟩
      · rw [hnamed.heap]
        exact (Server.update_isSome _ c _ p).trans (Server.update_isSome s c _ p)
      · rw [List.mem_singleton.mp he] at hsent
        cases hsent
    have hchecks : sends1.rel u
        (fin (checkAccount E J c P.username.str P.password.str P.cliver u)) :=
      ((open_sends1 c).checkAccount (logins_sends1 c _) P.cliver u).rel
    have hlogin : checkLogin E J c P (s.received c l) =
        checkAccount E J c P.username.str P.password.str P.cliver u := bind_ok hr
    right
    rw [hx, fin_bind_pure, hlogin]
    exact hbegin.trans (hbegin.hash1 ▸ hchecks)

/-! ## Runs -/

/-- The hash belongs to the last login of every connected client, and only clients that have been
there have logged in. -/
structure Hashed (E : Env) (h : Server × (Ptr → Received)) : Prop where
  sound : h.1.Sound
  own : ∀ p ∈ h.1.clientList, ∀ login ∈ (h.2 p).login, h.1.hash1 = ownHash E login
  below : ∀ p, (h.2 p).login.isSome → p < h.1.nextPtr

theorem record_packet : record s g (.step (.packet c P J)) p =
    if p = c ∧ c ∈ s.clientList then
      { recvs := (g p).recvs + 1
        login := if P.opcode = 0x020d then some (P.keysLogin, (g p).recvs + 1) else (g p).login }
    else g p := rfl

/-- The last login is that of before, but for the client of a login packet. -/
theorem record_login (h : p ≠ c ∨ c ∉ s.clientList ∨ P.opcode ≠ 0x020d) :
    (record s g (.step (.packet c P J)) p).login = (g p).login := by
  rw [record_packet]
  split
  · next hpc =>
    rcases h with h | h | h
    · exact absurd hpc.1 h
    · exact absurd hpc.2 h
    · exact if_neg h
  · rfl

theorem record_login_self (hc : c ∈ s.clientList) (ho : P.opcode = 0x020d) :
    (record s g (.step (.packet c P J)) c).login = some (P.keysLogin, (g c).recvs + 1) := by
  rw [record_packet, if_pos ⟨rfl, hc⟩]
  exact if_pos ho

theorem record_receiveData : (record s g (.receiveData c) p).login = (g p).login := by
  show (if p = c ∧ c ∈ s.clientList then { g p with recvs := (g p).recvs + 1 } else g p).login = _
  split <;> rfl

/-- After what an input sends, the hash is right for whom it is sent to. -/
theorem Hashed.sent {i : Input} (h : Hashed E (s, g)) (hsent : Sent k s t)
    (hk : ∀ p ∈ s.clientList, ∀ login ∈ (record s g i p).login, k = ownHash E login) :
    ∀ e ∈ s.since t, ∀ sent ∈ e.sentWith, ∀ login ∈ (record s g i sent.1).login,
      sent.2 = ownHash E login := by
  obtain ⟨es, htrace, hes⟩ := hsent.log
  rw [since_eq htrace]
  intro e he sent hmem login hlogin
  obtain ⟨hlive, hkey⟩ := hes e he sent hmem
  rw [hkey]
  exact hk sent.1 ((h.sound.live sent.1).mp hlive) login hlogin

theorem ownHash_nothing {i : Input} (h : (fin (performInput E i s)).trace = s.trace) :
    OwnHash E (s, g) i := by
  intro e he
  have hnone : s.since (fin (performInput E i s)) = [] := since_eq h
  rw [hnone] at he
  exact absurd he List.not_mem_nil

/-- A packet other than a login. -/
theorem Hashed.packet (h : Hashed E (s, g)) (ho : c ∈ s.clientList → P.opcode ≠ 0x020d) :
    OwnHash E (s, g) (.step (.packet c P J)) := by
  have hrecord : ∀ p, (record s g (.step (.packet c P J)) p).login = (g p).login := fun p => by
    apply record_login
    by_cases hc : c ∈ s.clientList
    · exact .inr (.inr (ho hc))
    · exact .inr (.inl hc)
  refine h.sent (sends1_packet ho) fun p hp login hlogin => ?_
  rw [hrecord] at hlogin
  exact h.own p hp login hlogin

/-- The hash that a login packet sets is the right one for every client. -/
theorem Hashed.login (hi : OneHash E (s, g) (.step (.packet c P J))) (hc : c ∈ s.clientList)
    (ho : P.opcode = 0x020d) {cl : CConnClient} (hcl : s.heap c = some cl) :
    ∀ p ∈ s.clientList, ∀ login ∈ (record s g (.step (.packet c P J)) p).login,
      E.getHash1 P.keysLogin (cl.recvpkts + 1) = ownHash E login := by
  obtain ⟨hown, hothers⟩ := hi hc ho
  intro p hp login hlogin
  rw [hown cl hcl]
  by_cases hpc : p = c
  · rw [hpc, record_login_self hc ho] at hlogin
    cases hlogin
    rfl
  · rw [record_login (.inl hpc)] at hlogin
    exact (hothers p hp hpc login hlogin).symm

theorem Hashed.ownHash (h : Hashed E (s, g)) {i : Input} (hi : OneHash E (s, g) i) :
    OwnHash E (s, g) i := by
  cases i with
  | receiveData c =>
    apply ownHash_nothing
    rw [performInput, connected_apply]
    split <;> rfl
  | step i =>
    cases i with
    | addUser J => exact ownHash_nothing rfl
    | disconnectClient c =>
      apply ownHash_nothing
      rw [performInput, exec_disconnectClient h.sound]
      split <;> rfl
    | visiblityList c J =>
      exact h.sent (sends1_visiblityList (E := E) (J := J) (c := c)) h.own
    | packet c P J =>
      by_cases hlogin : c ∈ s.clientList ∧ P.opcode = 0x020d
      · obtain ⟨hc, ho⟩ := hlogin
        obtain ⟨cl, hcl⟩ := Option.isSome_iff_exists.mp ((h.sound.live c).mpr hc)
        rcases sent_login (E := E) (J := J) hc hcl ho with ⟨e, t, hx, ht⟩ | hsent
        · apply ownHash_nothing
          rw [performInput, hx]
          exact ht
        · exact h.sent hsent (Hashed.login hi hc ho hcl)
      · exact h.packet fun hc ho => hlogin ⟨hc, ho⟩

/-- An input that keeps who is there. -/
theorem Hashed.same (h : Hashed E (s, g)) {g' : Ptr → Received} (ht : t.Sound)
    (hlist : ∀ p ∈ t.clientList, p ∈ s.clientList ∨ p = s.nextPtr) (hnext : s.nextPtr ≤ t.nextPtr)
    (hhash : t.hash1 = s.hash1) (hlogins : ∀ p, (g' p).login = (g p).login) : Hashed E (t, g') := by
  refine ⟨ht, fun p hp login hlogin => ?_, fun p hp => ?_⟩
  · rw [hlogins] at hlogin
    rw [hhash]
    rcases hlist p hp with hp | rfl
    · exact h.own p hp login hlogin
    · -- nobody new has logged in before
      have hbelow := h.below s.nextPtr (Option.isSome_iff_exists.mpr ⟨login, hlogin⟩)
      exact absurd hbelow (Nat.lt_irrefl _)
  · rw [hlogins] at hp
    exact (h.below p hp).trans_le hnext

/-- The same of a call on behalf of a client. -/
theorem Hashed.called (h : Hashed E (s, g)) {g' : Ptr → Received} (hc : c ∈ s.clientList)
    (hcall : (callOf c).rel s t) (hhash : t.hash1 = s.hash1)
    (hlogins : ∀ p, (g' p).login = (g p).login) : Hashed E (t, g') := by
  have hlist : t.clientList = s.clientList := congrArg (·.2.1) hcall.1
  have hnext : t.nextPtr = s.nextPtr := congrArg (·.2.2) hcall.1
  exact h.same (h.sound.of_callOf hc hcall) (fun p hp => .inl (hlist ▸ hp)) hnext.ge hhash hlogins

theorem Hashed.loggedIn (h : Hashed E (s, g)) (hi : OneHash E (s, g) (.step (.packet c P J)))
    (hc : c ∈ s.clientList) (ho : P.opcode = 0x020d) (hr : exec E (.packet c P J) s = .ok () t) :
    Hashed E (t, record s g (.step (.packet c P J))) := by
  obtain ⟨cl, hcl⟩ := Option.isSome_iff_exists.mp ((h.sound.live c).mpr hc)
  have hcall := (callOf_packet (E := E) (c := c) (s := s) J P).rel
  rcases sent_login (E := E) (J := J) hc hcl ho with ⟨e, u, hx, -⟩ | hsent
  · rw [hr] at hx
    cases hx
  rw [hr] at hcall hsent
  have hlist : t.clientList = s.clientList := congrArg (·.2.1) hcall.1
  have hnext : t.nextPtr = s.nextPtr := congrArg (·.2.2) hcall.1
  have hhash : t.hash1 = E.getHash1 P.keysLogin (cl.recvpkts + 1) := hsent.hash1
  refine ⟨h.sound.of_callOf hc hcall, fun p hp login hlogin => ?_, fun p hp => ?_⟩
  · rw [hhash]
    exact Hashed.login hi hc ho hcl p (hlist ▸ hp) login hlogin
  · show p < t.nextPtr
    rw [hnext]
    by_cases hpc : p = c
    · rw [hpc]
      exact h.sound.below c hc
    · rw [record_login (.inl hpc)] at hp
      exact h.below p hp

theorem Hashed.step (h : Hashed E (s, g)) {i : Input} (hi : OneHash E (s, g) i)
    (hr : performInput E i s = .ok () t) : Hashed E (t, record s g i) := by
  cases i with
  | receiveData c =>
    rw [performInput, connected_apply] at hr
    split at hr <;> cases hr
    · next hc => exact h.called hc (callOf_update s _) rfl fun _ => record_receiveData
    · exact h.same h.sound (fun p hp => .inl hp) (Nat.le_refl _) rfl fun _ => record_receiveData
  | step i =>
    have hsound := h.sound.step (E := E) i
    cases i with
    | addUser J =>
      cases hr
      refine h.same hsound (fun p hp => ?_) (Nat.le_succ _) rfl fun _ => rfl
      rcases List.mem_append.mp hp with hp | hp
      · exact .inl hp
      · exact .inr (List.mem_singleton.mp hp)
    | disconnectClient c =>
      rw [performInput, exec_disconnectClient h.sound] at hr
      cases hr
      split
      · exact h.same (h.sound.delete c) (fun p hp => .inl (List.mem_of_mem_erase hp)) (Nat.le_refl _)
          rfl fun _ => rfl
      · exact h.same h.sound (fun p hp => .inl hp) (Nat.le_refl _) rfl fun _ => rfl
    | visiblityList c J =>
      have hr : exec E (.visiblityList c J) s = .ok () t := hr
      by_cases hc : c ∈ s.clientList
      · have hcall := (callOf_visiblityList (E := E) (c := c) (s := s) J).rel
        have hsends := sends1_visiblityList (E := E) (J := J) (c := c) (s := s)
        rw [hr] at hcall hsends
        exact h.called hc hcall hsends.hash1 fun _ => rfl
      · rw [exec, connected_apply, if_neg hc] at hr
        cases hr
        exact h.same h.sound (fun p hp => .inl hp) (Nat.le_refl _) rfl fun _ => rfl
    | packet c P J =>
      have hr : exec E (.packet c P J) s = .ok () t := hr
      by_cases hc : c ∈ s.clientList
      swap
      · rw [exec, connected_apply, if_neg hc] at hr
        cases hr
        exact h.same h.sound (fun p hp => .inl hp) (Nat.le_refl _) rfl fun _ => record_login (.inr (.inl hc))
      by_cases ho : P.opcode = 0x020d
      · exact h.loggedIn hi hc ho hr
      · have hcall := (callOf_packet (E := E) (c := c) (s := s) J P).rel
        have hsends := sends1_packet (E := E) (J := J) (s := s) fun _ : c ∈ s.clientList => ho
        rw [hr] at hcall hsends
        exact h.called hc hcall hsends.hash1 fun _ => record_login (.inr (.inr ho))

/-- **Every packet is encrypted with its receiver's own hash** in every run in which a login packet
sets the hash that belongs to it and to the last login of every other connected client. -/
theorem ownHash_of_oneHash {s0 : Server} (h : s0.Fresh) {is : List Input}
    (hi : Along (ghost (performInput E) record) (OneHash E) (s0, fun _ => {}) is) :
    Along (ghost (performInput E) record) (OwnHash E) (s0, fun _ => {}) is := by
  have h0 : Hashed E (s0, fun _ => {}) := by
    refine ⟨h.sound, fun p _ login hlogin => ?_, fun p hp => ?_⟩
    · cases hlogin
    · cases hp
  refine hi.imp_ok (fun s i t hs hc ht => ?_) (fun s i hs hc => ?_) h0
  · obtain ⟨hok, hg⟩ := ghost_ok ht
    have hstep : Hashed E (t.1, record s.1 s.2 i) := Hashed.step hs hc hok
    rw [← hg] at hstep
    exact hstep
  · exact Hashed.ownHash hs hc

/-- A server that hashes the keys and the number of packets. -/
def Env.hashing : Env := { Env.plain with getHash1 := fun keys n => ofLE keys + n }

/-- A login packet with keys. -/
def keyedFrame (keys : Bytes) : Packet :=
  frame 0x020d ((Field.copy 12 (ascii "pw")).bytes ++ (Field.copy 12 (ascii "bob")).bytes ++
    List.replicate 28 0 ++ keys ++ List.replicate 16 0)

/-- The keys are where a login looks for them. -/
example : (keyedFrame (List.replicate 16 7)).keysLogin = List.replicate 16 7 := by decide +kernel

/-- Two players log in, each after the first four bytes, and the first one enters the world. -/
def twoLogins (keys keys' : Bytes) : List Input :=
  [.step (.addUser {}), .step (.addUser {}), .receiveData 0, .receiveData 1,
    .step (.packet 0 (keyedFrame keys) { now := 100 }),
    .step (.packet 1 (keyedFrame keys') { now := 100 }), .step (.packet 0 worldFrame {})]

theorem ownHash_of_oneHash_sameKeys :
    Along (ghost (performInput Env.hashing) record) (OwnHash Env.hashing)
      (Server.start (oneAccount 1), fun _ => {})
      (twoLogins (List.replicate 16 7) (List.replicate 16 7)) :=
  ownHash_of_oneHash (Server.start_fresh _) (by decide +kernel)

/-- With keys of their own, what the first player is sent in the world is encrypted with the hash of
the second. -/
theorem twoLogins_otherHash :
    thrown (run (ghost (performInput Env.hashing) record)
      (twoLogins (List.replicate 16 7) (List.replicate 16 8))
      (Server.start (oneAccount 1), fun _ => {})) = none ∧
    ¬Along (ghost (performInput Env.hashing) record) (OwnHash Env.hashing)
      (Server.start (oneAccount 1), fun _ => {})
      (twoLogins (List.replicate 16 7) (List.replicate 16 8)) := by
  decide +kernel

end Destiny
