import Destiny.Server.Session

/-!
# World entry

`SendToWorld` lets every connection into the world. Nothing ties it to `CheckLogin` but the
name in the session, which `CheckLogin` copies from the packet before any check. An entry
follows a login as the entering account as long as every world packet comes after a login
packet, the last of which names an account that was let in.
-/

namespace Destiny

open Text Sql Prog

/-- The login packets, with the accounts they name. -/
def tries : Kind Bytes where
  of c
    | .loginTry p u => if p = c then some u else none
    | _ => none
  quiet c e he := by cases e <;> first | rfl | cases he
  about c e x h := by cases e <;> simp at h; rw [← h.1]; rfl

/-- Who enters the world was let in before as the account its session names. -/
def EntersLoggedIn (s t : Server) : Prop :=
  ∀ c ∈ t.clientList, ∀ a' ∈ t.session c, a'.inGame = true →
    (∀ a ∈ s.session c, a.inGame = false) → .loginOk c a'.username.str ∈ s.trace

instance (s t : Server) : Decidable (EntersLoggedIn s t) :=
  inferInstanceAs (Decidable (∀ c ∈ t.clientList, _))

/-- A world packet from outside the world comes after a login packet, and the account named
by the last one has been let in on that connection. -/
def TriedIsLetIn (s : Server) : Step → Prop
  | .packet c P _ => c ∈ s.clientList → P.opcode = 0x0213 →
    (∀ a ∈ s.session c, a.inGame = false) → ∃ u ∈ tries.last c s.trace, .loginOk c u ∈ s.trace
  | _ => True

instance (s : Server) : (i : Step) → Decidable (TriedIsLetIn s i)
  | .packet c P _ => inferInstanceAs (Decidable (c ∈ s.clientList → P.opcode = 0x0213 →
      (∀ a ∈ s.session c, a.inGame = false) → ∃ u ∈ tries.last c s.trace, .loginOk c u ∈ s.trace))
  | .addUser _ | .disconnectClient _ | .visiblityList .. => .isTrue trivial

variable {E : Env} {J : Junk} {c : Ptr} {s t : Server} {P : Packet} {tr es : List Event}

/-! ## The name in a session -/

/-- Every session that has seen a login packet has the name in the last one. -/
abbrev NamesTried : Server → Prop := Tied tries fun a o => ∀ u ∈ o, a.username.str = u

theorem silent_namesTried : Silent (.inv NamesTried) where
  rel hq h := h.quiet hq
  err _ _ := trivial

theorem session_namesTried {f : CAccount → CAccount} (hf : ∀ a, (f a).username = a.username) :
    Session (.inv NamesTried) c f := fun _ h =>
  h.setSession fun a o ho => by rw [hf]; exact ho

theorem logins_namesTried (u : Bytes) : Logins (.inv NamesTried) c u where
  ok _ h := h.log fun _ => rfl
  userid _ := session_namesTried fun _ => rfl
  clientid _ := session_namesTried fun _ => rfl
  loggedIn := session_namesTried fun _ => rfl
  grant s b h := Tied.log (e := .granted c (atoi b)) (session_namesTried (c := c)
    (f := fun a => { a with accesslevel := u32 (atoi b) }) (fun _ => rfl) s h) fun _ => rfl

theorem Named.namesTried (hn : Named c P s t) (h : NamesTried s) : NamesTried t :=
  h.renew hn.trace (if_pos rfl) hn.session fun a u hu => by cases hu; rfl

theorem keepsAt_checkLogin_namesTried : KeepsAt (.inv NamesTried) s (checkLogin E J c P) := by
  have hF := silent_namesTried
  have hO := hF.open c
  refine keepsAt_checkLogin hO.toBasic hO.derefs hO.reads fun t ht => ⟨ht.namesTried, ?_⟩
  exact hO.checkAccount (logins_namesTried _) _ t

theorem NamesTried.step (h : NamesTried s) (hs : s.Sound) (i : Step) :
    NamesTried (fin (exec E i s)) := by
  have hF := silent_namesTried
  cases i with
  | addUser J => exact h.addUser hs fun u hu => by cases hu
  | disconnectClient c =>
    rw [exec_disconnectClient hs]
    split
    · exact h.delete c
    · exact h
  | packet c P J =>
    refine (hF.packet (fun _ _ _ => keepsAt_checkLogin_namesTried) (fun _ => ?_)
      fun _ _ _ _ _ act _ h => h.log (e := .gm c act) fun _ => rfl).rel h
    exact ⟨fun _ => session_namesTried fun _ => rfl, session_namesTried fun _ => rfl,
      session_namesTried fun _ => rfl⟩
  | visiblityList c J => exact hF.visiblityList.rel h

/-! ## Entering -/

/-- No packet but a world packet changes who is in the world. -/
theorem inGame_packet (ho : P.opcode ≠ 0x0213) :
    (sessionView CAccount.inGame).rel s (fin (exec E (.packet c P J) s)) := by
  have hF := silent_sessionView (v := CAccount.inGame)
  have hO := hF.open c
  refine (hF.packet (fun _ _ _ => ?_) (fun h => absurd h ho) fun _ _ _ _ _ _ _ => rfl).rel
  refine keepsAt_checkLogin hO.toBasic hO.derefs hO.reads fun t ht => ⟨ht.view fun _ => rfl, ?_⟩
  refine hO.checkAccount ?_ _ t
  exact ⟨⟨fun _ => rfl, fun _ => session_sessionView fun _ => rfl,
    fun s b => sessionView_setSession (f := fun a => { a with accesslevel := u32 (atoi b) })
      (fun _ => rfl) s⟩,
    fun _ => session_sessionView fun _ => rfl, session_sessionView fun _ => rfl⟩

/-- A world packet changes no name, and of the other sessions nothing. -/
theorem world_packet (ho : P.opcode = 0x0213) :
    (sessionView CAccount.username).rel s (fin (exec E (.packet c P J) s)) ∧
      (othersView c).rel s (fin (exec E (.packet c P J) s)) := by
  have hlogin : P.opcode ≠ 0x020d := by rw [ho]; decide
  constructor
  · refine (silent_sessionView.packet (fun _ h => absurd h hlogin) (fun _ => ?_)
      fun _ _ _ _ _ _ _ => rfl).rel
    exact ⟨fun _ => session_sessionView fun _ => rfl, session_sessionView fun _ => rfl,
      session_sessionView fun _ => rfl⟩
  · refine (silent_othersView.packet (fun _ h => absurd h hlogin) (fun _ => ?_)
      fun _ _ _ _ _ _ _ => rfl).rel
    exact ⟨fun _ => session_othersView _, session_othersView _, session_othersView _⟩

/-- Who was in the world before does not enter. -/
theorem entersLoggedIn_of_inGame (h : ∀ p a', t.session p = some a' → a'.inGame = true →
    ∃ a, s.session p = some a ∧ a.inGame = true) : EntersLoggedIn s t := by
  intro p _ a' ha hg hnot
  obtain ⟨a, ha, hg⟩ := h p a' ha hg
  rw [hnot a ha] at hg
  cases hg

theorem entersLoggedIn_world (hn : NamesTried s) (ho : P.opcode = 0x0213)
    (hi : TriedIsLetIn s (.packet c P J)) : EntersLoggedIn s (fin (exec E (.packet c P J) s)) := by
  by_cases hc : c ∈ s.clientList
  · obtain ⟨hname, hothers⟩ := world_packet (E := E) (J := J) (c := c) (s := s) ho
    intro p _ a' ha hg hnot
    by_cases hp : p = c
    · subst hp
      obtain ⟨u, hu, hok⟩ := hi hc ho hnot
      obtain ⟨a, ha, hv⟩ := view_of_rel hname ha
      rw [hv, hn p a ha u hu]
      exact hok
    · rw [othersView_session hothers hp] at ha
      rw [hnot a' ha] at hg
      cases hg
  · rw [exec, connected_apply, if_neg hc]
    exact entersLoggedIn_of_inGame fun p a' ha hg => ⟨a', ha, hg⟩

theorem entersLoggedIn_step (hs : s.Sound) (hn : NamesTried s) {i : Step} (hi : TriedIsLetIn s i) :
    EntersLoggedIn s (fin (exec E i s)) := by
  cases i with
  | addUser J =>
    refine entersLoggedIn_of_inGame fun p a' ha hg => ?_
    rw [session_addUser] at ha
    split at ha
    · cases ha; cases hg
    · exact ⟨a', ha, hg⟩
  | disconnectClient c =>
    refine entersLoggedIn_of_inGame fun p a' ha hg => ⟨a', ?_, hg⟩
    rw [exec_disconnectClient hs] at ha
    split at ha
    · rw [fin_ok, session_delete] at ha
      split at ha
      · cases ha
      · exact ha
    · exact ha
  | packet c P J =>
    by_cases ho : P.opcode = 0x0213
    · exact entersLoggedIn_world hn ho hi
    · refine entersLoggedIn_of_inGame fun p a' ha hg => ?_
      obtain ⟨a, ha, hv⟩ := view_of_rel (inGame_packet ho) ha
      exact ⟨a, ha, hv ▸ hg⟩
  | visiblityList c J =>
    refine entersLoggedIn_of_inGame fun p a' ha hg => ?_
    obtain ⟨a, ha, hv⟩ :=
      view_of_rel (silent_sessionView (v := CAccount.inGame)).visiblityList.rel ha
    exact ⟨a, ha, hv ▸ hg⟩

/-- **Who enters the world is logged in**, as the account the session names, in every run in
which a world packet only follows login packets the last of which names an account let in. -/
theorem entersLoggedIn_of_triedIsLetIn {s0 : Server} (h : s0.Fresh) {is : List Step}
    (hi : Along (exec E) TriedIsLetIn s0 is) :
    Along (exec E) (fun s i => EntersLoggedIn s (fin (exec E i s))) s0 is := by
  have h0 : NamesTried s0 := fun p a ha => by simp [Server.session, h.heap] at ha
  exact hi.imp (I := fun s => s.Sound ∧ NamesTried s)
    (fun s i hs _ => ⟨hs.1.step i, hs.2.step hs.1 i⟩)
    (fun s i hs hc => entersLoggedIn_step hs.1 hs.2 hc) ⟨h.sound, h0⟩

/-- A player logs in, with some password, and enters the world. -/
def entry (password : Bytes) : List Step :=
  [.addUser {}, .packet 0 (loginFrame (ascii "bob") password) { now := 100 },
    .packet 0 worldFrame {}]

theorem entersLoggedIn_of_triedIsLetIn_entry :
    Along (exec Env.plain) (fun s i => EntersLoggedIn s (fin (exec Env.plain i s)))
      (Server.start (oneAccount 1)) (entry (ascii "pw")) :=
  entersLoggedIn_of_triedIsLetIn (Server.start_fresh _) (by decide +kernel)

/-- A wrong password is refused, and the world packet after it is not. -/
theorem entry_refused :
    ¬ Along (exec Env.plain) (fun s i => EntersLoggedIn s (fin (exec Env.plain i s)))
      (Server.start (oneAccount 1)) (entry (ascii "x")) := by
  decide +kernel

end Destiny
