import Destiny.Ids
import Destiny.WorldEntry

/-!
# Ids of the players

A login gives the session a new id, and a session that had none before it keeps 0 on every other
path: a login that is refused, an account that the login creates. Entering the world does not look
at the id. As long as nobody enters without one, the players in the world have different ids.
-/

namespace Destiny

open Text Sql Prog

/-- Both are in the world only with different ids, neither of which is 0. -/
def IdsApart (a b : CAccount) : Prop := a.inGame = true → b.inGame = true →
  a.clientid ≠ 0 ∧ b.clientid ≠ 0 ∧ a.clientid ≠ b.clientid

/-- Two clients in the world have different ids, and neither is 0. -/
def WorldIds (s : Server) : Prop :=
  ∀ c ∈ s.clientList, ∀ d ∈ s.clientList, c ≠ d → ∀ a ∈ s.session c, ∀ b ∈ s.session d, IdsApart a b

instance (a b : CAccount) : Decidable (IdsApart a b) :=
  inferInstanceAs (Decidable (_ → _ → _ ∧ _ ∧ _))

instance (s : Server) : Decidable (WorldIds s) :=
  inferInstanceAs (Decidable (∀ c ∈ s.clientList, _))

/-- A login leaves an id in the table. -/
def IdsLeft (E : Env) (s : Server) : Step → Prop
  | .packet c P J => c ∈ s.clientList → P.opcode = 0x020d →
    (fin (exec E (.packet c P J) s)).freeID J.now 1 ≠ none
  | .addUser _ | .disconnectClient _ | .visiblityList .. => True

instance (E : Env) (s : Server) : (i : Step) → Decidable (IdsLeft E s i)
  | .packet c P J => inferInstanceAs (Decidable (c ∈ s.clientList → P.opcode = 0x020d →
      (fin (exec E (.packet c P J) s)).freeID J.now 1 ≠ none))
  | .addUser _ | .disconnectClient _ | .visiblityList .. => .isTrue trivial

/-- Who enters the world has an id. -/
def EntersWithId (s : Server) : Step → Prop
  | .packet c P _ => c ∈ s.clientList → P.opcode = 0x0213 → ∀ a ∈ s.session c, a.clientid ≠ 0
  | .addUser _ | .disconnectClient _ | .visiblityList .. => True

instance (s : Server) : (i : Step) → Decidable (EntersWithId s i)
  | .packet c P _ => inferInstanceAs (Decidable (c ∈ s.clientList → P.opcode = 0x0213 →
      ∀ a ∈ s.session c, a.clientid ≠ 0))
  | .addUser _ | .disconnectClient _ | .visiblityList .. => .isTrue trivial

variable {E : Env} {J : Junk} {c p : Ptr} {s t : Server} {P : Packet} {now : Int} {i : Nat}
  {f : CAccount → CAccount}

/-! ## How ids are given -/

/-- Entries of the table are only cleared. -/
def Cleared (s t : Server) : Prop := ∀ k, t.clientIDList k = s.clientIDList k ∨ t.clientIDList k = 0

theorem Cleared.trans {u : Server} (h1 : Cleared s t) (h2 : Cleared t u) : Cleared s u := fun k => by
  rcases h2 k with h | h
  · rw [h]
    exact h1 k
  · exact .inr h

theorem Cleared.taken (h : Cleared s t) {k : Nat} (hk : s.clientIDList k = 0) : t.clientIDList k = 0 := by
  rcases h k with h | h
  · rw [h, hk]
  · exact h

/-- What is free after was free before. -/
theorem Cleared.freeIDs (h : Cleared s t) (hnone : s.freeIDs now i = ∅) : t.freeIDs now i = ∅ := by
  refine Set.eq_empty_of_forall_notMem fun k ⟨hik, hk, hset, hold⟩ => ?_
  have hsame := (h k).resolve_right hset
  have hmem : k ∈ s.freeIDs now i := ⟨hik, hk, by rw [← hsame]; exact hset, by rw [← hsame]; exact hold⟩
  rw [hnone] at hmem
  exact hmem

/-- An id that is given to a client: one that was free before, or 0 when none is left. -/
def NewId (now : Int) (s t : Server) (id : Nat) : Prop :=
  (id ≠ 0 ∧ s.clientIDList id ≠ 0 ∧ t.clientIDList id = 0) ∨ id = 0 ∧ t.freeIDs now 1 = ∅

/-- A call on behalf of `c` gives ids to nobody else. -/
def assigns (now : Int) (c : Ptr) : Frame Fault Server where
  rel s t := Cleared s t ∧ ∀ p a, t.session p = some a → ∃ b, s.session p = some b ∧
    (a.clientid = b.clientid ∨ p = c ∧ NewId now s t a.clientid)
  err _ _ := True
  refl _ := ⟨fun _ => .inl rfl, fun _ a ha => ⟨a, ha, .inl rfl⟩⟩
  trans := by
    rintro s t u ⟨hc1, h1⟩ ⟨hc2, h2⟩
    refine ⟨hc1.trans hc2, fun p a ha => ?_⟩
    obtain ⟨b, hb, hab⟩ := h2 p a ha
    obtain ⟨d, hd, hbd⟩ := h1 p b hb
    refine ⟨d, hd, ?_⟩
    rcases hab with hab | ⟨hp, ⟨hne, hset, htaken⟩ | hzero⟩
    · rw [hab]
      rcases hbd with hbd | ⟨hp, ⟨hne, hset, htaken⟩ | ⟨hzero, hnone⟩⟩
      · exact .inl hbd
      · exact .inr ⟨hp, .inl ⟨hne, hset, hc2.taken htaken⟩⟩
      · exact .inr ⟨hp, .inr ⟨hzero, hc2.freeIDs hnone⟩⟩
    · exact .inr ⟨hp, .inl ⟨hne, fun hs => hset (hc1.taken hs), htaken⟩⟩
    · exact .inr ⟨hp, .inr hzero⟩
  err_trans _ h := h

theorem assigns_eq (h1 : t.session = s.session) (h2 : t.clientIDList = s.clientIDList) :
    (assigns now c).rel s t :=
  ⟨fun k => .inl (congrFun h2 k), fun p a ha => ⟨a, by rw [← h1]; exact ha, .inl rfl⟩⟩

theorem assigns_update {g : CConnClient → CConnClient}
    (hg : ∀ cl, (g cl).playerSession = cl.playerSession) : (assigns now c).rel s (s.update p g) :=
  assigns_eq (quiet_update hg s p).session rfl

/-- A session changes but for its id. -/
theorem session_assigns (hf : ∀ a, (f a).clientid = a.clientid) : Session (assigns now c) p f :=
  fun s => ⟨fun _ => .inl rfl, fun q a ha => by
    have hview := sessionView_setSession hf s (c := p)
    obtain ⟨b, hb, heq⟩ := view_of_rel hview ha
    exact ⟨b, hb, .inl heq⟩⟩

theorem cleared_take (s : Server) (k : Nat) : Cleared s (s.take k) := fun m => by
  show (if m = k then 0 else s.clientIDList m) = _ ∨ _
  split
  · exact .inr (if_pos (by assumption))
  · exact .inl rfl

theorem open_assigns (now : Int) (c p : Ptr) : Open (assigns now c) p where
  packet _ _ := assigns_eq rfl rfl
  calls _ := assigns_eq rfl rfl
  send _ _ _ _ := assigns_eq rfl rfl
  fault _ _ _ _ := trivial
  derefs _ _ := trivial
  visible _ _ _ _ _ _ := trivial
  listed _ _ _ _ := trivial
  reads _ _ := assigns_eq rfl rfl
  npcId _ _ := assigns_eq rfl rfl
  body _ _ hf := assigns_update fun cl => CConnClient.session_of_sight (hf cl).1
  data _ _ := assigns_eq rfl rfl
  ids s _ _ k _ := ⟨cleared_take s k, fun _ a ha => ⟨a, ha, .inl rfl⟩⟩
  moves _ _ hf := assigns_update fun cl => CConnClient.session_of_sight (hf cl)
  lists := ⟨fun _ => assigns_eq rfl rfl, fun _ _ => assigns_eq rfl rfl, fun _ => trivial⟩

/-! ## Logins -/

/-- An id that is given is the client's own. -/
theorem assigns_given (hfree : i ∈ s.freeIDs now 1) :
    (assigns now c).rel s ((s.take i).setSession c fun a => { a with clientid := i }) := by
  refine ⟨cleared_take s i, fun p a ha => ?_⟩
  rw [session_setSession] at ha
  split at ha
  · next hp =>
    obtain ⟨b, hb, rfl⟩ := Option.map_eq_some_iff.mp ha
    have hpos : i ≠ 0 := Nat.ne_of_gt hfree.1
    exact ⟨b, hp ▸ hb, .inr ⟨hp, .inl ⟨hpos, hfree.2.2.1, take_self s i⟩⟩⟩
  · exact ⟨a, ha, .inl rfl⟩

/-- Without an id the session has 0. -/
theorem assigns_refused (hnone : s.freeIDs now 1 = ∅) :
    (assigns now c).rel s (s.setSession c fun a => { a with clientid := 0 }) := by
  refine ⟨fun _ => .inl rfl, fun p a ha => ?_⟩
  rw [session_setSession] at ha
  split at ha
  · next hp =>
    obtain ⟨b, hb, rfl⟩ := Option.map_eq_some_iff.mp ha
    exact ⟨b, hp ▸ hb, .inr ⟨hp, .inr ⟨rfl, hnone⟩⟩⟩
  · exact ⟨a, ha, .inl rfl⟩

theorem grant_assigns (s : Server) (b : Bytes) : (assigns now c).rel s (s.grant c (atoi b)) :=
  (assigns now c).trans
    (session_assigns (f := fun a => { a with accesslevel := u32 (atoi b) }) (fun _ => rfl) s)
    (assigns_eq rfl rfl)

theorem keeps_takeAccount_assigns (rows : List Fetched) :
    Keeps (assigns J.now c) (takeAccount J c rows) := by
  have hB := (open_assigns J.now c c).toBasic
  induction rows with
  | nil => exact keeps_pure _
  | cons row rows ih =>
    refine keeps_bind (keeps_colInt hB _ _) fun _ =>
      keeps_bind (keeps_modifySession (session_assigns fun _ => rfl)) fun _ s => ?_
    have hrest : ∀ n, Keeps (assigns J.now c) (if n = 0 then pure false else do
        modifySession c fun a => { a with isLoggedIn := true }
        let acesslevel ← colInt row 1
        modify fun s => s.grant c acesslevel
        takeAccount J c rows) := fun n => keeps_ite (fun _ => keeps_pure _) fun _ =>
      keeps_bind (keeps_modifySession (session_assigns fun _ => rfl)) fun _ =>
        keepsAt_grant hB grant_assigns _ _ fun _ => ih
    -- the search and the change of the session are one change of the state
    rcases getNewID_cases J s 1 with ⟨j, hj, hnew⟩ | ⟨hnone, hnew⟩
    · exact (hrest j _).after (bind_ok hnew) (assigns_given hj.1)
    · exact (hrest 0 _).after (bind_ok hnew) (assigns_refused hnone)

theorem keeps_checkLogin_assigns : Keeps (assigns J.now c) (checkLogin E J c P) := by
  have hO := open_assigns J.now c c
  have hB := hO.toBasic
  refine keeps_bind (keeps_readLogin hB hO.derefs hO.reads ?_ P) fun ⟨u, p, cliver⟩ => ?_
  · exact ⟨fun _ _ => session_assigns fun _ => rfl, fun _ _ _ => assigns_eq rfl rfl,
      fun _ _ => assigns_eq rfl rfl⟩
  · refine keeps_checkAccount_take hB hO.derefs (keeps_doSQL hB hO.data _ _) keeps_takeAccount_assigns
      (keeps_sendCharList hB hO.derefs hO.lists) ?_ cliver
    exact ⟨fun _ => assigns_eq rfl rfl, fun _ => session_assigns fun _ => rfl, grant_assigns⟩

/-! ## Packets -/

theorem packet_assigns : (assigns J.now c).rel s (fin (exec E (.packet c P J) s)) := by
  have hO := open_assigns J.now c c
  refine (keepsAt_packet hO.toCommon P fun _ _ => hO.dispatch P _ (fun _ => keeps_checkLogin_assigns _)
    (fun _ => ?_) fun _ _ _ _ _ _ _ => assigns_eq rfl rfl).rel
  exact ⟨fun _ => session_assigns fun _ => rfl, session_assigns fun _ => rfl,
    session_assigns fun _ => rfl⟩

theorem visiblityList_assigns : (assigns J.now c).rel s (fin (exec E (.visiblityList c J) s)) :=
  (keepsAt_visiblityList (open_assigns J.now c c).toBasic (fun _ _ _ => trivial)
    ⟨fun _ _ => assigns_eq rfl rfl, fun _ _ _ => assigns_eq rfl rfl⟩ (open_assigns J.now c c).ids
    (fun _ _ => assigns_eq rfl rfl) fun _ _ hf => assigns_update hf).rel

/-- Only a login changes an id. -/
theorem clientid_packet (ho : P.opcode ≠ 0x020d) :
    (sessionView CAccount.clientid).rel s (fin (exec E (.packet c P J) s)) := by
  refine (silent_sessionView.packet (fun _ h => absurd h ho) (fun _ => ?_)
    fun _ _ _ _ _ _ _ => rfl).rel
  exact ⟨fun _ => session_sessionView fun _ => rfl, session_sessionView fun _ => rfl,
    session_sessionView fun _ => rfl⟩

/-! ## Ids that are held -/

/-- Every client with an id holds it alone, nobody is given it again, and those in the world have
one. -/
structure Numbered (s : Server) : Prop where
  taken : ∀ p a, s.session p = some a → a.clientid ≠ 0 → s.clientIDList a.clientid = 0
  apart : ∀ p q a b, p ≠ q → s.session p = some a → s.session q = some b → a.clientid ≠ 0 →
    a.clientid ≠ b.clientid
  world : ∀ p a, s.session p = some a → a.inGame = true → a.clientid ≠ 0

/-- What a call on behalf of a client keeps. -/
theorem Numbered.assigned (h : Numbered s) (hst : (assigns now c).rel s t)
    (hworld : ∀ p a, t.session p = some a → a.inGame = true → a.clientid ≠ 0) : Numbered t where
  taken p a ha hne := by
    obtain ⟨b, hb, heq | ⟨-, ⟨-, -, htaken⟩ | ⟨hzero, -⟩⟩⟩ := hst.2 p a ha
    · rw [heq] at hne ⊢
      exact hst.1.taken (h.taken p b hb hne)
    · exact htaken
    · exact absurd hzero hne
  apart p q a b hpq ha hb hne heq := by
    have hne' : b.clientid ≠ 0 := heq ▸ hne
    obtain ⟨a', ha', hold | ⟨hp, hnew⟩⟩ := hst.2 p a ha <;>
      obtain ⟨b', hb', hold' | ⟨hq, hnew'⟩⟩ := hst.2 q b hb
    · rw [hold] at hne heq
      exact h.apart p q a' b' hpq ha' hb' hne (heq.trans hold')
    · -- an id that is given was free, and the other one was taken
      obtain ⟨-, hset, -⟩ := hnew'.resolve_right fun hzero => hne' hzero.1
      rw [hold] at hne heq
      rw [← heq] at hset
      exact hset (h.taken p a' ha' hne)
    · obtain ⟨-, hset, -⟩ := hnew.resolve_right fun hzero => hne hzero.1
      rw [hold'] at hne' heq
      rw [heq] at hset
      exact hset (h.taken q b' hb' hne')
    · exact hpq (hp.trans hq.symm)
  world := hworld

theorem Numbered.worldIds (h : Numbered s) : WorldIds s := fun p _ q _ hpq a ha b hb hga hgb => by
  have hza := h.world p a ha hga
  exact ⟨hza, h.world q b hb hgb, h.apart p q a b hpq ha hb hza⟩

theorem Numbered.packet (h : Numbered s) (hleft : IdsLeft E s (.packet c P J))
    (henters : EntersWithId s (.packet c P J)) : Numbered (fin (exec E (.packet c P J) s)) := by
  by_cases hc : c ∈ s.clientList
  swap
  · rw [exec, connected_apply, if_neg hc]
    exact h
  have hst := packet_assigns (E := E) (J := J) (c := c) (P := P) (s := s)
  refine h.assigned hst fun p a ha hg => ?_
  by_cases ho : P.opcode = 0x0213
  · have hlogin : P.opcode ≠ 0x020d := by rw [ho]; decide
    obtain ⟨b, hb, hid⟩ := view_of_rel (clientid_packet hlogin) ha
    rw [hid]
    by_cases hp : p = c
    · exact henters hc ho b (hp ▸ hb)
    · have hothers := (world_packet (E := E) (J := J) (c := c) (s := s) ho).2
      rw [othersView_session hothers hp] at ha
      obtain rfl := Option.some.inj (ha.symm.trans hb)
      exact h.world p a hb hg
  · obtain ⟨b, hb, hgame⟩ := view_of_rel (inGame_packet ho) ha
    have hne : b.clientid ≠ 0 := h.world p b hb (hgame ▸ hg)
    obtain ⟨b', hb', hid⟩ := hst.2 p a ha
    obtain rfl := Option.some.inj (hb'.symm.trans hb)
    rcases hid with hid | ⟨-, ⟨hid, -⟩ | ⟨hzero, hnone⟩⟩
    · rw [hid]
      exact hne
    · exact hid
    · by_cases hlogin : P.opcode = 0x020d
      · -- the table is not exhausted
        obtain ⟨j, hj⟩ := Option.ne_none_iff_exists'.mp (hleft hc hlogin)
        have hmem := (freeID_eq_some hj).1
        rw [hnone] at hmem
        cases hmem
      · obtain ⟨d, hd, hsame⟩ := view_of_rel (clientid_packet hlogin) ha
        obtain rfl := Option.some.inj (hd.symm.trans hb)
        rw [hsame]
        exact hne

theorem Numbered.step (h : Numbered s) (hs : s.Sound) {i : Step} (hleft : IdsLeft E s i)
    (henters : EntersWithId s i) : Numbered (fin (exec E i s)) := by
  cases i with
  | addUser J =>
    have hnew : ∀ p a, (fin (exec E (.addUser J) s)).session p = some a →
        s.session p = some a ∨ a = {} := fun p a ha => by
      rw [session_addUser] at ha
      split at ha
      · exact .inr (Option.some.inj ha).symm
      · exact .inl ha
    refine ⟨fun p a ha hne => ?_, fun p q a b hpq ha hb hne heq => ?_, fun p a ha hg => ?_⟩
    · rcases hnew p a ha with ha | rfl
      · exact h.taken p a ha hne
      · exact absurd rfl hne
    · rcases hnew p a ha with ha | rfl
      · rcases hnew q b hb with hb | rfl
        · exact h.apart p q a b hpq ha hb hne heq
        · exact hne heq
      · exact hne rfl
    · rcases hnew p a ha with ha | rfl
      · exact h.world p a ha hg
      · cases hg
  | disconnectClient c =>
    rw [exec_disconnectClient hs]
    split
    · have hfewer : ∀ p a, (s.delete c).session p = some a → s.session p = some a := fun p a ha => by
        rw [session_delete] at ha
        split at ha
        · cases ha
        · exact ha
      exact ⟨fun p a ha => h.taken p a (hfewer p a ha),
        fun p q a b hpq ha hb => h.apart p q a b hpq (hfewer p a ha) (hfewer q b hb),
        fun p a ha => h.world p a (hfewer p a ha)⟩
    · exact h
  | packet c P J => exact h.packet hleft henters
  | visiblityList c J =>
    refine h.assigned (visiblityList_assigns (E := E) (J := J) (c := c)) fun p a ha hg => ?_
    have hview := (silent_sessionView (v := fun a : CAccount => (a.clientid, a.inGame))).visiblityList
      (E := E) (J := J) (c := c) (s := s)
    obtain ⟨b, hb, heq⟩ := view_of_rel hview.rel ha
    obtain ⟨hid, hgame⟩ := Prod.mk.inj heq
    rw [hid]
    exact h.world p b hb (hgame ▸ hg)

/-- **Players have different ids** in every run in which the ids are not exhausted and nobody enters
the world without one. -/
theorem worldIds_of_entersWithId {s0 : Server} (h : s0.Fresh) {is : List Step}
    (hleft : Along (exec E) (IdsLeft E) s0 is) (hi : Along (exec E) EntersWithId s0 is) :
    Always (exec E) WorldIds s0 is := by
  have h0 : Numbered s0 := by
    have hnone : ∀ p, s0.session p = none := fun p => by rw [Server.session, h.heap]; rfl
    refine ⟨fun p a ha => ?_, fun p q a b _ ha => ?_, fun p a ha => ?_⟩ <;> rw [hnone] at ha <;> cases ha
  have hrun : Always (exec E) (fun s => s.Sound ∧ Numbered s) s0 is :=
    always_of_along (C := fun s i => IdsLeft E s i ∧ EntersWithId s i)
      (fun s i hs hc => ⟨hs.1.step i, hs.2.step hs.1 hc.1 hc.2⟩) ⟨h.sound, h0⟩ (hleft.and hi)
  exact hrun.mono fun _ hs => hs.2.worldIds

/-- Two players log in, with some password, and enter the world. -/
def bothEnter (password : Bytes) : List Step :=
  [.addUser {}, .addUser {}, .packet 0 (loginFrame (ascii "bob") password) { now := 100 },
    .packet 1 (loginFrame (ascii "bob") password) { now := 100 }, .packet 0 worldFrame {},
    .packet 1 worldFrame {}]

theorem worldIds_of_entersWithId_bothEnter :
    Always (exec Env.plain) WorldIds (Server.start (oneAccount 1)) (bothEnter (ascii "pw")) :=
  worldIds_of_entersWithId (Server.start_fresh _) (by decide +kernel) (by decide +kernel)

/-- With a wrong password they enter as well, both under the id 0. -/
theorem bothEnter_refused :
    Along (exec Env.plain) (IdsLeft Env.plain) (Server.start (oneAccount 1)) (bothEnter (ascii "x")) ∧
      ¬Always (exec Env.plain) WorldIds (Server.start (oneAccount 1)) (bothEnter (ascii "x")) := by
  decide +kernel

/-- A player in the world without an id is told from nobody. -/
example : ¬IdsApart { inGame := true } { inGame := true, clientid := 1 } := by decide +kernel

end Destiny
