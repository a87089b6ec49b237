import Destiny.Server.Reach

/-!
# Sessions

What a step does to `PlayerSession` and to the events about logins. Only three steps do
anything: a login packet, world entry, and the commands that log an action. `Silent`
frames allow everything else.

`readLogin_ok` says what a login packet sets before any check.
-/

namespace Destiny

open Text Sql Prog

def Server.session (s : Server) (c : Ptr) : Option CAccount := (s.heap c).map (·.playerSession)

/-- Events that are neither about logins nor about commands. -/
def Event.quiet : Event → Prop
  | .send .. | .listing .. | .slot .. | .spawnChar .. | .spawnNPC .. => True
  | _ => False

/-- Neither the clients, nor their sessions, nor what is logged about logins and commands
changes. -/
structure Quiet (s t : Server) : Prop where
  session : t.session = s.session
  list : t.clientList = s.clientList
  trace : ∃ es, t.trace = es ++ s.trace ∧ ∀ e ∈ es, e.quiet

/-- A frame that allows every quiet change and every fault. -/
structure Silent (F : Frame Fault Server) : Prop where
  rel : ∀ {s t}, Quiet s t → F.rel s t
  err : ∀ s e, F.err s e

variable {F : Frame Fault Server} {E : Env} {J : Junk} {c : Ptr} {s t : Server} {P : Packet}

theorem session_update (s : Server) (c : Ptr) (f : CConnClient → CConnClient) (p : Ptr) :
    (s.update c f).session p =
      if p = c then (s.heap c).map fun cl => (f cl).playerSession else s.session p := by
  by_cases hp : p = c
  · subst hp
    simp [Server.session, Server.update, Function.comp_def]
  · simp [Server.session, Server.update, hp]

/-- A change to a session. -/
def Server.setSession (s : Server) (c : Ptr) (f : CAccount → CAccount) : Server :=
  s.update c fun cl => { cl with playerSession := f cl.playerSession }

theorem session_setSession (s : Server) (c : Ptr) (f : CAccount → CAccount) (p : Ptr) :
    (s.setSession c f).session p = if p = c then (s.session c).map f else s.session p := by
  rw [Server.setSession, session_update]
  simp [Server.session, Function.comp_def]

theorem session_addUser (J : Junk) (p : Ptr) : (fin (exec E (.addUser J) s)).session p =
    if p = s.nextPtr then some {} else s.session p := by
  rw [Server.session, addUser_heap]
  split <;> rfl

theorem session_delete (s : Server) (c p : Ptr) :
    (s.delete c).session p = if p = c then none else s.session p := by
  simp only [Server.session, Server.delete]
  split <;> rfl

theorem quiet_update {f : CConnClient → CConnClient}
    (hf : ∀ cl, (f cl).playerSession = cl.playerSession) (s : Server) (c : Ptr) :
    Quiet s (s.update c f) where
  session := by
    funext p
    rw [session_update]
    split
    · next hp => simp [hp, hf, Server.session]
    · rfl
  list := rfl
  trace := ⟨[], rfl, by simp⟩

theorem quiet_of_eq (h1 : t.heap = s.heap) (h2 : t.clientList = s.clientList)
    (h3 : t.trace = s.trace) : Quiet s t :=
  ⟨by unfold Server.session; rw [h1], h2, [], by rw [h3]; rfl, by simp⟩

theorem quiet_log {e : Event} (he : e.quiet) (s : Server) :
    Quiet s { s with trace := e :: s.trace } :=
  ⟨rfl, rfl, [e], rfl, fun e' h => by rwa [List.mem_singleton.mp h]⟩

theorem quiet_received (s : Server) (c : Ptr) (l : List Nat) : Quiet s (s.received c l) where
  session := (quiet_update (f := fun cl => { cl with recvpkts := cl.recvpkts + 1 })
    (fun _ => rfl) s c).session
  list := rfl
  trace := ⟨[], rfl, by simp⟩

section Silent
variable (h : Silent F)
include h

theorem Silent.eq {s t : Server} (h1 : t.heap = s.heap) (h2 : t.clientList = s.clientList)
    (h3 : t.trace = s.trace) : F.rel s t := h.rel (quiet_of_eq h1 h2 h3)

theorem Silent.open (c : Ptr) : Open F c where
  packet _ _ := h.eq rfl rfl rfl
  calls _ := h.eq rfl rfl rfl
  send s _ _ _ := h.rel (quiet_log (e := .send ..) trivial s)
  fault s e _ _ := h.err s e
  derefs s _ := h.err s _
  visible s _ _ _ _ _ := h.err s _
  listed s _ _ _ := h.err s _
  reads _ _ := h.eq rfl rfl rfl
  npcId _ _ := h.eq rfl rfl rfl
  body s _ hf := h.rel (quiet_update (fun cl => CConnClient.session_of_sight (hf cl).1) s c)
  data _ _ := h.eq rfl rfl rfl
  ids _ _ _ _ _ := h.eq rfl rfl rfl
  moves s _ hf := h.rel (quiet_update (fun cl => CConnClient.session_of_sight (hf cl)) s c)
  lists := ⟨fun s => h.rel (quiet_log (e := .listing c) trivial s),
    fun n s => h.rel (quiet_log (e := .slot c n) trivial s), fun s => h.err s _⟩

theorem Silent.visiblityList : KeepsAt F s (exec E (.visiblityList c J)) :=
  keepsAt_visiblityList (h.open c).toBasic (fun _ s _ => h.err s _)
    ⟨fun p s => h.rel (quiet_log (e := .spawnChar c p) trivial s),
      fun i id s => h.rel (quiet_log (e := .spawnNPC c i id) trivial s)⟩
    (h.open c).ids (fun _ _ => h.eq rfl rfl rfl)
    fun s _ hf => h.rel (quiet_update hf s c)

/-- A packet other than a login, a world entry or an allowed command is quiet. -/
theorem Silent.packet
    (hlogin : c ∈ s.clientList → P.opcode = 0x020d → ∀ l,
      KeepsAt F (s.received c l) (checkLogin E J c P))
    (hworld : P.opcode = 0x0213 → Enters F c)
    (hgm : P.opcode = 0x0334 → ∀ a, s.session c = some a → P.namesGm → 90 ≤ a.accesslevel →
      ∀ act, Logs F (.gm c act)) :
    KeepsAt F s (exec E (.packet c P J)) := by
  refine keepsAt_packet (h.open c).toCommon P fun hc l => ?_
  refine (h.open c).dispatch P _ (fun ho => hlogin hc ho l) hworld fun ho cl hcl => hgm ho cl.playerSession ?_
  rw [← (quiet_received s c l).session, Server.session, hcl]
  rfl

end Silent

/-! ## What a session owes to its last event -/

/-- A kind of event: what an event of the kind says about a client. -/
structure Kind (β : Type) where
  of : Ptr → Event → Option β
  quiet : ∀ c e, e.quiet → of c e = none
  about : ∀ c e x, of c e = some x → e.about = some c

/-- What the last event of a kind about a client says. -/
def Kind.last {β : Type} (K : Kind β) (c : Ptr) (tr : List Event) : Option β := tr.findSome? (K.of c)

/-- Every session is related to what the last event of a kind says about its client. -/
def Tied {β : Type} (K : Kind β) (R : CAccount → Option β → Prop) (s : Server) : Prop :=
  ∀ p a, s.session p = some a → R a (K.last p s.trace)

section Tied
variable {β : Type} {K : Kind β} {R : CAccount → Option β → Prop} {f : CAccount → CAccount}
  {tr es : List Event} {e : Event}

theorem Kind.last_append (h : ∀ e ∈ es, e.quiet) : K.last c (es ++ tr) = K.last c tr := by
  rw [last, List.findSome?_append, List.findSome?_eq_none_iff.mpr fun e he => K.quiet c e (h e he)]
  rfl

theorem Kind.last_cons_none (h : K.of c e = none) : K.last c (e :: tr) = K.last c tr := by
  rw [last, List.findSome?_cons, h]
  rfl

theorem Kind.last_cons_some {x : β} (h : K.of c e = some x) : K.last c (e :: tr) = some x := by
  rw [last, List.findSome?_cons, h]

/-- Nothing has been said about a client that does not exist yet. -/
theorem Kind.last_nextPtr (h : s.Sound) : K.last s.nextPtr s.trace = none := by
  rw [last, List.findSome?_eq_none_iff]
  intro e he
  cases hx : K.of s.nextPtr e with
  | none => rfl
  | some x => exact absurd (h.about e he _ (K.about _ e x hx)) (Nat.lt_irrefl _)

theorem Tied.quiet (h : Tied K R s) (hq : Quiet s t) : Tied K R t := by
  obtain ⟨es, he, hes⟩ := hq.trace
  intro p a ha
  rw [hq.session] at ha
  rw [he, Kind.last_append hes]
  exact h p a ha

theorem Tied.setSession (h : Tied K R s) (hf : ∀ a o, R a o → R (f a) o) :
    Tied K R (s.setSession c f) := by
  intro p a ha
  rw [session_setSession] at ha
  split at ha
  · next hp =>
    obtain ⟨b, hb, rfl⟩ := Option.map_eq_some_iff.mp ha
    exact hf b _ (h p b (hp ▸ hb))
  · exact h p a ha

/-- An event of another kind is logged. -/
theorem Tied.log (h : Tied K R s) (he : ∀ p, K.of p e = none) :
    Tied K R { s with trace := e :: s.trace } := by
  intro p a ha
  rw [Kind.last_cons_none (he p)]
  exact h p a ha

/-- The session of `c` is brought in line with an event of the kind. -/
theorem Tied.renew {x : β} (h : Tied K R s) (htrace : t.trace = e :: s.trace)
    (hx : K.of c e = some x) (hsession : ∀ p, t.session p = (s.setSession c f).session p)
    (hR : ∀ a, R (f a) (some x)) : Tied K R t := by
  intro p a ha
  rw [hsession, session_setSession] at ha
  rw [htrace]
  by_cases hp : p = c
  · rw [if_pos hp] at ha
    obtain ⟨b, -, rfl⟩ := Option.map_eq_some_iff.mp ha
    rw [hp, Kind.last_cons_some hx]
    exact hR b
  · have hnone : K.of p e = none := by
      cases hy : K.of p e with
      | none => rfl
      | some y => exact absurd (Option.some.inj ((K.about p e y hy).symm.trans (K.about c e x hx))) hp
    rw [if_neg hp] at ha
    rw [Kind.last_cons_none hnone]
    exact h p a ha

theorem Tied.addUser (h : Tied K R s) (hs : s.Sound) (hR : R {} none) :
    Tied K R (fin (exec E (.addUser J) s)) := by
  intro p a ha
  change R a (K.last p s.trace)
  rw [session_addUser] at ha
  split at ha
  · next hp =>
    cases ha
    rw [hp, Kind.last_nextPtr hs]
    exact hR
  · exact h p a ha

theorem Tied.delete (h : Tied K R s) (c : Ptr) : Tied K R (s.delete c) := by
  intro p a ha
  rw [session_delete] at ha
  split at ha
  · cases ha
  · exact h p a ha

end Tied

/-! ## Parts of a session -/

section View
variable {β : Type} (v : CAccount → β)

/-- A part of every session is unchanged. -/
def sessionView : Frame Fault Server := .same fun s p => (s.session p).map v

variable {v}

theorem silent_sessionView : Silent (sessionView v) where
  rel hq := by
    funext p
    change (Server.session _ p).map v = _
    rw [hq.session]
  err _ _ := trivial

theorem sessionView_setSession {f : CAccount → CAccount} (hf : ∀ a, v (f a) = v a) (s : Server) :
    (sessionView v).rel s (s.setSession c f) := by
  funext p
  change ((s.setSession c f).session p).map v = _
  rw [session_setSession]
  split
  · next hp => simp [hp, Function.comp_def, hf]
  · rfl

theorem session_sessionView {f : CAccount → CAccount} (hf : ∀ a, v (f a) = v a) :
    Session (sessionView v) c f := sessionView_setSession hf

/-- What a step does to one session, seen through a view it keeps. -/
theorem view_of_rel (h : (sessionView v).rel s t) {p : Ptr} {a' : CAccount}
    (ha : t.session p = some a') : ∃ a, s.session p = some a ∧ v a' = v a := by
  have hp : (t.session p).map v = (s.session p).map v := congrFun h p
  rw [ha, Option.map_some] at hp
  obtain ⟨a, ha, hv⟩ := Option.map_eq_some_iff.mp hp.symm
  exact ⟨a, ha, hv.symm⟩

end View

/-- The sessions of the other clients are unchanged. -/
def othersView (c : Ptr) : Frame Fault Server := .same fun s p => if p = c then none else s.session p

theorem silent_othersView : Silent (othersView c) where
  rel hq := by
    funext p
    change (if p = c then none else Server.session _ p) = _
    rw [hq.session]
  err _ _ := trivial

theorem session_othersView (f : CAccount → CAccount) : Session (othersView c) c f := by
  intro s
  funext p
  change (if p = c then none else (s.setSession c f).session p) =
    if p = c then none else s.session p
  rw [session_setSession]
  split <;> rfl

theorem othersView_session (h : (othersView c).rel s t) {p : Ptr} (hp : p ≠ c) :
    t.session p = s.session p := by
  have h := congrFun h p
  simpa only [if_neg hp] using h

/-! ## Login packets -/

/-- The session takes the names in the packet. -/
def CAccount.named (a : CAccount) (P : Packet) : CAccount :=
  { a with password := P.password, username := P.username }

/-- The state in which the checks of a login packet begin. -/
structure Named (c : Ptr) (P : Packet) (s t : Server) : Prop where
  heap : t.heap = (s.setSession c fun a => a.named P).heap
  list : t.clientList = s.clientList
  trace : t.trace = .loginTry c P.username.str :: s.trace
  db : t.db = s.db

theorem Named.session (h : Named c P s t) (p : Ptr) :
    t.session p = (s.setSession c fun a => a.named P).session p := by
  rw [Server.session, h.heap]
  rfl

theorem Named.view {β : Type} {v : CAccount → β} (h : Named c P s t)
    (hv : ∀ a, v (a.named P) = v a) : (sessionView v).rel s t := by
  funext p
  change (t.session p).map v = _
  rw [h.session]
  exact congrFun (sessionView_setSession hv s) p

theorem readLogin_ok {r : Bytes × Bytes × Nat} (h : readLogin E c P s = .ok r t) :
    r = (P.username.str, P.password.str, P.cliver) ∧ Named c P s t := by
  obtain ⟨keys, s1, h1, h⟩ := of_bind_ok h
  obtain ⟨pass, s2, h2, h⟩ := of_bind_ok h
  obtain ⟨user, s3, h3, h⟩ := of_bind_ok h
  obtain ⟨ver, s4, h4, h⟩ := of_bind_ok h
  obtain ⟨cl, s5, h5, h⟩ := of_bind_ok h
  obtain ⟨-, rfl⟩ := rd_ok h1
  obtain ⟨rfl, rfl⟩ := rd_ok h2
  obtain ⟨rfl, rfl⟩ := rd_ok h3
  obtain ⟨rfl, rfl⟩ := rdInt_ok h4
  obtain ⟨-, rfl⟩ := client_ok h5
  cases h
  exact ⟨rfl, rfl, rfl, rfl, rfl⟩

theorem readLogin_error {e : Fault} (h : readLogin E c P s = .error e t) :
    (∃ l, t = { s with reads := l }) ∧ (e = .unmapped ∨ e = .useAfterFree ∧ s.heap c = none) := by
  rcases of_bind_error h with h | ⟨_, s1, h1, h⟩
  · exact ⟨(rd_error h).2, .inl (rd_error h).1⟩
  obtain ⟨-, rfl⟩ := rd_ok h1
  rcases of_bind_error h with h | ⟨_, s2, h2, h⟩
  · exact ⟨(rd_error h).2, .inl (rd_error h).1⟩
  obtain ⟨-, rfl⟩ := rd_ok h2
  rcases of_bind_error h with h | ⟨_, s3, h3, h⟩
  · exact ⟨(rd_error h).2, .inl (rd_error h).1⟩
  obtain ⟨-, rfl⟩ := rd_ok h3
  rcases of_bind_error h with h | ⟨_, s4, h4, h⟩
  · exact ⟨(rdInt_error h).2, .inl (rdInt_error h).1⟩
  obtain ⟨-, rfl⟩ := rdInt_ok h4
  rcases of_bind_error h with h | ⟨_, s5, h5, h⟩
  · unfold client at h
    split at h <;> cases h
    exact ⟨⟨_, rfl⟩, .inr ⟨rfl, ‹_›⟩⟩
  · obtain ⟨-, rfl⟩ := client_ok h5
    cases h

/-- A login packet's checks, from the state in which they begin. -/
theorem keepsAt_checkLogin (hB : Basic F) (hc : Derefs F c) (hr : Reads F)
    (hn : ∀ t, Named c P s t → F.rel s t ∧
      KeepsAt F t (checkAccount E J c P.username.str P.password.str P.cliver)) :
    KeepsAt F s (checkLogin E J c P) := by
  have hread : KeepsAt F s (readLogin E c P) := by
    cases h : readLogin E c P s with
    | ok r t => exact keepsAt_ok h (hn t (readLogin_ok h).2).1
    | error e t =>
      obtain ⟨⟨l, rfl⟩, he⟩ := readLogin_error h
      refine keepsAt_error h (hr s l) ?_
      rcases he with rfl | ⟨rfl, hnone⟩
      · exact hB.fault s _ (by decide) (by decide)
      · exact hc s hnone
  refine keepsAt_bind hread fun r t ht => ?_
  obtain ⟨rfl, hnamed⟩ := readLogin_ok ht
  exact (hn t hnamed).2

end Destiny
