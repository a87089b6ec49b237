import Destiny.Server.Session

/-!
# One login per account

No login is recorded in the `online` column that the checks look at, so nothing keeps two
connections from being logged in as the same account. They are not as long as no connection
logs in, or enters the world, under a name that another one is logged in under.
-/

namespace Destiny

open Text Sql Prog

/-- The name a client is logged in under. -/
def Server.loggedIn (s : Server) (c : Ptr) : Option Bytes :=
  match s.session c with
  | some a => if a.isLoggedIn then some a.username.str else none
  | none => none

/-- No two connected clients are logged in under the same name. -/
def OneLogin (s : Server) : Prop :=
  ∀ c ∈ s.clientList, ∀ d ∈ s.clientList, c ≠ d → ∀ u ∈ s.loggedIn c, s.loggedIn d ≠ some u

instance (s : Server) : Decidable (OneLogin s) :=
  inferInstanceAs (Decidable (∀ c ∈ s.clientList, _))

/-- No connected client but `c` is logged in under a name. -/
def FreeFor (s : Server) (c : Ptr) (u : Bytes) : Prop :=
  ∀ d ∈ s.clientList, d ≠ c → s.loggedIn d ≠ some u

instance (s : Server) (c : Ptr) (u : Bytes) : Decidable (FreeFor s c u) :=
  inferInstanceAs (Decidable (∀ d ∈ s.clientList, _))

/-- The accounts let a name and a password in. -/
def Passes (db : Database) (u p : Bytes) : Prop :=
  (∃ r ∈ db.rows .accounts, r .username = .text u ∧ r .password = .text p) ∧
    (∃ r ∈ db.rows .accounts, r .username = .text u ∧ r .active = .int 1) ∧
      ∃ r ∈ db.rows .accounts, r .username = .text u ∧ r .online = .int 0

instance (db : Database) (u p : Bytes) : Decidable (Passes db u p) :=
  inferInstanceAs (Decidable (_ ∧ _ ∧ _))

/-- A login packet can be let in: the version is accepted, and the accounts let the names in
unless these change the statements that ask for them. -/
def Admits (E : Env) (db : Database) (u p : Bytes) (cliver : Nat) : Prop :=
  (cliver : Int) ≥ E.cliversion ∧ (clean u → clean p → Passes db u p)

instance (E : Env) (db : Database) (u p : Bytes) (cliver : Nat) : Decidable (Admits E db u p cliver) :=
  inferInstanceAs (Decidable (_ ∧ _))

/-- A client that logs in, or is logged in and sends a login packet, or enters the world, does
so under a name that no other connected client is logged in under. -/
def NameFree (E : Env) (s : Server) : Step → Prop
  | .packet c P _ => c ∈ s.clientList →
    (P.opcode = 0x020d → (∃ u, s.loggedIn c = some u) ∨
      Admits E s.db P.username.str P.password.str P.cliver → FreeFor s c P.username.str) ∧
    (P.opcode = 0x0213 → ∀ a ∈ s.session c, FreeFor s c a.username.str)
  | _ => True

instance (s : Server) (c : Ptr) : Decidable (∃ u, s.loggedIn c = some u) :=
  decidable_of_iff ((s.loggedIn c).isSome = true) Option.isSome_iff_exists

instance (E : Env) (s : Server) : (i : Step) → Decidable (NameFree E s i)
  | .packet c P _ => inferInstanceAs (Decidable (c ∈ s.clientList →
      (P.opcode = 0x020d → (∃ u, s.loggedIn c = some u) ∨
        Admits E s.db P.username.str P.password.str P.cliver → FreeFor s c P.username.str) ∧
      (P.opcode = 0x0213 → ∀ a ∈ s.session c, FreeFor s c a.username.str)))
  | .addUser _ | .disconnectClient _ | .visiblityList .. => .isTrue trivial

variable {E : Env} {J : Junk} {c : Ptr} {s t : Server} {P : Packet} {u p : Bytes}

/-! ## A login that is refused -/

section Refused
variable {F : Frame Fault Server}

/-- A login that cannot be let in does not log in. -/
theorem keepsAt_checkAccount_refused (hO : Common F c) (hd : Data F) (hl : Lists F c)
    (hu : Creates F c u) {cliver : Nat} (hno : ¬ Admits E s.db u p cliver) :
    KeepsAt F s (checkAccount E J c u p cliver) := by
  have hF := hO.toBasic
  have hmsg := fun f a => keeps_sendServerMsg (J := J) hF hO.derefs f a
  unfold checkAccount
  split
  case isFalse => exact keeps_bind (hmsg _ _) (fun _ => keeps_pure _) s
  case isTrue hver =>
  refine keepsAt_bind (keeps_select hF (by simp [Query.selects]) _ s) fun r t1 h1 => ?_
  have hdb1 := doSQL_db (by simp [Query.selects]) h1
  rcases r with _ | rows
  · exact keeps_pure _ t1
  dsimp only
  split
  · refine keeps_ite (fun _ => ?_) (fun _ => hmsg _ _) t1
    refine keeps_bind (keeps_doSQL hF hd _ _) fun r => ?_
    rcases r with _ | _
    · exact keeps_pure _
    refine keeps_bind (keeps_note hu.ok) fun _ => ?_
    refine keeps_bind (keeps_select hF (by simp [Query.selects]) _) fun r => ?_
    rcases r with _ | rows
    · exact keeps_pure _
    exact keeps_bind (keeps_takeNewAccount hF hu _) fun _ =>
      keeps_sendCharList hF hO.derefs hl
  refine keepsAt_bind (keeps_select hF (by simp [Query.selects]) _ t1) fun r t2 h2 => ?_
  have hdb2 := (doSQL_db (by simp [Query.selects]) h2).trans hdb1
  rcases r with _ | rows2
  · exact keeps_pure _ t2
  dsimp only
  split
  · exact hmsg _ _ t2
  next hn2 =>
  refine keepsAt_bind (keeps_select hF (by simp [Query.selects]) _ t2) fun r t3 h3 => ?_
  have hdb3 := (doSQL_db (by simp [Query.selects]) h3).trans hdb2
  rcases r with _ | rows3
  · exact keeps_pure _ t3
  dsimp only
  split
  · exact hmsg _ _ t3
  next hn3 =>
  refine keepsAt_bind (keeps_select hF (by simp [Query.selects]) _ t3) fun r t4 h4 => ?_
  rcases r with _ | rows4
  · exact keeps_pure _ t4
  dsimp only
  split
  · exact hmsg _ _ t4
  next hn4 =>
  -- all checks passed
  refine absurd ⟨hver, fun hu hp => ⟨?_, ?_, ?_⟩⟩ hno
  · obtain ⟨r, hr, hname, hpass⟩ := exists_account (parse_password hu hp) h2 hn2
    rw [hdb1] at hr
    have hkind : (r .password).HasKind (.text 12) := s.db.typed _ r hr .password
    exact ⟨r, hr, hname, (hkind.eq_text p).mp hpass⟩
  · obtain ⟨r, hr, hname, hactive⟩ := exists_account (parse_active hu) h3 hn3
    rw [hdb2] at hr
    have hkind : (r .active).HasKind .int := s.db.typed _ r hr .active
    exact ⟨r, hr, hname, (hkind.eq_leading _).mp hactive⟩
  · obtain ⟨r, hr, hname, honline⟩ := exists_account (parse_offline hu) h4 hn4
    rw [hdb3] at hr
    have hkind : (r .online).HasKind .int := s.db.typed _ r hr .online
    exact ⟨r, hr, hname, (hkind.eq_leading _).mp honline⟩

end Refused

/-! ## What keeps logins apart -/

theorem loggedIn_congr {p : Ptr} (h : t.session p = s.session p) : t.loggedIn p = s.loggedIn p := by
  unfold Server.loggedIn
  rw [h]

theorem loggedIn_eq {p : Ptr} {u : Bytes} : s.loggedIn p = some u ↔
    ∃ a, s.session p = some a ∧ a.isLoggedIn = true ∧ a.username.str = u := by
  unfold Server.loggedIn
  cases s.session p <;> simp

/-- A client may be recorded under a name that is free for it. -/
theorem OneLogin.of_free (h : OneLogin s) (hlist : t.clientList = s.clientList)
    (hothers : ∀ p, p ≠ c → t.session p = s.session p)
    (hfree : ∀ u, t.loggedIn c = some u → FreeFor s c u) : OneLogin t := by
  intro p hp q hq hpq u hu hqu
  rw [hlist] at hp hq
  by_cases hpc : p = c
  · subst hpc
    rw [loggedIn_congr (hothers q (Ne.symm hpq))] at hqu
    exact hfree u hu q hq (Ne.symm hpq) hqu
  · have hu : s.loggedIn p = some u := (loggedIn_congr (hothers p hpc)).symm.trans hu
    by_cases hqc : q = c
    · subst hqc
      exact hfree u hqu p hp hpq hu
    · rw [loggedIn_congr (hothers q hqc)] at hqu
      exact h p hp q hq hpq u hu hqu

theorem FreeFor.of_others {u : Bytes} (h : FreeFor s c u) (hlist : t.clientList = s.clientList)
    (hothers : ∀ p, p ≠ c → t.session p = s.session p) : FreeFor t c u := fun d hd hdc => by
  rw [loggedIn_congr (hothers d hdc)]
  exact h d (hlist ▸ hd) hdc

/-- No other client is logged in under the name of `c`. -/
def Alone (c : Ptr) (s : Server) : Prop :=
  OneLogin s ∧ ∀ a, s.session c = some a → FreeFor s c a.username.str

/-- `c` is not logged in. -/
def Outside (c : Ptr) (s : Server) : Prop := OneLogin s ∧ s.loggedIn c = none

theorem silent_oneLogin : Silent (.inv OneLogin) where
  rel hq h := by
    unfold OneLogin Server.loggedIn
    rw [hq.session, hq.list]
    exact h
  err _ _ := trivial

theorem silent_alone : Silent (.inv (Alone c)) where
  rel hq h := by
    unfold Alone OneLogin FreeFor Server.loggedIn
    rw [hq.session, hq.list]
    exact h
  err _ _ := trivial

theorem silent_outside : Silent (.inv (Outside c)) where
  rel hq h := by
    unfold Outside OneLogin Server.loggedIn
    rw [hq.session, hq.list]
    exact h
  err _ _ := trivial

theorem setSession_others {f : CAccount → CAccount} (p : Ptr) (hp : p ≠ c) :
    (s.setSession c f).session p = s.session p := by
  rw [session_setSession, if_neg hp]

theorem loggedIn_setSession {f : CAccount → CAccount} {u : Bytes}
    (h : (s.setSession c f).loggedIn c = some u) :
    ∃ a, s.session c = some a ∧ (f a).isLoggedIn = true ∧ (f a).username.str = u := by
  obtain ⟨b, hb, hl, hu⟩ := loggedIn_eq.mp h
  rw [session_setSession, if_pos rfl] at hb
  obtain ⟨a, ha, rfl⟩ := Option.map_eq_some_iff.mp hb
  exact ⟨a, ha, hl, hu⟩

/-- A client that is alone with its name may log in. -/
theorem session_alone {f : CAccount → CAccount} (hf : ∀ a, (f a).username = a.username) :
    Session (.inv (Alone c)) c f := by
  rintro s ⟨hone, hfree⟩
  refine ⟨hone.of_free rfl setSession_others fun u hu => ?_, fun b hb => ?_⟩
  · obtain ⟨a, ha, -, rfl⟩ := loggedIn_setSession hu
    rw [hf]
    exact hfree a ha
  · obtain ⟨a, ha, hv⟩ := view_of_rel (sessionView_setSession hf s) hb
    rw [hv]
    exact (hfree a ha).of_others rfl setSession_others

theorem session_outside {f : CAccount → CAccount} (hf : ∀ a, (f a).isLoggedIn = a.isLoggedIn) :
    Session (.inv (Outside c)) c f := by
  rintro s ⟨hone, hout⟩
  have hnone : (s.setSession c f).loggedIn c = none := by
    cases h : (s.setSession c f).loggedIn c with
    | none => rfl
    | some u =>
      obtain ⟨a, ha, hl, -⟩ := loggedIn_setSession h
      have := loggedIn_eq.mpr ⟨a, ha, (hf a).symm.trans hl, rfl⟩
      rw [hout] at this
      cases this
  refine ⟨hone.of_free rfl setSession_others fun u hu => ?_, hnone⟩
  have hu : (s.setSession c f).loggedIn c = some u := hu
  rw [hnone] at hu
  cases hu

theorem logins_alone (u : Bytes) : Logins (.inv (Alone c)) c u where
  ok _ h := h
  userid _ := session_alone fun _ => rfl
  clientid _ := session_alone fun _ => rfl
  loggedIn := session_alone fun _ => rfl
  grant s b h := session_alone (f := fun a => { a with accesslevel := u32 (atoi b) })
    (fun _ => rfl) s h

theorem creates_inv_outside (u : Bytes) : Creates (.inv (Outside c)) c u where
  ok _ h := h
  userid _ := session_outside fun _ => rfl
  grant s b h := session_outside (f := fun a => { a with accesslevel := u32 (atoi b) })
    (fun _ => rfl) s h

/-! ## Login packets -/

theorem Named.others (hn : Named c P s t) (p : Ptr) (hp : p ≠ c) : t.session p = s.session p := by
  rw [hn.session]
  exact setSession_others p hp

theorem Named.loggedIn (hn : Named c P s t) {u : Bytes} (h : t.loggedIn c = some u) :
    u = P.username.str ∧ ∃ v, s.loggedIn c = some v := by
  rw [loggedIn_congr (hn.session c)] at h
  obtain ⟨a, ha, hl, rfl⟩ := loggedIn_setSession h
  exact ⟨rfl, _, loggedIn_eq.mpr ⟨a, ha, hl, rfl⟩⟩

/-- A login packet that names a free account. -/
theorem Named.alone (hn : Named c P s t) (h : OneLogin s) (hfree : FreeFor s c P.username.str) :
    Alone c t := by
  refine ⟨h.of_free hn.list hn.others fun u hu => ?_, fun b hb => ?_⟩
  · rw [(hn.loggedIn hu).1]
    exact hfree
  · rw [hn.session, session_setSession, if_pos rfl] at hb
    obtain ⟨a, -, rfl⟩ := Option.map_eq_some_iff.mp hb
    exact hfree.of_others hn.list hn.others

/-- A login packet from a client that is not logged in. -/
theorem Named.outside (hn : Named c P s t) (h : OneLogin s) (hout : s.loggedIn c = none) :
    Outside c t := by
  have hnone : t.loggedIn c = none := by
    cases hc : t.loggedIn c with
    | none => rfl
    | some u =>
      obtain ⟨v, hv⟩ := (hn.loggedIn hc).2
      rw [hout] at hv
      cases hv
  refine ⟨h.of_free hn.list hn.others fun u hu => ?_, hnone⟩
  rw [hnone] at hu
  cases hu

theorem keepsAt_checkLogin_oneLogin (h : OneLogin s)
    (hi : (∃ u, s.loggedIn c = some u) ∨ Admits E s.db P.username.str P.password.str P.cliver →
      FreeFor s c P.username.str) : KeepsAt (.inv OneLogin) s (checkLogin E J c P) := by
  have hO := silent_oneLogin.open c
  refine keepsAt_checkLogin hO.toBasic hO.derefs hO.reads fun t hn => ?_
  by_cases hfree : FreeFor s c P.username.str
  · have halone := hn.alone h hfree
    have hF := silent_alone (c := c)
    have hA := hF.open c
    exact ⟨fun _ => halone.1, keepsAt_inv halone
      (hA.checkAccount (logins_alone _) _ t) fun _ hs => hs.1⟩
  · have hout : s.loggedIn c = none := by
      cases hc : s.loggedIn c with
      | none => rfl
      | some u => exact absurd (hi (.inl ⟨u, hc⟩)) hfree
    have houtside := hn.outside h hout
    have hF := silent_outside (c := c)
    have hA := hF.open c
    have hno : ¬ Admits E t.db P.username.str P.password.str P.cliver := by
      rw [hn.db]
      exact fun ha => hfree (hi (.inr ha))
    exact ⟨fun _ => houtside.1, keepsAt_inv houtside
      (keepsAt_checkAccount_refused hA.toCommon hA.data hA.lists (creates_inv_outside _) hno) fun _ hs => hs.1⟩

/-! ## Runs -/

theorem enters_alone : Enters (.inv (Alone c)) c :=
  ⟨fun _ => session_alone fun _ => rfl, session_alone fun _ => rfl, session_alone fun _ => rfl⟩

theorem OneLogin.packet (h : OneLogin s) (hi : NameFree E s (.packet c P J)) :
    OneLogin (fin (exec E (.packet c P J) s)) := by
  by_cases hc : c ∈ s.clientList
  · obtain ⟨hlogin, hworld⟩ := hi hc
    by_cases ho : P.opcode = 0x0213
    · have halone : Alone c s := ⟨h, fun a ha => hworld ho a ha⟩
      have hne : P.opcode ≠ 0x020d := by rw [ho]; decide
      exact ((silent_alone.packet (E := E) (J := J) (fun _ h => absurd h hne)
        (fun _ => enters_alone) fun _ _ _ _ _ _ _ h => h).rel halone).1
    · refine (silent_oneLogin.packet (fun _ hp l => ?_) (fun h => absurd h ho)
        fun _ _ _ _ _ _ _ h => h).rel h
      have hq := quiet_received s c l
      refine keepsAt_checkLogin_oneLogin (silent_oneLogin.rel hq h) ?_
      rw [loggedIn_congr (congrFun hq.session c)]
      intro hadm
      exact (hlogin hp hadm).of_others hq.list fun p _ => congrFun hq.session p
  · rw [exec, connected_apply, if_neg hc]
    exact h

/-- Where clients are logged in as before, or not at all, no account is logged in twice. -/
theorem OneLogin.fewer (h : OneLogin s)
    (hsub : ∀ p ∈ t.clientList, ∀ u, t.loggedIn p = some u → p ∈ s.clientList ∧ s.loggedIn p = some u) :
    OneLogin t := by
  intro p hp q hq hpq u hu hqu
  obtain ⟨hp, hu⟩ := hsub p hp u hu
  obtain ⟨hq, hqu⟩ := hsub q hq u hqu
  exact h p hp q hq hpq u hu hqu

theorem OneLogin.addUser (h : OneLogin s) : OneLogin (fin (exec E (.addUser J) s)) := by
  refine h.fewer fun p hp u hu => ?_
  have hp : p ∈ s.clientList ++ [s.nextPtr] := hp
  obtain ⟨a, ha, hl, hname⟩ := loggedIn_eq.mp hu
  rw [session_addUser] at ha
  split at ha
  · cases ha
    cases hl
  · next hne =>
    rw [List.mem_append, List.mem_singleton] at hp
    exact ⟨hp.resolve_right hne, loggedIn_eq.mpr ⟨a, ha, hl, hname⟩⟩

theorem OneLogin.delete (h : OneLogin s) (c : Ptr) : OneLogin (s.delete c) := by
  refine h.fewer fun p hp u hu => ⟨List.mem_of_mem_erase hp, ?_⟩
  obtain ⟨a, ha, hl, hname⟩ := loggedIn_eq.mp hu
  rw [session_delete] at ha
  split at ha
  · cases ha
  · exact loggedIn_eq.mpr ⟨a, ha, hl, hname⟩

theorem OneLogin.step (h : OneLogin s) (hs : s.Sound) {i : Step} (hi : NameFree E s i) :
    OneLogin (fin (exec E i s)) := by
  cases i with
  | addUser J => exact h.addUser
  | disconnectClient c =>
    rw [exec_disconnectClient hs]
    split
    · exact h.delete c
    · exact h
  | packet c P J => exact h.packet hi
  | visiblityList c J => exact silent_oneLogin.visiblityList.rel h

/-- Two connections log in with the same names, unless the second password is wrong. -/
def logins (password : Bytes) : List Step :=
  [.addUser {}, .addUser {},
    .packet 0 (loginFrame (ascii "bob") (ascii "pw")) { now := 100 },
    .packet 1 (loginFrame (ascii "bob") password) { now := 100 }]

end Destiny
