import Destiny.Server.Session

/-!
# Access levels

A session starts at level 1 and takes the `acesslevel` of every account it is let into.
The column is signed and the field is not, so a negative level is above every guard. The
commands are used with a level of at least 90 as long as no connection uses one while its
last login gave it a negative level.
-/

namespace Destiny

open Text Sql Prog

/-- The logins let in, with the levels they gave. -/
def grants : Kind Int where
  of c
    | .granted p lvl => if p = c then some lvl else none
    | _ => none
  quiet c e he := by cases e <;> first | rfl | cases he
  about c e x h := by cases e <;> simp at h; rw [← h.1]; rfl

/-- Some login on the connection was let in with a level of at least 90. -/
def Entitled (c : Ptr) (tr : List Event) : Prop := ∃ lvl, 90 ≤ lvl ∧ Event.granted c lvl ∈ tr

/-- Every action of a command comes after a login that entitles to it. -/
def Licensed : List Event → Prop
  | [] => True
  | .gm c _ :: tr => Entitled c tr ∧ Licensed tr
  | _ :: tr => Licensed tr

/-- No command that needs a level is sent where the last login gave a negative one, unless an
earlier login there entitles to it. -/
def LevelNotNegative (s : Server) : Step → Prop
  | .packet c P _ => c ∈ s.clientList → P.opcode = 0x0334 → P.namesGm →
    ∀ lvl ∈ grants.last c s.trace, lvl < 0 → Entitled c s.trace
  | _ => True

def Event.entitles (c : Ptr) : Event → Bool
  | .granted p lvl => p = c ∧ 90 ≤ lvl
  | _ => false

instance (c : Ptr) (tr : List Event) : Decidable (Entitled c tr) :=
  decidable_of_iff (tr.any (Event.entitles c)) <| by
    rw [List.any_eq_true]
    constructor
    · rintro ⟨e, he, h⟩
      cases e <;> simp [Event.entitles] at h
      obtain ⟨rfl, hlvl⟩ := h
      exact ⟨_, hlvl, he⟩
    · rintro ⟨lvl, hlvl, he⟩
      exact ⟨_, he, by simp [Event.entitles, hlvl]⟩

instance Licensed.decide : DecidablePred Licensed
  | [] => .isTrue trivial
  | .gm c _ :: tr =>
    haveI := Licensed.decide tr
    inferInstanceAs (Decidable (Entitled c tr ∧ Licensed tr))
  | .send .. :: tr | .loginTry .. :: tr | .loginOk .. :: tr | .granted .. :: tr | .listing .. :: tr
  | .slot .. :: tr | .spawnChar .. :: tr | .spawnNPC .. :: tr => Licensed.decide tr

instance (s : Server) : (i : Step) → Decidable (LevelNotNegative s i)
  | .packet c P _ => inferInstanceAs (Decidable (c ∈ s.clientList → P.opcode = 0x0334 → P.namesGm →
      ∀ lvl ∈ grants.last c s.trace, lvl < 0 → Entitled c s.trace))
  | .addUser _ | .disconnectClient _ | .visiblityList .. => .isTrue trivial

/-! ## The level a session holds -/

/-- A session's level, and the level its last login gave. -/
def Holds (level : Nat) : Option Int → Prop
  | none => level = 1
  | some lvl => level = u32 lvl ∧ lvl < 2 ^ 32

/-- Every session holds the level of its last login. -/
abbrev LevelsHeld : Server → Prop := Tied grants fun a => Holds a.accesslevel

variable {E : Env} {J : Junk} {c : Ptr} {s t : Server} {P : Packet} {tr es : List Event}

theorem licensed_append (h : ∀ e ∈ es, e.quiet) : Licensed (es ++ tr) ↔ Licensed tr := by
  induction es with
  | nil => rfl
  | cons e es ih =>
    have he := h e List.mem_cons_self
    have ih := ih fun e' he' => h e' (List.mem_cons_of_mem _ he')
    cases e <;> first | exact ih | cases he

/-- A guard only lets the level of the last login through, unless that was negative. -/
theorem entitled_of_holds {level : Nat} (hlvl : 90 ≤ level) (h : Holds level (grants.last c tr))
    (hn : ∀ lvl ∈ grants.last c tr, lvl < 0 → Entitled c tr) : Entitled c tr := by
  have hmem : ∀ {lvl : Int}, grants.last c tr = some lvl → Event.granted c lvl ∈ tr := by
    intro lvl h
    obtain ⟨e, he, hlvl⟩ := List.exists_of_findSome?_eq_some h
    cases e <;> simp [grants] at hlvl
    rwa [← hlvl.1, ← hlvl.2]
  cases hg : grants.last c tr with
  | none =>
    rw [hg, Holds] at h
    omega
  | some lvl =>
    rw [hg, Holds] at h
    by_cases h0 : lvl < 0
    · exact hn lvl hg h0
    · have hu : (u32 lvl : Int) = lvl := unsigned_of_nonneg (by omega) h.2
      exact ⟨lvl, by omega, hmem hg⟩

/-- What a call on behalf of `c` keeps; `g` when it starts at a level that allows commands. -/
structure Kept (c : Ptr) (g : Prop) (s : Server) : Prop where
  held : LevelsHeld s
  licensed : Licensed s.trace
  entitled : g → Entitled c s.trace

/-! ## What keeps the levels -/

theorem LevelsHeld.grant (h : LevelsHeld s) (b : Bytes) : LevelsHeld (s.grant c (atoi b)) :=
  h.renew (e := .granted c (atoi b)) (f := fun a => { a with accesslevel := u32 (atoi b) }) rfl
    (if_pos rfl) (fun _ => rfl) fun _ => ⟨rfl, by unfold atoi clamp32; omega⟩

variable {g : Prop}

theorem silent_kept : Silent (.inv (Kept c g)) where
  rel hq h := by
    obtain ⟨es, he, hes⟩ := hq.trace
    refine ⟨h.held.quiet hq, by rw [he, licensed_append hes]; exact h.licensed, fun hg => ?_⟩
    obtain ⟨lvl, hlvl, hmem⟩ := h.entitled hg
    exact ⟨lvl, hlvl, he ▸ List.mem_append_right _ hmem⟩
  err _ _ := trivial

theorem Entitled.cons (h : Entitled c tr) (e : Event) : Entitled c (e :: tr) := by
  obtain ⟨lvl, hlvl, hmem⟩ := h
  exact ⟨lvl, hlvl, List.mem_cons_of_mem _ hmem⟩

theorem session_kept {f : CAccount → CAccount} (hf : ∀ a, (f a).accesslevel = a.accesslevel) :
    Session (.inv (Kept c g)) c f := fun _ h =>
  ⟨h.held.setSession fun a o ho => by rw [hf]; exact ho, h.licensed, h.entitled⟩

theorem logins_kept (u : Bytes) : Logins (.inv (Kept c g)) c u where
  ok _ h := ⟨h.held.log fun _ => rfl, h.licensed, fun hg => (h.entitled hg).cons _⟩
  userid _ := session_kept fun _ => rfl
  clientid _ := session_kept fun _ => rfl
  loggedIn := session_kept fun _ => rfl
  grant _ b h := ⟨h.held.grant b, h.licensed, fun hg => (h.entitled hg).cons _⟩

theorem Kept.named (h : Kept c g s) (hn : Named c P s t) : Kept c g t := by
  have hheld : LevelsHeld (s.setSession c fun a => a.named P) := h.held.setSession fun _ _ ho => ho
  have hlog := hheld.log (e := .loginTry c P.username.str) fun _ => rfl
  refine ⟨fun p a ha => ?_, by rw [hn.trace]; exact h.licensed,
    fun hg => by rw [hn.trace]; exact (h.entitled hg).cons _⟩
  rw [hn.trace]
  exact hlog p a (by rw [← ha, hn.session]; rfl)

theorem keepsAt_login : KeepsAt (.inv (Kept c g)) s (checkLogin E J c P) := by
  have hF := silent_kept (c := c) (g := g)
  refine keepsAt_checkLogin (hF.open c).toBasic (hF.open c).derefs (hF.open c).reads
    fun t ht => ⟨fun h => h.named ht, ?_⟩
  exact (hF.open c).checkAccount (logins_kept _) _ t

/-! ## Runs -/

theorem enters_kept : Enters (.inv (Kept c g)) c :=
  ⟨fun _ => session_kept fun _ => rfl, session_kept fun _ => rfl, session_kept fun _ => rfl⟩

/-- The packet is a command that the session's level allows. -/
def Allowed (s : Server) (c : Ptr) (P : Packet) : Prop :=
  P.opcode = 0x0334 ∧ P.namesGm ∧ ∃ a, s.session c = some a ∧ 90 ≤ a.accesslevel

theorem levels_packet (h : LevelsHeld s) (hl : Licensed s.trace)
    (hi : LevelNotNegative s (.packet c P J)) :
    LevelsHeld (fin (exec E (.packet c P J) s)) ∧
      Licensed (fin (exec E (.packet c P J) s)).trace := by
  by_cases hc : c ∈ s.clientList
  · have hk : Kept c (Allowed s c P) s :=
      ⟨h, hl, fun ⟨ho, hp, a, ha, hlvl⟩ => entitled_of_holds hlvl (h c a ha) (hi hc ho hp)⟩
    have hgm : P.opcode = 0x0334 → ∀ a, s.session c = some a → P.namesGm → 90 ≤ a.accesslevel →
        ∀ act, Logs (.inv (Kept c (Allowed s c P))) (.gm c act) :=
      fun ho a ha hp hlvl _ _ h' =>
        have he := h'.entitled ⟨ho, hp, a, ha, hlvl⟩
        ⟨h'.held.log fun _ => rfl, ⟨he, h'.licensed⟩, fun _ => he.cons _⟩
    have hend := (silent_kept.packet (E := E) (J := J) (fun _ _ _ => keepsAt_login)
      (fun _ => enters_kept) hgm).rel hk
    exact ⟨hend.held, hend.licensed⟩
  · rw [exec, connected_apply, if_neg hc]
    exact ⟨h, hl⟩

theorem levels_step (hs : s.Sound) (h : LevelsHeld s) (hl : Licensed s.trace) {i : Step}
    (hi : LevelNotNegative s i) :
    LevelsHeld (fin (exec E i s)) ∧ Licensed (fin (exec E i s)).trace := by
  cases i with
  | addUser J => exact ⟨h.addUser hs rfl, hl⟩
  | disconnectClient c =>
    rw [exec_disconnectClient hs]
    split
    · exact ⟨h.delete c, hl⟩
    · exact ⟨h, hl⟩
  | packet c P J => exact levels_packet h hl hi
  | visiblityList c J =>
    have hk : Kept c False s := ⟨h, hl, False.elim⟩
    have hend := (silent_kept.visiblityList (E := E) (J := J) (c := c)).rel hk
    exact ⟨hend.held, hend.licensed⟩

/-- **Commands are licensed** in every run in which none is sent where the last login gave a
negative level. -/
theorem licensed_of_notNegative {s0 : Server} (h : s0.Fresh) {is : List Step}
    (hi : Along (exec E) LevelNotNegative s0 is) :
    Always (exec E) (fun s => Licensed s.trace) s0 is := by
  have h0 : s0.Sound ∧ LevelsHeld s0 ∧ Licensed s0.trace := by
    refine ⟨h.sound, fun p a ha => ?_, by rw [h.trace]; trivial⟩
    simp [Server.session, h.heap] at ha
  have hrun : Always (exec E) (fun s => s.Sound ∧ LevelsHeld s ∧ Licensed s.trace) s0 is :=
    always_of_along (fun s i hs hc => ⟨hs.1.step i, levels_step hs.1 hs.2.1 hs.2.2 hc⟩) h0 hi
  exact hrun.mono fun _ hs => hs.2.2

def noticeFrame : Packet :=
  frame 0x0334 (ascii "notice" ++ List.replicate 10 0 ++ ascii "hi" ++ [0])

/-- A player logs in and uses a command. -/
def notices : List Step :=
  [.addUser {}, .packet 0 (loginFrame (ascii "bob") (ascii "pw")) { now := 100 },
    .packet 0 noticeFrame {}]

theorem licensed_of_notNegative_notices :
    Always (exec Env.plain) (fun s => Licensed s.trace) (Server.start (oneAccount 100)) notices :=
  licensed_of_notNegative (Server.start_fresh _) (by decide +kernel)

/-- An account with level -1 is let use a command. -/
theorem notices_unlicensed :
    ¬ Always (exec Env.plain) (fun s => Licensed s.trace) (Server.start (oneAccount (-1)))
      notices := by
  decide +kernel

/-- The notice is a command that not everybody may use. -/
example : noticeFrame.namesGm := by decide +kernel

end Destiny
