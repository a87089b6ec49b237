import Destiny.Exclusive
import Destiny.Ids
import Destiny.Server.Sight

/-!
# Ids that are held

An id is taken from the table when a client logs in and when an NPC is newly shown, and no
function puts one back. A taken id stays the id of a client or of an NPC only while its holder
neither leaves, nor logs in again, nor is shown again.
-/

namespace Destiny

open Text Sql Prog

/-- A connected client other than those excluded has the id. -/
def Server.clientHas (s : Server) (out : List Ptr) (k : Nat) : Prop :=
  ∃ c ∈ s.clientList, c ∉ out ∧ ∃ a, s.session c = some a ∧ a.clientid = k

/-- An NPC other than those excluded has the id. -/
def Server.npcHas (s : Server) (out : List Nat) (k : Nat) : Prop :=
  ∃ i, i < s.npcList.length ∧ i ∉ out ∧ s.npcId i = k

/-- An id that is taken is somebody's. -/
def IdsHeld (s : Server) : Prop :=
  ∀ k, k ≤ 0xffff → s.clientIDList k = 0 → s.clientHas [] k ∨ s.npcHas [] k

/-- A taken id is somebody's, and a client is refused because the server is full only when every id
is: no entry of the table is set, but for those set less than ten seconds ago. -/
structure Accounted (s : Server) : Prop where
  held : IdsHeld s
  full : ∀ J, getNewClientID J s = .ok 0 s → ∀ k, 0 < k → k ≤ 0xffff →
    s.clientHas [] k ∨ s.npcHas [] k ∨ s.clientIDList k ≠ 0 ∧ J.now - s.clientIDList k ≤ 10

/-- The id of a client is not taken, or somebody else's too. -/
def SpareClient (s : Server) (c : Ptr) : Prop := ∀ a, s.session c = some a →
  s.clientIDList a.clientid = 0 → s.clientHas [c] a.clientid ∨ s.npcHas [] a.clientid

/-- The ids of some NPCs are not taken, or somebody else's too. -/
def SpareNPCs (s : Server) (l : List Nat) : Prop := ∀ i ∈ l,
  s.clientIDList (s.npcId i) = 0 → s.clientHas [] (s.npcId i) ∨ s.npcHas l (s.npcId i)

/-- The database answers the last query of a login with one row at most. -/
def OneRow (E : Env) (db : Database) (u : Bytes) : Prop := ∀ m rows,
  (E.sql.query m db (vsprintf (ascii Query.level) [txt u])).2 = some rows → rows.length ≤ 1

/-- Who leaves, logs in or is newly shown holds no id, or shares it. -/
def KeepsIds (E : Env) (s : Server) : Step → Prop
  | .addUser _ => True
  | .disconnectClient c => SpareClient s c
  | .packet c P _ => P.opcode = 0x020d → Admits E s.db P.username.str P.password.str P.cliver →
    SpareClient s c ∧ OneRow E s.db P.username.str
  | .visiblityList c _ => SpareNPCs s (s.newNPCs c)

variable {E : Env} {J : Junk} {c p : Ptr} {s t : Server} {P : Packet} {i k : Nat} {l : List Nat}
  {out : List Ptr} {now : Int}

/-! ## Holders -/

theorem clientHas_congr (h1 : t.session = s.session) (h2 : t.clientList = s.clientList) :
    t.clientHas out k ↔ s.clientHas out k := by
  unfold Server.clientHas
  rw [h1, h2]

theorem npcId_congr (h : t.npcList = s.npcList) : t.npcId = s.npcId := by
  funext i
  unfold Server.npcId
  rw [h]

theorem npcHas_congr (h : t.npcList = s.npcList) : t.npcHas l k ↔ s.npcHas l k := by
  unfold Server.npcHas
  rw [npcId_congr h, h]

/-- The clients keep their ids, and so do the NPCs. -/
structure IdsKept (s t : Server) : Prop where
  clientid : ∀ p, (t.session p).map (·.clientid) = (s.session p).map (·.clientid)
  list : t.clientList = s.clientList
  table : t.clientIDList = s.clientIDList
  npcs : t.npcList = s.npcList

theorem IdsKept.clientHas (h : IdsKept s t) : t.clientHas out k ↔ s.clientHas out k := by
  have hhas : ∀ p, (∃ a, t.session p = some a ∧ a.clientid = k) ↔
      ∃ a, s.session p = some a ∧ a.clientid = k := fun p => by
    rw [← Option.map_eq_some_iff, ← Option.map_eq_some_iff, h.clientid p]
  unfold Server.clientHas
  rw [h.list]
  exact exists_congr fun p => and_congr_right fun _ => and_congr_right fun _ => hhas p

theorem IdsKept.spareClient (h : IdsKept s t) : SpareClient t c ↔ SpareClient s c := by
  have hspare : ∀ u : Server, SpareClient u c ↔ ∀ k, (u.session c).map (·.clientid) = some k →
      u.clientIDList k = 0 → u.clientHas [c] k ∨ u.npcHas [] k := fun u => by
    constructor
    · intro hu k hk
      obtain ⟨a, ha, rfl⟩ := Option.map_eq_some_iff.mp hk
      exact hu a ha
    · exact fun hu a ha => hu _ (by rw [ha]; rfl)
  rw [hspare, hspare, h.clientid, h.table]
  refine forall_congr' fun k => imp_congr_right fun _ => imp_congr_right fun _ => ?_
  rw [h.clientHas, npcHas_congr h.npcs]

theorem IdsKept.held (h : IdsKept s t) : IdsHeld t ↔ IdsHeld s := by
  unfold IdsHeld
  rw [h.table]
  refine forall_congr' fun k => imp_congr_right fun _ => imp_congr_right fun _ => ?_
  rw [h.clientHas, npcHas_congr h.npcs]

theorem idsKept_eq (h1 : t.session = s.session) (h2 : t.clientList = s.clientList)
    (h3 : t.clientIDList = s.clientIDList) (h4 : t.npcList = s.npcList) : IdsKept s t :=
  ⟨fun p => by rw [h1], h2, h3, h4⟩

/-- A session changes but for its id. -/
theorem idsKept_session {f : CAccount → CAccount} (hf : ∀ a, (f a).clientid = a.clientid) (s : Server)
    (c : Ptr) : IdsKept s (s.setSession c f) :=
  ⟨fun p => congrFun (sessionView_setSession hf s) p, rfl, rfl, rfl⟩

theorem idsKept_update {f : CConnClient → CConnClient}
    (hf : ∀ cl, (f cl).playerSession = cl.playerSession) (s : Server) (c : Ptr) :
    IdsKept s (s.update c f) := idsKept_eq (quiet_update hf s c).session rfl rfl rfl

/-! ## Packets that give no ids -/

/-- A frame that allows everything but that ids change hands. -/
structure Inert (F : Frame Fault Server) : Prop where
  rel : ∀ {s t}, IdsKept s t → F.rel s t
  err : ∀ s e, F.err s e

theorem inert_held : Inert (.inv IdsHeld) := ⟨fun h hs => h.held.mpr hs, fun _ _ => trivial⟩

section Inert
variable {F : Frame Fault Server} (h : Inert F)
include h

theorem Inert.eq (h1 : t.session = s.session) (h2 : t.clientList = s.clientList)
    (h3 : t.clientIDList = s.clientIDList) (h4 : t.npcList = s.npcList) : F.rel s t :=
  h.rel (idsKept_eq h1 h2 h3 h4)

theorem Inert.ordinary (c : Ptr) : Ordinary F c where
  packet _ _ := h.eq rfl rfl rfl rfl
  calls _ := h.eq rfl rfl rfl rfl
  send _ _ _ _ := h.eq rfl rfl rfl rfl
  fault s e _ _ := h.err s e
  derefs s _ := h.err s _
  visible s _ _ _ _ _ := h.err s _
  listed s _ _ _ := h.err s _
  reads _ _ := h.eq rfl rfl rfl rfl
  npcId _ _ := h.eq rfl rfl rfl rfl
  body s _ hf := h.rel (idsKept_update (fun cl => CConnClient.session_of_sight (hf cl).1) s c)

theorem Inert.data : Data F := fun _ _ => h.eq rfl rfl rfl rfl

theorem Inert.lists (c : Ptr) : Lists F c :=
  ⟨fun _ => h.eq rfl rfl rfl rfl, fun _ _ => h.eq rfl rfl rfl rfl, fun s => h.err s _⟩

theorem Inert.moves (c : Ptr) : Moves F c := fun s _ hf =>
  h.rel (idsKept_update (fun cl => CConnClient.session_of_sight (hf cl)) s c)

theorem Inert.session {f : CAccount → CAccount} (hf : ∀ a, (f a).clientid = a.clientid) :
    Session F c f := fun s => h.rel (idsKept_session hf s c)

theorem Inert.creates (c : Ptr) (u : Bytes) : Creates F c u where
  ok _ := h.eq rfl rfl rfl rfl
  userid _ := h.session fun _ => rfl
  grant s b := F.trans
    (h.rel (idsKept_session (f := fun a => { a with accesslevel := u32 (atoi b) }) (fun _ => rfl) s c))
    (h.eq rfl rfl rfl rfl)

/-- A packet other than a login gives no ids. -/
theorem Inert.packet (hlogin : c ∈ s.clientList → P.opcode = 0x020d → ∀ l,
      KeepsAt F (s.received c l) (checkLogin E J c P)) : KeepsAt F s (exec E (.packet c P J)) := by
  have hO := h.ordinary c
  refine keepsAt_packet hO.toCommon P fun hc l => ?_
  refine keepsAt_dispatch_rest hO h.data (h.lists c) (h.moves c) P _ (fun ho => hlogin hc ho l)
    (fun _ => ?_) fun _ _ _ _ _ _ _ => h.eq rfl rfl rfl rfl
  exact ⟨fun _ => h.session fun _ => rfl, h.session fun _ => rfl, h.session fun _ => rfl⟩

end Inert

/-! ## An id is given -/

theorem Server.clientHas.others (h : s.clientHas [] k) (hlist : t.clientList = s.clientList)
    (hothers : ∀ p, p ≠ c → t.session p = s.session p)
    (hown : ∀ a, s.session c = some a → a.clientid = k → t.clientHas [] k ∨ t.npcHas [] k) :
    t.clientHas [] k ∨ t.npcHas [] k := by
  obtain ⟨p, hp, hout, a, ha, hid⟩ := h
  by_cases hpc : p = c
  · rw [hpc] at ha
    exact hown a ha hid
  · exact .inl ⟨p, hlist ▸ hp, hout, a, (hothers p hpc).trans ha, hid⟩

theorem Server.clientHas.others_in (h : s.clientHas [c] k) (hlist : t.clientList = s.clientList)
    (hothers : ∀ p, p ≠ c → t.session p = s.session p) : t.clientHas [] k := by
  obtain ⟨p, hp, hout, a, ha, hid⟩ := h
  have hpc : p ≠ c := fun h => hout (List.mem_singleton.mpr h)
  exact ⟨p, hlist ▸ hp, List.not_mem_nil, a, (hothers p hpc).trans ha, hid⟩

/-- A client whose id may go gets another one. -/
theorem IdsHeld.give (h : IdsHeld s) (hspare : SpareClient s c) (hc : c ∈ s.clientList)
    (hlive : (s.session c).isSome) (hlist : t.clientList = s.clientList) (hnpcs : t.npcList = s.npcList)
    (hsession : ∀ p, t.session p = if p = c then (s.session c).map fun a => { a with clientid := i }
      else s.session p)
    (htable : ∀ k, t.clientIDList k = 0 → k = i ∨ s.clientIDList k = 0) : IdsHeld t := by
  have hothers : ∀ p, p ≠ c → t.session p = s.session p := fun p hp => by rw [hsession, if_neg hp]
  have hnpc : ∀ k, s.npcHas [] k → t.npcHas [] k := fun k => (npcHas_congr hnpcs).mpr
  intro k hk htaken
  rcases htable k htaken with rfl | hold
  · obtain ⟨a, ha⟩ := Option.isSome_iff_exists.mp hlive
    refine .inl ⟨c, hlist ▸ hc, List.not_mem_nil, { a with clientid := k }, ?_, rfl⟩
    rw [hsession, if_pos rfl, ha]
    rfl
  · rcases h k hk hold with hclient | hn
    · refine hclient.others hlist hothers fun a ha hid => ?_
      rcases hspare a ha (hid ▸ hold) with hother | hn
      · exact .inl (hid ▸ hother.others_in hlist hothers)
      · exact .inr (hnpc k (hid ▸ hn))
    · exact .inr (hnpc k hn)

/-- A client that may lose its id logs in. -/
theorem keepsAt_takeAccount_held {rows : List Fetched} (hrows : rows.length ≤ 1)
    (hc : c ∈ s.clientList) (hlive : (s.session c).isSome) (hspare : SpareClient s c) :
    KeepsAt (.inv IdsHeld) s (takeAccount J c rows) := by
  have hI := inert_held
  have hB := (hI.ordinary c).toBasic
  rcases rows with _ | ⟨row, _ | ⟨row', rows⟩⟩
  · exact keeps_pure _ s
  swap
  · simp at hrows
  refine keepsAt_bind (keeps_colInt hB _ _ s) fun n s1 h1 => ?_
  obtain rfl := (colInt_ok h1).1
  have huserid : Keeps (.inv IdsHeld) (modifySession c fun a => { a with userid := u32 n }) :=
    keeps_modifySession (hI.session fun _ => rfl)
  refine keepsAt_bind (huserid _) fun _ s2 h2 => ?_
  obtain rfl : s2 = s1.setSession c fun a => { a with userid := u32 n } := by
    cases h2
    rfl
  have hkept : IdsKept s1 (s1.setSession c fun a => { a with userid := u32 n }) :=
    idsKept_session (f := fun a => { a with userid := u32 n }) (fun _ => rfl) s1 c
  have hspare2 := hkept.spareClient.mpr hspare
  have hlive2 : ((s1.setSession c fun a => { a with userid := u32 n }).session c).isSome := by
    rw [session_setSession, if_pos rfl, Option.isSome_map]
    exact hlive
  have hrest : ∀ m, Keeps (.inv IdsHeld) (if m = 0 then pure false else do
      modifySession c fun a => { a with isLoggedIn := true }
      let acesslevel ← colInt row 1
      modify fun s => s.grant c acesslevel
      takeAccount J c []) := fun m => keeps_ite (fun _ => keeps_pure _) fun _ =>
    keeps_bind (keeps_modifySession (hI.session fun _ => rfl)) fun _ =>
      keepsAt_grant hB (hI.creates c []).grant _ _ fun _ => keeps_pure _
  generalize s1.setSession c (fun a => { a with userid := u32 n }) = s2 at hspare2 hlive2 hkept ⊢
  have hc2 : c ∈ s2.clientList := by
    rw [hkept.list]
    exact hc
  rcases getNewID_cases J s2 1 with ⟨j, hj, hnew⟩ | ⟨hnone, hnew⟩
  · refine (hrest j _).after (bind_ok hnew) fun hheld => ?_
    refine hheld.give hspare2 hc2 hlive2 rfl rfl (session_setSession (s2.take j) c fun a => { a with clientid := j })
      fun k hk => ?_
    have hk : (if k = j then 0 else s2.clientIDList k) = 0 := hk
    split at hk
    · exact .inl (by assumption)
    · exact .inr hk
  · refine (hrest 0 _).after (bind_ok hnew) fun hheld => ?_
    exact hheld.give hspare2 hc2 hlive2 rfl rfl (session_setSession s2 c fun a => { a with clientid := 0 })
      fun k hk => .inr hk

/-! ## Logins -/

/-- No id changes hands. -/
def keptIds : Frame Fault Server where
  rel := IdsKept
  err _ _ := True
  refl _ := idsKept_eq rfl rfl rfl rfl
  trans h1 h2 := ⟨fun p => (h2.clientid p).trans (h1.clientid p), h2.list.trans h1.list,
    h2.table.trans h1.table, h2.npcs.trans h1.npcs⟩
  err_trans _ h := h

theorem inert_keptIds : Inert keptIds := ⟨fun h => h, fun _ _ => trivial⟩

theorem Inert.readLogin {F : Frame Fault Server} (h : Inert F) : Keeps F (readLogin E c P) := by
  have hO := h.ordinary c
  refine keeps_readLogin hO.toBasic hO.derefs hO.reads ?_ P
  exact ⟨fun _ _ => h.session fun _ => rfl, fun _ _ _ => h.eq rfl rfl rfl rfl,
    fun _ _ => h.eq rfl rfl rfl rfl⟩

theorem keepsAt_checkLogin_held (hc : c ∈ s.clientList) (hlive : (s.session c).isSome)
    (hi : Admits E s.db P.username.str P.password.str P.cliver →
      SpareClient s c ∧ OneRow E s.db P.username.str) :
    KeepsAt (.inv IdsHeld) s (checkLogin E J c P) := by
  have hI := inert_held
  have hO := hI.ordinary c
  have hB := hO.toBasic
  refine keepsAt_bind (hI.readLogin s) fun r t ht => ?_
  obtain ⟨rfl, hnamed⟩ := readLogin_ok ht
  have hkept : IdsKept s t := inert_keptIds.readLogin.rel_ok ht
  rw [← hnamed.db] at hi
  by_cases hadm : Admits E t.db P.username.str P.password.str P.cliver
  · obtain ⟨hspare, hone⟩ := hi hadm
    have hc' : c ∈ t.clientList := hkept.list ▸ hc
    have hlive' : (t.session c).isSome := by
      rw [← Option.isSome_map, hkept.clientid, Option.isSome_map]
      exact hlive
    have hspare' := hkept.spareClient.mpr hspare
    exact keepsAt_checkAccount_take hB hO.derefs (fun _ => keeps_doSQL hB hI.data _ _)
      (keeps_sendCharList hB hO.derefs (hI.lists c)) (hI.creates c _) _ fun m rows hanswer =>
        keepsAt_takeAccount_held (hone m rows hanswer) hc' hlive' hspare'
  · exact keepsAt_checkAccount_refused hO.toCommon hI.data (hI.lists c) (hI.creates c _) hadm

/-! ## NPCs that are shown -/

theorem renew_clientHas (s : Server) (now : Int) (i : Nat) (out : List Ptr) (k : Nat) :
    (s.renew now i).clientHas out k ↔ s.clientHas out k := by
  refine clientHas_congr ?_ (renew_list s now i)
  unfold Server.session
  rw [renew_heap]

/-- The entry that is cleared is that of the new id. -/
theorem renew_taken (hi : i < s.npcList.length) (h : (s.renew now i).clientIDList k = 0) :
    s.clientIDList k = 0 ∨ k ≤ 0xffff ∧ (s.renew now i).npcId i = k := by
  unfold Server.renew at h ⊢
  cases hj : s.freeID now 2000 with
  | none =>
    rw [hj] at h
    exact .inl h
  | some j =>
    rw [hj] at h
    have hk : (if k = j then 0 else s.clientIDList k) = 0 := h
    split at hk
    · rename_i hkj
      have hrange := (freeID_eq_some hj).1.2.1
      refine .inr ⟨hkj ▸ hrange, ?_⟩
      unfold Server.npcId
      dsimp only
      rw [List.getElem?_modify_eq, List.getElem?_eq_getElem hi]
      show u16 j = k
      rw [hkj]
      unfold u16 unsigned
      omega
    · exact .inl hk

/-- An NPC that is shown gets another id, and those shown after it may still lose theirs. -/
theorem IdsHeld.renew (h : IdsHeld s) (hspare : SpareNPCs s (i :: l)) (hi : i < s.npcList.length)
    (hmem : i ∉ l) (now : Int) : IdsHeld (s.renew now i) ∧ SpareNPCs (s.renew now i) l := by
  have hlen := renew_length s now i
  -- an NPC that is not shown keeps its id
  have hnpc : ∀ {out out' : List Nat} {k : Nat}, i ∈ out → (∀ j ∈ out', j ∈ out) → s.npcHas out k →
      (s.renew now i).npcHas out' k := fun hin hsub ⟨j, hj, hout, hid⟩ =>
    ⟨j, hlen.symm ▸ hj, fun hj' => hout (hsub j hj'),
      (npcId_renew_ne fun heq : i = j => hout (heq ▸ hin)).trans hid⟩
  constructor
  · intro k hk htaken
    rcases renew_taken hi htaken with hold | ⟨-, hnew⟩
    · rcases h k hk hold with hclient | ⟨j, hj, hout, hid⟩
      · exact .inl ((renew_clientHas s now i [] k).mpr hclient)
      · by_cases hij : i = j
        · have hid : s.npcId i = k := hij ▸ hid
          rcases hspare i List.mem_cons_self (hid ▸ hold) with hclient | hother
          · exact .inl ((renew_clientHas s now i [] k).mpr (hid ▸ hclient))
          · exact .inr (hid ▸ hnpc List.mem_cons_self (fun _ hj => absurd hj List.not_mem_nil) hother)
        · exact .inr ⟨j, hlen.symm ▸ hj, hout, (npcId_renew_ne hij).trans hid⟩
    · exact .inr ⟨i, hlen.symm ▸ hi, List.not_mem_nil, hnew⟩
  · intro j hj htaken
    have hij : i ≠ j := fun heq => hmem (heq ▸ hj)
    have hsame : (s.renew now i).npcId j = s.npcId j := npcId_renew_ne hij
    rw [hsame] at htaken ⊢
    rcases renew_taken hi htaken with hold | ⟨-, hnew⟩
    · rcases hspare j (List.mem_cons_of_mem _ hj) hold with hclient | hother
      · exact .inl ((renew_clientHas s now i [] _).mpr hclient)
      · exact .inr (hnpc List.mem_cons_self (fun _ hm => List.mem_cons_of_mem _ hm) hother)
    · exact .inr ⟨i, hlen.symm ▸ hi, hmem, hnew⟩

theorem IdsHeld.renews (h : IdsHeld s) (hspare : SpareNPCs s l) (hl : ∀ i ∈ l, i < s.npcList.length)
    (hnodup : l.Nodup) (now : Int) : IdsHeld (s.renews now l) := by
  induction l generalizing s with
  | nil => exact h
  | cons i l ih =>
    obtain ⟨hmem, hnodup⟩ := List.nodup_cons.mp hnodup
    obtain ⟨hi, hl⟩ := List.forall_mem_cons.mp hl
    obtain ⟨hheld, hspare⟩ := h.renew hspare hi hmem now
    exact ih hheld hspare (fun j hj => by rw [renew_length]; exact hl j hj) hnodup

/-! ## Steps -/

theorem IdsHeld.visiblityList (h : IdsHeld s) (hspare : SpareNPCs s (s.newNPCs c))
    (hr : exec E (.visiblityList c J) s = .ok () t) : IdsHeld t := by
  by_cases hc : c ∈ s.clientList
  swap
  · rw [exec, connected_apply, if_neg hc] at hr
    cases hr
    exact h
  obtain ⟨D, es, rfl, -⟩ := visiblityList_ok hc hr
  have hnew : ∀ i ∈ s.newNPCs c, i < s.npcList.length := fun i hi =>
    lt_of_showsNPC (List.mem_filter.mp (List.mem_of_mem_filter hi)).2
  have hnodup : (s.newNPCs c).Nodup := (List.nodup_range.filter _).filter _
  have hheld := h.renews hspare hnew hnodup J.now
  have hlog : IdsKept (s.renews J.now (s.newNPCs c))
    { s.renews J.now (s.newNPCs c) with packet := D, trace := es ++ s.trace } := idsKept_eq rfl rfl rfl rfl
  refine (idsKept_update (f := fun cl => { cl with
    visibleClients := s.chars c, visibleNPCs := s.npcs c }) (fun _ => rfl) _ c).held.mpr ?_
  exact hlog.held.mpr hheld

theorem IdsHeld.addUser (h : IdsHeld s) (hs : s.Sound) : IdsHeld (fin (exec E (.addUser J) s)) := by
  intro k hk htaken
  rcases h k hk htaken with ⟨p, hp, hout, a, ha, hid⟩ | hn
  · refine .inl ⟨p, List.mem_append_left _ hp, hout, a, ?_, hid⟩
    rw [session_addUser, if_neg (Nat.ne_of_lt (hs.below p hp))]
    exact ha
  · exact .inr hn

theorem IdsHeld.delete (h : IdsHeld s) (hspare : SpareClient s c) : IdsHeld (s.delete c) := by
  have hstays : ∀ {p a k}, p ∈ s.clientList → p ≠ c → s.session p = some a → a.clientid = k →
      (s.delete c).clientHas [] k := fun {p a k} hp hpc ha hid => by
    refine ⟨p, (List.mem_erase_of_ne hpc).mpr hp, List.not_mem_nil, a, ?_, hid⟩
    rw [session_delete, if_neg hpc]
    exact ha
  intro k hk htaken
  have htaken : s.clientIDList k = 0 := htaken
  rcases h k hk htaken with ⟨p, hp, -, a, ha, hid⟩ | hn
  · by_cases hpc : p = c
    · rw [hpc] at ha
      rcases hspare a ha (hid ▸ htaken) with ⟨q, hq, hout, b, hb, hid'⟩ | hn
      · exact .inl (hstays hq (fun h => hout (List.mem_singleton.mpr h)) hb (hid'.trans hid))
      · exact .inr (hid ▸ hn)
    · exact .inl (hstays hp hpc ha hid)
  · exact .inr hn

theorem IdsHeld.packet (h : IdsHeld s) (hs : s.Sound) (hi : KeepsIds E s (.packet c P J)) :
    IdsHeld (fin (exec E (.packet c P J) s)) := by
  refine (inert_held.packet (E := E) (J := J) fun hc ho l => ?_).rel h
  have hq : IdsKept s (s.received c l) :=
    idsKept_eq (quiet_received s c l).session rfl rfl rfl
  have hlive : ((s.received c l).session c).isSome := by
    rw [(quiet_received s c l).session, Server.session, Option.isSome_map]
    exact (hs.live c).mpr hc
  refine keepsAt_checkLogin_held hc hlive fun hadm => ?_
  obtain ⟨hspare, hone⟩ := hi ho hadm
  exact ⟨hq.spareClient.mpr hspare, hone⟩

theorem IdsHeld.step (h : IdsHeld s) (hs : s.Sound) {i : Step} (hi : KeepsIds E s i)
    (hr : exec E i s = .ok () t) : IdsHeld t := by
  cases i with
  | addUser J =>
    have := h.addUser (E := E) (J := J) hs
    rwa [hr] at this
  | disconnectClient c =>
    rw [exec_disconnectClient hs] at hr
    cases hr
    split
    · exact h.delete hi
    · exact h
  | packet c P J =>
    have := h.packet hs hi
    rwa [hr] at this
  | visiblityList c J => exact h.visiblityList hi hr

/-- A search that finds nothing has found every id held. -/
theorem IdsHeld.accounted (h : IdsHeld s) : Accounted s := by
  refine ⟨h, fun J hfull k hpos hk => ?_⟩
  by_cases htaken : s.clientIDList k = 0
  · rcases h k hk htaken with hclient | hn
    · exact .inl hclient
    · exact .inr (.inl hn)
  · refine .inr (.inr ⟨htaken, ?_⟩)
    by_contra hold
    have hmem : k ∈ s.freeIDs J.now 1 := ⟨hpos, hk, htaken, by omega⟩
    rcases getNewID_cases J s 1 with ⟨j, hj, hnew⟩ | ⟨hnone, -⟩
    · have hzero : getNewID J 1 s = .ok 0 s := hfull
      rw [hnew] at hzero
      injection hzero with hj0
      rw [hj0] at hj
      exact absurd hj.1.1 (by decide)
    · rw [hnone] at hmem
      exact hmem

/-- A player logs in. -/
def loggingIn : List Step :=
  [.addUser {}, .packet 0 (loginFrame (ascii "bob") (ascii "pw")) { now := 100 }]

theorem keepsIds_loggingIn :
    Along (exec Env.plain) (KeepsIds Env.plain) (Server.start (oneAccount 1)) loggingIn := by
  refine ⟨trivial, fun t ht => ⟨fun _ _ => ⟨?_, ?_⟩, fun _ _ => trivial⟩⟩
  all_goals
    cases ht
  · -- the player has no id yet
    intro a ha htaken
    have hid : a = {} := (Option.some.inj ha).symm
    rw [hid] at htaken
    cases htaken
  · intro m rows hrows
    have hone : ((Env.plain.sql.query m (oneAccount 1)
        (vsprintf (ascii Query.level) [txt (ascii "bob")])).2.map List.length) = some 1 := by
      show (Env.plain.sql.query 0 (oneAccount 1)
        (vsprintf (ascii Query.level) [txt (ascii "bob")])).2.map List.length = some 1
      decide +kernel
    have hname : (loginFrame (ascii "bob") (ascii "pw")).username.str = ascii "bob" := by
      decide +kernel
    rw [hname] at hrows
    have hrows : (Env.plain.sql.query m (oneAccount 1)
      (vsprintf (ascii Query.level) [txt (ascii "bob")])).2 = some rows := hrows
    rw [hrows] at hone
    exact (Option.some.inj hone).le

end Destiny
