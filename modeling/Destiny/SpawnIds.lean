import Destiny.Framing
import Destiny.Server.Tokens

/-!
# Ids of spawned monsters

`pakGMSpawn` counts the monsters it announces in `npcid`, and looks neither at the table of
ids nor at who holds one. Its ids are fresh as long as the counter has not come round and
nobody holds the id it stands at.
-/

namespace Destiny

open Text Sql Prog

/-- A connected client or an NPC has an id. -/
def Server.holds (s : Server) (id : Nat) : Prop :=
  (∃ c ∈ s.clientList, ∃ a ∈ s.session c, a.clientid = id) ∨ ∃ n ∈ s.npcList, n.clientid = id

instance (s : Server) (id : Nat) : Decidable (s.holds id) :=
  inferInstanceAs (Decidable ((∃ c ∈ s.clientList, ∃ a ∈ s.session c, _ = _) ∨ ∃ n ∈ _, _ = _))

def Event.isGmSpawn : Event → Bool
  | .gm _ .spawn => true
  | _ => false

/-- The ids in the packets of `pakGMSpawn` between two states. -/
def Server.announced (s t : Server) : List Nat :=
  if (s.since t).any Event.isGmSpawn then (s.sentIn t).map (word · 16) else []

/-- The ids announced, with those of one more step. -/
def announcing (E : Env) (s : Server) (g : List Nat) (i : Step) : List Nat :=
  s.announced (fin (exec E i s)) ++ g

/-- What a step announces was not announced before, and nobody holds it. -/
def SpawnFresh (E : Env) (h : Server × List Nat) (i : Step) : Prop :=
  ∀ id ∈ h.1.announced (fin (exec E i h.1)), id ∉ h.2 ∧ ¬ h.1.holds id

instance (E : Env) (h : Server × List Nat) (i : Step) : Decidable (SpawnFresh E h i) :=
  inferInstanceAs (Decidable (∀ id ∈ _, ¬ _ ∧ ¬ _))

/-- A packet that makes `packetCommand` call `pakGMSpawn`. -/
def Server.spawns (s : Server) (c : Ptr) (P : Packet) : Prop :=
  c ∈ s.clientList ∧ P.opcode = 0x0334 ∧ 90 ≤ s.level c ∧ (P.args (ascii "spawn") 3).isSome

instance (s : Server) (c : Ptr) (P : Packet) : Decidable (s.spawns c P) :=
  inferInstanceAs (Decidable (_ ∧ _ ∧ _ ∧ _))

/-- The counter has not come round, and nobody holds the id it stands at. -/
def SpawnIdFree (s : Server) : Step → Prop
  | .packet c P _ => s.spawns c P → s.npcid < 1000 + 65536 ∧ ¬ s.holds (u16 s.npcid)
  | .addUser _ | .disconnectClient _ | .visiblityList .. => True

instance (s : Server) : (i : Step) → Decidable (SpawnIdFree s i)
  | .packet .. => inferInstanceAs (Decidable (_ → _ ∧ ¬ _))
  | .addUser _ | .disconnectClient _ | .visiblityList .. => .isTrue trivial

variable {E : Env} {J : Junk} {c : Ptr} {s t : Server} {P : Packet}

/-! ## Steps that spawn nothing -/

/-- The counter stays, and nothing is spawned. -/
def steady : Frame Fault Server :=
  (Frame.same Server.npcid).both (.log Server.trace fun e => e.isGmSpawn = false)

theorem steady_eq (h1 : t.npcid = s.npcid) (h2 : t.trace = s.trace) : steady.rel s t :=
  ⟨h1, [], h2, by simp⟩

theorem logs_steady {e : Event} (h : e.isGmSpawn = false) : Logs steady e := fun _ =>
  ⟨rfl, [e], rfl, by simpa using h⟩

theorem tabular_steady (c : Ptr) : Tabular steady c where
  packet _ _ := steady_eq rfl rfl
  calls _ := steady_eq rfl rfl
  send s _ _ _ := logs_steady (e := .send ..) rfl s
  fault _ _ _ _ := ⟨trivial, trivial⟩
  derefs _ _ := ⟨trivial, trivial⟩
  visible _ _ _ _ _ _ := ⟨trivial, trivial⟩
  listed _ _ _ _ := ⟨trivial, trivial⟩
  reads _ _ := steady_eq rfl rfl
  body _ _ _ := steady_eq rfl rfl
  data _ _ := steady_eq rfl rfl
  ids _ _ _ _ _ := steady_eq rfl rfl
  lists := ⟨logs_steady rfl, fun _ => logs_steady rfl, fun _ => ⟨trivial, trivial⟩⟩

theorem keeps_login_steady : Keeps steady (checkLogin E J c P) := by
  have hF := tabular_steady c
  have hs : ∀ f, Session steady c f := fun _ _ => steady_eq rfl rfl
  refine keeps_bind (keeps_readLogin hF.toBasic hF.derefs hF.reads ?_ P)
    fun ⟨u, p, cliver⟩ => hF.checkAccount ?_ cliver
  · exact ⟨fun _ _ => hs _, fun _ _ _ => steady_eq rfl rfl, fun _ => logs_steady rfl⟩
  · refine ⟨⟨logs_steady rfl, fun _ => hs _, fun s b => ?_⟩, fun _ => hs _, hs _⟩
    exact steady.trans (hs (fun a => { a with accesslevel := u32 (atoi b) }) s)
      (logs_steady (e := .granted c (atoi b)) rfl _)

/-- The command with its three arguments, or without. -/
theorem spawn_args {mem : Bytes} {next : Nat} (h : token P.mem 12 = some (ascii "spawn", next, mem)) :
    P.args (ascii "spawn") 3 = tokens 3 mem 28 := by
  rw [Packet.args, h]
  exact if_pos rfl

theorem keepsAt_packetCommand_steady
    (h : ¬ (90 ≤ s.level c ∧ (P.args (ascii "spawn") 3).isSome)) :
    KeepsAt steady s (packetCommand J c P) := by
  have hF := tabular_steady c
  have hB := hF.toBasic
  refine keepsAt_packetCommand_of (keeps_client hF.derefs) (keeps_strtok hB hF.reads)
    fun name next mem l ht => ?_
  by_cases hspawn : name = ascii "spawn" ∧ ¬ 90 > s.level c
  · obtain ⟨rfl, hlevel⟩ := hspawn
    have hnone : tokens 3 mem 28 = none := by
      rw [← spawn_args ht, ← Option.not_isSome_iff_eq_none]
      exact fun hsome => h ⟨Nat.le_of_not_lt hlevel, hsome⟩
    rw [command, if_neg (by decide), if_neg (by decide), if_pos rfl, if_neg hlevel]
    refine keepsAt_bind (keeps_arguments hB hF.reads _ _ _) fun o v hv => ?_
    obtain ⟨rfl, -⟩ := arguments_ok hv
    rw [hnone]
    exact keeps_bind (keeps_sendServerMsg hB hF.derefs _ _) (fun _ => keeps_pure _) v
  · refine keeps_command hB hF.derefs hF.reads hF.visible hF.listed (fun _ _ a ha => ?_)
      (fun hname hlevel => absurd ⟨hname, Nat.not_lt.mpr hlevel⟩ hspawn) mem _
    cases a with
    | spawn => exact absurd rfl ha
    | notice | telexy | item => exact logs_steady rfl

/-- Everything but a spawn leaves the counter. -/
theorem keepsAt_packet_steady (h : ¬ s.spawns c P) : KeepsAt steady s (exec E (.packet c P J)) := by
  have hF := tabular_steady c
  have hs : ∀ f, Session steady c f := fun _ _ => steady_eq rfl rfl
  refine keepsAt_packet hF.toCommon P fun hc l => ?_
  refine keepsAt_dispatch_command hF.toCommon P _ (fun _ => keeps_login_steady _)
    (fun _ => hF.charCreate P) (fun _ => hF.charDelete P) (fun _ _ _ _ => steady_eq rfl rfl)
    (fun _ => ⟨fun _ => hs _, hs _, hs _⟩) fun ho => keepsAt_packetCommand_steady fun hargs => ?_
  rw [level_received] at hargs
  exact h ⟨hc, ho, hargs.1, hargs.2⟩

theorem keepsAt_step_steady {i : Step} (h : ∀ c P J, i = .packet c P J → ¬ s.spawns c P) :
    KeepsAt steady s (exec E i) := by
  cases i with
  | addUser J => exact keepsAt_ok rfl (steady_eq rfl rfl)
  | disconnectClient c =>
    refine keeps_bind keeps_get (fun s' => keeps_ite (fun _ => ?_) fun _ => keeps_pure _) s
    exact keeps_bind (keeps_client (tabular_steady c).derefs) fun _ =>
      keeps_modify fun _ => steady_eq rfl rfl
  | packet c P J => exact keepsAt_packet_steady (h c P J rfl)
  | visiblityList c J =>
    have hF := tabular_steady c
    exact keepsAt_visiblityList hF.toBasic (fun _ _ _ => ⟨trivial, trivial⟩)
      ⟨fun _ => logs_steady rfl, fun _ _ => logs_steady rfl⟩ hF.ids (fun _ _ => steady_eq rfl rfl)
      fun _ _ _ => steady_eq rfl rfl

/-! ## Spawns -/

theorem tokens_length {n : Nat} {mem : Bytes} {i : Nat} {ts : List Bytes}
    (h : tokens n mem i = some ts) : ts.length = n := by
  induction n generalizing mem i ts with
  | zero =>
    cases h
    rfl
  | succ n ih =>
    rw [tokens] at h
    split at h
    · cases h
    · obtain ⟨us, hus, rfl⟩ := Option.map_eq_some_iff.mp h
      rw [List.length_cons, ih hus]

/-- The stores of `pakGMSpawn` before and after the id. -/
def spawnHead (pos : FPoint) : List Write :=
  [addWord 172 0, addWord 0x0364 4, addWord 30000 6, addWord (trunc pos.x) 12,
    addWord (trunc pos.y) 14]

def spawnTail (J : Junk) (mobcode mobid : Int) (name : Bytes) : List Write :=
  (List.range 12).map (fun i : Nat => addByte 0xcc (18 + i)) ++
    [addStr J name 18, addByte mobid 34, addByte 1 66, addByte 34 67, addWord 0 69, addWord 2 100,
      addWord 3 102, addWord 93 104, addByte mobcode 106, addByte 1 107, addWord 800 108,
      addWord 100 110, addWord 200 112, addWord 100 114, addWord 10 116, addWord 70 118,
      addWord 30 120, addWord 200 122, addWord 2047 124, addWord 2047 126, addWord 0 128,
      addByte 0 130] ++
    (List.range 29).map (fun i : Nat => addByte 0xcc (147 + i)) ++
    [addByte 0x01 172]

theorem spawnTail_clear (mobcode mobid : Int) (name : Bytes) :
    ∀ w ∈ spawnTail J mobcode mobid name, w.clear 16 2 ∧ 0 ≤ w.off := by
  have hoff : ∀ w ∈ spawnTail J mobcode mobid name, (18 : Int) ≤ w.off := by
    have hrun : ∀ k : Nat, 18 ≤ k → ∀ n, ∀ w ∈ (List.range n).map fun i : Nat => addByte 0xcc (k + i),
        (18 : Int) ≤ w.off := by
      intro k hk n w hw
      obtain ⟨i, -, rfl⟩ := List.mem_map.mp hw
      show (18 : Int) ≤ k + i
      omega
    have h12 := hrun 18 (by decide) 12
    have h29 := hrun 147 (by decide) 29
    push_cast at h12 h29
    simp only [spawnTail, List.forall_mem_append]
    refine ⟨⟨⟨h12, ?_⟩, h29⟩, ?_⟩
    · simp [addWord, addByte, addStr]
    · simp [addByte]
  intro w hw
  have h18 := hoff w hw
  refine ⟨.inr ?_, by omega⟩
  show ((16 + 2 : Nat) : Int) ≤ w.off
  omega

/-- A spawn announces the counter to at least one client, and moves it. -/
theorem pakGMSpawn_ok {mobcode mobid : Int} {name : Bytes} {r : Bool}
    (h : pakGMSpawn J c mobcode mobid name s = .ok r t) : t.npcid = s.npcid + 1 ∧
      ∃ b es, word b 16 = u16 s.npcid ∧ t.trace = es ++ .gm c .spawn :: s.trace ∧
        (∃ e ∈ es, e.plain.map (·.2) = some b) ∧ ∀ e ∈ es, e.plain.map (·.2) = some b := by
  obtain ⟨_, s1, h1, h⟩ := of_bind_ok h
  cases h1
  obtain ⟨cl, s2, h2, h⟩ := of_bind_ok h
  obtain rfl := (client_ok h2).2.symm
  obtain ⟨_, s3, h3, h⟩ := of_bind_ok h
  cases h3
  obtain ⟨_, s4, h4, h⟩ := of_bind_ok h
  obtain ⟨hs4, -⟩ := writes_stores h4
  obtain ⟨_, s5, h5, h⟩ := of_bind_ok h
  cases h5
  obtain ⟨_, s6, h6, h⟩ := of_bind_ok h
  obtain ⟨-, rfl⟩ := sendToVisible_ok h6
  obtain ⟨_, s7, h7, h⟩ := of_bind_ok h
  cases h7
  cases h
  have hnpcid : s4.npcid = s.npcid := by rw [hs4]
  have htrace : s4.trace = s.trace := by rw [hs4]
  have hpacket : s4.packet = stores (spawnHead cl.playerPosition.current ++
      addWord s.npcid 16 :: spawnTail J mobcode mobid name) fun _ => 0 := by
    rw [hs4]
    rfl
  have hword : word (s4.first 172) 16 = u16 s.npcid := by
    rw [word_first (by decide), hpacket]
    exact wordAt_stores s.npcid _ (spawnTail_clear mobcode mobid name)
  refine ⟨?_, s4.first 172,
    ({ s4 with trace := .gm c .spawn :: s4.trace } : Server).copies c 172 true, hword, ?_,
    ⟨_, List.mem_cons_self, rfl⟩, fun e he => mem_copies he⟩
  · show s4.npcid + 1 = s.npcid + 1
    rw [hnpcid]
  · rw [← htrace]

theorem packetCommand_spawn {r : Bool} (h : packetCommand J c P s = .ok r t)
    (hlevel : 90 ≤ s.level c) (hargs : (P.args (ascii "spawn") 3).isSome) :
    ∃ u mobcode mobid name, pakGMSpawn J c mobcode mobid name u = .ok r t ∧
      u.npcid = s.npcid ∧ u.trace = s.trace := by
  have hsome := hargs
  unfold Packet.args at hargs
  cases ht : token P.mem 12 with
  | none =>
    rw [ht] at hargs
    cases hargs
  | some tok =>
    obtain ⟨name, next, mem⟩ := tok
    rw [ht] at hargs
    have hname : name = ascii "spawn" := by
      by_contra hne
      simp [hne] at hargs
    subst hname
    rw [spawn_args ht] at hsome
    obtain ⟨ts, hts⟩ := Option.isSome_iff_exists.mp hsome
    obtain ⟨mobcode, mobid, name, rfl⟩ := List.length_eq_three.mp (tokens_length hts)
    obtain ⟨l, h⟩ := packetCommand_ok ht h
    rw [command, if_neg (by decide), if_neg (by decide), if_pos rfl,
      if_neg (Nat.not_lt.mpr hlevel)] at h
    obtain ⟨o, s1, h1, h⟩ := of_bind_ok h
    obtain ⟨rfl, l', rfl⟩ := arguments_ok h1
    rw [hts] at h
    exact ⟨_, _, _, _, h, rfl, rfl⟩

/-- What a step announces: nothing, or the counter. -/
theorem announced_of_steady (h : steady.rel s t) : s.announced t = [] := by
  obtain ⟨-, es, he, hes⟩ := h
  have hnone : ¬ (s.since t).any Event.isGmSpawn = true := by
    rw [since_eq he, List.any_eq_true]
    rintro ⟨e, hmem, hspawn⟩
    rw [hes e hmem] at hspawn
    cases hspawn
  exact if_neg hnone

theorem spawn_step (h : exec E (.packet c P J) s = .ok () t) (hspawn : s.spawns c P) :
    t.npcid = s.npcid + 1 ∧ ∀ id, id ∈ s.announced t ↔ id = u16 s.npcid := by
  obtain ⟨hc, ho, hlevel, hargs⟩ := hspawn
  obtain ⟨l, r, hd⟩ := packet_ok hc h
  rw [ho] at hd
  rw [← level_received s c l] at hlevel
  obtain ⟨u, mobcode, mobid, name, hu, hnpcid, htrace⟩ :=
    packetCommand_spawn (c := c) (P := P) hd hlevel hargs
  obtain ⟨hnext, b, es, hb, htr, ⟨e, he, heb⟩, hall⟩ := pakGMSpawn_ok hu
  have hnpcid : u.npcid = s.npcid := hnpcid
  have htrace : u.trace = s.trace := htrace
  have htr : t.trace = (es ++ [.gm c .spawn]) ++ s.trace := by
    rw [htr, htrace, List.append_assoc]
    rfl
  rw [hnpcid] at hnext hb
  refine ⟨hnext, fun id => ?_⟩
  have hany : (s.since t).any Event.isGmSpawn = true := by
    rw [since_eq htr, List.any_eq_true]
    exact ⟨.gm c .spawn, by simp, rfl⟩
  rw [Server.announced, if_pos hany, Server.sentIn, since_eq htr, List.mem_map]
  constructor
  · rintro ⟨b', hb', rfl⟩
    obtain ⟨e', he', heb'⟩ := List.mem_filterMap.mp hb'
    rcases List.mem_append.mp he' with he' | he'
    · rw [hall e' he'] at heb'
      cases heb'
      exact hb
    · rw [List.mem_singleton.mp he'] at heb'
      cases heb'
  · rintro rfl
    exact ⟨b, List.mem_filterMap.mpr ⟨e, List.mem_append_left _ he, heb⟩, hb⟩

/-! ## Runs -/

/-- The ids announced are those the counter has passed. -/
structure Counted (h : Server × List Nat) : Prop where
  start : 1000 ≤ h.1.npcid
  ids : ∀ id, id ∈ h.2 ↔ ∃ j : Int, 1000 ≤ j ∧ j < h.1.npcid ∧ id = u16 j

/-- The counter stands at an id that was not announced until it comes round. -/
theorem Counted.fresh_iff {h : Server × List Nat} (hc : Counted h) :
    u16 h.1.npcid ∉ h.2 ↔ h.1.npcid < 1000 + 65536 := by
  have hstart := hc.start
  rw [hc.ids]
  constructor
  · intro hnot
    by_contra hround
    refine hnot ⟨h.1.npcid - 65536, by omega, by omega, ?_⟩
    unfold u16 unsigned
    omega
  · rintro hlt ⟨j, hj, hjn, hid⟩
    unfold u16 unsigned at hid
    omega

theorem counted_step {h h' : Server × List Nat} {i : Step} (hc : Counted h)
    (hr : ghost (exec E) (announcing E) i h = .ok () h') :
    Counted h' ∧ (SpawnFresh E h i ↔ SpawnIdFree h.1 i) := by
  obtain ⟨s, g⟩ := h
  obtain ⟨t, g'⟩ := h'
  obtain ⟨hexec, hupd⟩ := ghost_ok hr
  have hok : exec E i s = .ok () t := hexec
  have hg : g' = s.announced t ++ g := by
    refine (show g' = announcing E s g i from hupd).trans ?_
    rw [announcing, hok]
    rfl
  have hfresh : SpawnFresh E (s, g) i ↔ ∀ id ∈ s.announced t, id ∉ g ∧ ¬ s.holds id := by
    unfold SpawnFresh
    rw [hok]
    rfl
  by_cases hspawn : ∃ c P J, i = .packet c P J ∧ s.spawns c P
  · obtain ⟨c, P, J, rfl, hspawn⟩ := hspawn
    obtain ⟨hnext, hids⟩ := spawn_step hok hspawn
    refine ⟨⟨?_, fun id => ?_⟩, ?_⟩
    · show 1000 ≤ t.npcid
      have hstart : 1000 ≤ s.npcid := hc.start
      omega
    · have hold : id ∈ g ↔ ∃ j : Int, 1000 ≤ j ∧ j < s.npcid ∧ id = u16 j := hc.ids id
      have hstart : 1000 ≤ s.npcid := hc.start
      show id ∈ g' ↔ ∃ j : Int, 1000 ≤ j ∧ j < t.npcid ∧ id = u16 j
      rw [hg, List.mem_append, hids, hold, hnext]
      constructor
      · rintro (rfl | ⟨j, hj, hjn, rfl⟩)
        · exact ⟨s.npcid, hstart, by omega, rfl⟩
        · exact ⟨j, hj, by omega, rfl⟩
      · rintro ⟨j, hj, hjn, rfl⟩
        by_cases hjs : j = s.npcid
        · exact .inl (by rw [hjs])
        · exact .inr ⟨j, hj, by omega, rfl⟩
    · have hfree : SpawnIdFree s (.packet c P J) ↔
          s.npcid < 1000 + 65536 ∧ ¬ s.holds (u16 s.npcid) := imp_iff_right hspawn
      rw [hfresh, hfree, ← hc.fresh_iff]
      constructor
      · exact fun h => h _ ((hids _).mpr rfl)
      · intro h id hid
        rw [(hids id).mp hid]
        exact h
  · have hsteady := (keepsAt_step_steady (E := E) (i := i) (s := s) fun c P J hi hs =>
      hspawn ⟨c, P, J, hi, hs⟩).rel
    rw [hok] at hsteady
    have hnone : s.announced t = [] := announced_of_steady hsteady
    have hnpcid : t.npcid = s.npcid := hsteady.1
    rw [hnone, List.nil_append] at hg
    refine ⟨⟨?_, fun id => ?_⟩, ?_⟩
    · show 1000 ≤ t.npcid
      rw [hnpcid]
      exact hc.start
    · show id ∈ g' ↔ ∃ j : Int, 1000 ≤ j ∧ j < t.npcid ∧ id = u16 j
      rw [hg, hnpcid]
      exact hc.ids id
    · rw [hfresh, hnone]
      refine iff_of_true (by simp) ?_
      cases i with
      | packet c P J => exact fun hs => absurd ⟨c, P, J, rfl, hs⟩ hspawn
      | addUser J => trivial
      | disconnectClient c => trivial
      | visiblityList c J => trivial

/-- **Every spawned monster has an id of its own** exactly when at each spawn fewer than 65536
came before and nobody holds the id the counter stands at. -/
theorem spawnFresh_iff {is : List Step} (h0 : s.npcid = 1000) (hr : run (exec E) is s = .ok () t) :
    Along (ghost (exec E) (announcing E)) (SpawnFresh E) (s, []) is ↔
      Along (exec E) SpawnIdFree s is := by
  obtain ⟨g', hghost⟩ := run_ghost (announcing E) hr []
  have hcounted : Counted (s, []) := by
    refine ⟨by show 1000 ≤ s.npcid; omega, fun id => iff_of_false List.not_mem_nil ?_⟩
    rintro ⟨j, hj, hjn, -⟩
    have hjn : j < s.npcid := hjn
    omega
  refine (along_congr_of_ok (fun h i h' hc hok => ?_) hcounted hghost).trans (along_ghost _ _)
  exact counted_step hc hok

/-! ## Spawning again and again -/

/-- A client that may spawn, and sees no deleted client. -/
structure Spawner (s : Server) (c : Ptr) : Prop where
  list : c ∈ s.clientList
  level : 90 ≤ s.level c
  live : (s.heap c).isSome
  seen : ∀ p ∈ s.visible c, (s.heap p).isSome

instance (s : Server) (c : Ptr) : Decidable (Spawner s c) :=
  decidable_of_iff ((c ∈ s.clientList ∧ 90 ≤ s.level c) ∧ (s.heap c).isSome ∧
    ∀ p ∈ s.visible c, (s.heap p).isSome)
    ⟨fun h => ⟨h.1.1, h.1.2, h.2.1, h.2.2⟩, fun h => ⟨⟨h.list, h.level⟩, h.live, h.seen⟩⟩

theorem pakGMSpawn_apply (mobcode mobid : Int) {name : Bytes} (hname : name.length ≤ 65000)
    (hc : (s.heap c).isSome) (hseen : ∀ p ∈ s.visible c, (s.heap p).isSome) :
    ∃ t, pakGMSpawn J c mobcode mobid name s = .ok true t ∧ t.heap = s.heap ∧
      t.clientList = s.clientList ∧ t.npcList = s.npcList ∧ t.npcid = s.npcid + 1 := by
  obtain ⟨cl, hcl⟩ := Option.isSome_iff_exists.mp hc
  let ws := spawnHead cl.playerPosition.current ++ addWord s.npcid 16 :: spawnTail J mobcode mobid name
  have hbytes : ∀ k h, (leBytes k h).length = k := fun k => by
    induction k with
    | zero => exact fun h => rfl
    | succ k ih => exact fun h => congrArg (· + 1) (ih _)
  have hin : ∀ w ∈ ws, w.inBounds = true := by
    have hrun : ∀ k ≤ 147, ∀ n ≤ 29, ∀ w ∈ (List.range n).map fun i : Nat => addByte 0xcc (k + i : Nat),
        w.inBounds = true := by
      intro k hk n hn w hw
      obtain ⟨i, hi, rfl⟩ := List.mem_map.mp hw
      have hi := List.mem_range.mp hi
      simp only [Write.inBounds, addByte, hbytes, decide_eq_true_eq]
      omega
    have h12 := hrun 18 (by decide) 12 (by decide)
    have h29 := hrun 147 (by decide) 29 (by decide)
    push_cast at h12 h29
    refine List.forall_mem_append.mpr ⟨?_, List.forall_mem_cons.mpr ⟨?_, ?_⟩⟩
    · simp [spawnHead, Write.inBounds, addWord, hbytes]
    · simp [Write.inBounds, addWord, hbytes]
    · simp only [spawnTail, List.forall_mem_append]
      refine ⟨⟨⟨h12, ?_⟩, h29⟩, ?_⟩
      · simp [Write.inBounds, addWord, addByte, addStr, hbytes]
        omega
      · simp [Write.inBounds, addByte, hbytes]
  let s1 : Server := { s with packet := fun _ => 0 }
  let s2 : Server := { s with packet := stores ws fun _ => 0 }
  let s3 : Server := { s2 with trace := .gm c .spawn :: s.trace }
  let s4 : Server := { s3 with trace := s3.copies c 172 true ++ s3.trace }
  have hfree : packetFree s = .ok () s1 := rfl
  have hclient : client c s1 = .ok cl s1 := client_of_some hcl
  have hget : (get : M Server) s1 = .ok s1 s1 := rfl
  have hwrites : writes ws s1 = .ok () s2 := writes_apply hin s1
  have hnote : note (.gm c .spawn) s2 = .ok () s3 := rfl
  have hsend : sendToVisible c 172 true s3 = .ok () s4 := sendToVisible_apply hc hseen
  refine ⟨{ s4 with npcid := s.npcid + 1 }, ?_, rfl, rfl, rfl, rfl⟩
  rw [pakGMSpawn, bind_ok hfree, bind_ok hclient, bind_ok hget]
  refine (bind_ok hwrites).trans ?_
  rw [bind_ok hnote, bind_ok hsend]
  rfl

/-- A packet that spawns a monster with a name of some length. -/
structure Packet.Spawns (P : Packet) : Prop where
  opcode : P.opcode = 0x0334
  mapped : 8 ≤ P.mem.length
  args : ((P.args (ascii "spawn") 3).map fun ts => ts.all (·.length ≤ 65000)) = some true

instance (P : Packet) : Decidable P.Spawns :=
  decidable_of_iff (P.opcode = 0x0334 ∧ 8 ≤ P.mem.length ∧
    ((P.args (ascii "spawn") 3).map fun ts => ts.all (·.length ≤ 65000)) = some true)
    ⟨fun h => ⟨h.1, h.2.1, h.2.2⟩, fun h => ⟨h.opcode, h.mapped, h.args⟩⟩

theorem Spawner.step (h : Spawner s c) (hP : P.Spawns) :
    ∃ t, exec E (.packet c P J) s = .ok () t ∧ Spawner t c ∧ t.npcList = s.npcList ∧
      t.npcid = s.npcid + 1 := by
  obtain ⟨ts, hts, hlen⟩ := Option.map_eq_some_iff.mp hP.args
  obtain ⟨name, next, mem, ht⟩ : ∃ name next mem, token P.mem 12 = some (name, next, mem) := by
    unfold Packet.args at hts
    split at hts
    · cases hts
    · next name next mem ht => exact ⟨name, next, mem, ht⟩
  obtain rfl : name = ascii "spawn" := by
    by_contra hne
    rw [Packet.args, ht] at hts
    simp [hne] at hts
  rw [spawn_args ht] at hts
  obtain ⟨mobcode, mobid, name, rfl⟩ := List.length_eq_three.mp (tokens_length hts)
  have hname : name.length ≤ 65000 := by
    have hall := List.all_eq_true.mp hlen name (by simp)
    exact of_decide_eq_true hall
  -- the handler runs in the state the packet was counted in
  let u := s.dispatched c
  have hheap : ∀ p, (u.heap p).isSome = (s.heap p).isSome := fun p => s.update_isSome c _ p
  have hlive : (u.heap c).isSome := by
    rw [hheap]
    exact h.live
  have hvisible : u.visible = s.visible :=
    visible_update (f := fun cl => { cl with recvpkts := cl.recvpkts + 1 }) (fun _ => rfl) s c
  have hlevel : u.level c = s.level c := level_received s c _
  obtain ⟨l, hcommand⟩ := packetCommand_apply (J := J) ht hlive
  obtain ⟨l', hargs⟩ := arguments_apply hts { u with reads := l }
  obtain ⟨t, hspawn, htheap, htlist, htnpcs, htid⟩ :=
    pakGMSpawn_apply (J := J) (c := c) (s := { u with reads := l' }) (atoi mobcode) (atoi mobid)
      hname hlive fun p hp => by
        have hp : p ∈ u.visible c := hp
        rw [hvisible] at hp
        rw [← h.seen p hp]
        exact hheap p
  refine ⟨t, ?_, ⟨?_, ?_, ?_, fun p hp => ?_⟩, htnpcs, htid⟩
  · rw [exec_packet h.list hP.mapped, hP.opcode]
    have hbranch : command J c (u.level c) mem (ascii "spawn") { u with reads := l } = .ok true t := by
      rw [command, if_neg (by decide), if_neg (by decide), if_pos rfl,
        if_neg (Nat.not_lt.mpr (hlevel ▸ h.level))]
      exact (bind_ok hargs).trans hspawn
    exact (bind_ok (hcommand.trans hbranch)).trans rfl
  · rw [htlist]
    exact h.list
  · have hu : 90 ≤ u.level c := hlevel ▸ h.level
    rw [Server.level, htheap]
    exact hu
  · rw [htheap]
    exact hlive
  · have hp : p ∈ u.visible c := by
      rw [Server.visible, htheap] at hp
      exact hp
    rw [hvisible] at hp
    rw [htheap]
    show (u.heap p).isSome = true
    rw [hheap]
    exact h.seen p hp

theorem Spawner.run (h : Spawner s c) (hP : P.Spawns) (n : Nat) :
    ∃ t, run (exec E) (List.replicate n (.packet c P J)) s = .ok () t ∧ Spawner t c ∧
      t.npcList = s.npcList ∧ t.npcid = s.npcid + n := by
  induction n generalizing s with
  | zero => exact ⟨s, rfl, h, rfl, by simp⟩
  | succ n ih =>
    obtain ⟨t, ht, h1, hl, hid⟩ := h.step (E := E) (J := J) hP
    obtain ⟨u, hu, h2, hl', hid'⟩ := ih h1
    refine ⟨u, (run_cons_ok ht).trans hu, h2, hl'.trans hl, ?_⟩
    rw [hid', hid]
    push_cast
    ring

/-- The command `spawn 1 2 x`. -/
def spawnFrame : Packet := frame 0x0334 (ascii "spawn" ++ List.replicate 11 0 ++ ascii "1 2 x" ++ [0])

/-- A player that may spawn logs in, and sees an NPC. -/
def arrival : List Step :=
  [.addUser {}, .packet 0 (loginFrame (ascii "bob") (ascii "pw")) { now := 100 },
    .visiblityList 0 { now := 100 }]

/-- A server with one NPC. -/
def oneNPC : Server :=
  { Server.start (oneAccount 100) with
    npcList := [⟨0, ⟨0, 0⟩, [], fun _ => {}, fun _ => {}, 0, 0, 0, 0, 0, 0, 0⟩] }

theorem spawnFresh_iff_arrival :
    Along (ghost (exec Env.plain) (announcing Env.plain)) (SpawnFresh Env.plain) (oneNPC, [])
      (arrival ++ [.packet 0 spawnFrame {}]) := by
  have h : thrown (run (exec Env.plain) (arrival ++ [.packet 0 spawnFrame {}]) oneNPC) = none ∧
    Along (exec Env.plain) SpawnIdFree oneNPC (arrival ++ [.packet 0 spawnFrame {}]) := by
    decide +kernel
  exact (spawnFresh_iff rfl (ok_of_thrown h.1)).mpr h.2

/-- The NPC has the id 2000, which is announced after 1000 spawns. -/
theorem spawn_shares : ∃ t t',
    run (exec Env.plain) (arrival ++ List.replicate 1000 (.packet 0 spawnFrame {})) oneNPC =
        .ok () t ∧
      exec Env.plain (.packet 0 spawnFrame {}) t = .ok () t' ∧ 2000 ∈ t.announced t' ∧
      t.holds 2000 ∧
      ¬ Along (ghost (exec Env.plain) (announcing Env.plain)) (SpawnFresh Env.plain) (oneNPC, [])
        (arrival ++ List.replicate 1000 (.packet 0 spawnFrame {}) ++ [.packet 0 spawnFrame {}]) := by
  have h0 : thrown (run (exec Env.plain) arrival oneNPC) = none ∧
      Spawner (fin (run (exec Env.plain) arrival oneNPC)) 0 ∧
      (fin (run (exec Env.plain) arrival oneNPC)).npcid = 1000 ∧
      ((fin (run (exec Env.plain) arrival oneNPC)).npcList.map (·.clientid)) = [2000] := by
    decide +kernel
  have hP : spawnFrame.Spawns := by decide +kernel
  generalize ht0 : fin (run (exec Env.plain) arrival oneNPC) = t0 at h0
  have hrun0 : run (exec Env.plain) arrival oneNPC = .ok () t0 := ht0 ▸ ok_of_thrown h0.1
  obtain ⟨t, hrun, hspawner, hnpcs, hid⟩ :=
    h0.2.1.run (E := Env.plain) (J := ({} : Junk)) hP 1000
  obtain ⟨t', hstep, -, -, -⟩ := hspawner.step (E := Env.plain) (J := ({} : Junk)) hP
  have hall := (run_append_ok hrun0).trans hrun
  have hid : t.npcid = 2000 := by rw [hid, h0.2.2.1]; rfl
  have hholds : t.holds 2000 := by
    have hmem : 2000 ∈ t.npcList.map (·.clientid) := by
      rw [hnpcs, h0.2.2.2]
      exact List.mem_singleton.mpr rfl
    obtain ⟨n, hn, hid⟩ := List.mem_map.mp hmem
    exact .inr ⟨n, hn, hid⟩
  have hspawns : t.spawns 0 spawnFrame :=
    ⟨hspawner.list, hP.opcode, hspawner.level, by decide +kernel⟩
  have hannounced : 2000 ∈ t.announced t' := by
    rw [(spawn_step hstep hspawns).2, hid]
    rfl
  refine ⟨t, t', hall, hstep, hannounced, hholds, fun hfresh => ?_⟩
  obtain ⟨g, hghost⟩ := run_ghost (announcing Env.plain) hall []
  have hlast := (along_append hfresh hghost).1 2000
  rw [hstep] at hlast
  exact (hlast hannounced).2 hholds

end Destiny
