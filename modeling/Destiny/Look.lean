import Destiny.Mutual

/-!
# One look around, and one pass of them

`VisiblityList` goes through the clients and the NPCs, decides about each from its distance and
from whether the old list holds it, and sends a packet for each that comes into sight.
`VisibilityProcess` calls it for one client after another. A look changes nobody's lists but
the looking client's own, so a pass is all the looks taken at once; and a look at the same
positions finds what the look before it has found.
-/

namespace Destiny

open Text Sql Prog

/-! ## What a look has to do -/

/-- A client in sight is another one, in game and not invisible, closer than 50 if it was seen
before and closer than 30 if it was not. -/
def InSight (s : Server) (c p : Ptr) : Prop :=
  c ≠ p ∧ s.inWorld p = true ∧ s.invisible p = false ∧
    distSq (s.place c) (s.place p) < if p ∈ s.visible c then 50 ^ 2 else 30 ^ 2

instance (s : Server) (c p : Ptr) : Decidable (InSight s c p) :=
  inferInstanceAs (Decidable (_ ∧ _ ∧ _ ∧ _))

def Server.npcPlace (s : Server) (i : Nat) : FPoint := ((s.npcList[i]?).map (·.pos)).getD ⟨0, 0⟩

/-- An NPC in sight is as close. -/
def NpcInSight (s : Server) (c : Ptr) (i : Nat) : Prop :=
  distSq (s.place c) (s.npcPlace i) < if i ∈ s.visibleNPCs c then 50 ^ 2 else 30 ^ 2

instance (s : Server) (c : Ptr) (i : Nat) : Decidable (NpcInSight s c i) :=
  inferInstanceAs (Decidable (_ < _))

/-- The lists are what is in sight, in the order of the server's own lists. What is sent is one
packet to `c` for each client that is new in the one list, then one for each NPC that is new in
the other. -/
structure Looked (J : Junk) (c : Ptr) (s t : Server) : Prop where
  clients : t.visible c = s.clientList.filter fun p => InSight s c p
  npcs : t.visibleNPCs c = (List.range s.npcList.length).filter fun i => NpcInSight s c i
  sent : ∃ es, t.trace = es ++ s.trace ∧
    es = t.npcsShown J c ((t.visibleNPCs c).filter (· ∉ s.visibleNPCs c)) ++
      s.charsShown J c ((t.visible c).filter (· ∉ s.visible c)) ∧
    (∀ p, es.count (.spawnChar c p) = if p ∈ t.visible c ∧ p ∉ s.visible c then 1 else 0) ∧
    ∀ i, es.count (.spawnNPC c i (t.npcId i)) =
      if i ∈ t.visibleNPCs c ∧ i ∉ s.visibleNPCs c then 1 else 0

/-- The buffer of a packet has room for the name of every client and every NPC. -/
structure NamesFit (s : Server) : Prop where
  clients : ∀ p ∈ s.clientList, ∀ o ∈ s.heap p, o.playerInfo.charName.length ≤ 65337
  npcs : ∀ n ∈ s.npcList, n.npcname.length ≤ 65337

variable {J : Junk} {c p : Ptr} {i : Nat} {s t : Server} {b : Bool} {ps : List Ptr}

theorem shows_iff (hc : (s.heap c).isSome) : s.shows c p = true ↔ InSight s c p := by
  unfold InSight
  by_cases hcp : c = p
  · refine iff_of_false (fun h => ?_) fun h => h.1 hcp
    subst hcp
    obtain ⟨this, hthis⟩ := Option.isSome_iff_exists.mp hc
    rw [Server.shows, hthis] at h
    simp at h
  · rw [shows_eq hc hcp, Server.range, Bool.and_eq_true, Bool.and_eq_true, Bool.not_eq_true', latch,
      decide_eq_true_eq, and_assoc]
    simp only [decide_eq_true_eq]
    norm_num [hcp]

theorem showsNPC_iff (hc : (s.heap c).isSome) (hi : i < s.npcList.length) :
    s.showsNPC c i = true ↔ NpcInSight s c i := by
  obtain ⟨this, hthis⟩ := Option.isSome_iff_exists.mp hc
  unfold NpcInSight Server.showsNPC Server.place Server.npcPlace
  rw [hthis, List.getElem?_eq_getElem hi, visibleNPCs_of_some hthis]
  simp only [latch, decide_eq_true_eq]
  norm_num

theorem chars_eq (hc : (s.heap c).isSome) :
    s.chars c = s.clientList.filter fun p => InSight s c p :=
  List.filter_congr fun _ _ => Bool.eq_iff_iff.mpr
    ((shows_iff hc).trans (decide_eq_true_iff).symm)

theorem npcs_eq (hc : (s.heap c).isSome) :
    s.npcs c = (List.range s.npcList.length).filter fun i => NpcInSight s c i :=
  List.filter_congr fun _ hi => Bool.eq_iff_iff.mpr
    ((showsNPC_iff hc (List.mem_range.mp hi)).trans (decide_eq_true_iff).symm)

theorem mem_newChars : p ∈ s.newChars c ↔ p ∈ s.chars c ∧ p ∉ s.visible c := by
  rw [Server.newChars, List.mem_filter, decide_eq_true_eq]

theorem mem_newNPCs : i ∈ s.newNPCs c ↔ i ∈ s.npcs c ∧ i ∉ s.visibleNPCs c := by
  rw [Server.newNPCs, List.mem_filter, decide_eq_true_eq]

/-! ## A look that returns -/

/-- What is shown of two lists without repetitions, counted. -/
theorem count_shown {es : List Event} {npcs : List Nat} {id : Nat → Nat} (hps : ps.Nodup)
    (hnpcs : npcs.Nodup) (h : es.filter Event.isSpawn =
      (npcs.map fun i => Event.spawnNPC c i (id i)).reverse ++ (ps.map (.spawnChar c)).reverse) :
    (∀ p, es.count (.spawnChar c p) = if p ∈ ps then 1 else 0) ∧
      ∀ i, es.count (.spawnNPC c i (id i)) = if i ∈ npcs then 1 else 0 := by
  have hchar : Function.Injective (Event.spawnChar c) := fun p q h => by cases h; rfl
  have hnpc : Function.Injective fun i => Event.spawnNPC c i (id i) := fun i j h => by
    injection h
  refine ⟨fun p => ?_, fun i => ?_⟩
  · have hnone : .spawnChar c p ∉ (npcs.map fun i => Event.spawnNPC c i (id i)).reverse := by
      simp
    rw [← List.count_filter (p := Event.isSpawn) rfl, h, List.count_append,
      List.count_eq_zero_of_not_mem hnone, List.count_reverse, List.count_map_of_injective _ _ hchar,
      hps.count, Nat.zero_add]
  · have hnone : .spawnNPC c i (id i) ∉ (ps.map (Event.spawnChar c)).reverse := by
      simp
    rw [← List.count_filter (p := Event.isSpawn) rfl, h, List.count_append,
      List.count_eq_zero_of_not_mem hnone, List.count_reverse,
      List.count_map_of_injective _ _ hnpc, hnpcs.count, Nat.add_zero]

theorem visiblityList_looked_ok (hnodup : s.clientList.Nodup) (h : visiblityList J c s = .ok b t) :
    b = true ∧ Looked J c s t := by
  obtain ⟨rfl, hc, D, ht⟩ := visiblityList_shows h
  have hvis : t.visible c = s.chars c := by
    obtain ⟨cl, hcl⟩ := Option.isSome_iff_exists.mp hc
    rw [ht, Server.visible, Server.update]
    simp only [if_pos, renews_heap, hcl]
    rfl
  have hvisNPCs : t.visibleNPCs c = s.npcs c := by
    obtain ⟨cl, hcl⟩ := Option.isSome_iff_exists.mp hc
    rw [ht, Server.visibleNPCs, Server.update]
    simp only [if_pos, renews_heap, hcl]
    rfl
  refine ⟨rfl, ?_, ?_, ?_⟩
  · rw [hvis, chars_eq hc]
  · rw [hvisNPCs, npcs_eq hc]
  · rw [hvis, hvisNPCs]
    have htrace : t.trace = (t.npcsShown J c (s.newNPCs c) ++ s.charsShown J c (s.newChars c)) ++
        s.trace := by
      rw [ht, List.append_assoc]
      rfl
    have hlength : t.npcList.length = s.npcList.length := by
      rw [ht]
      exact renews_length s J.now _
    have hshown : (t.npcsShown J c (s.newNPCs c) ++ s.charsShown J c (s.newChars c)).filter
        Event.isSpawn = ((s.newNPCs c).map fun i => Event.spawnNPC c i (t.npcId i)).reverse ++
          ((s.newChars c).map (.spawnChar c)).reverse := by
      rw [List.filter_append, npcsShown_spawns, charsShown_spawns]
      · exact fun p hp => live_of_shows (List.mem_filter.mp (mem_newChars.mp hp).1).2
      · intro i hi
        rw [hlength]
        exact lt_of_showsNPC (List.mem_filter.mp (mem_newNPCs.mp hi).1).2
    have hcount := count_shown ((hnodup.filter _).filter _)
      ((List.nodup_range.filter _).filter _) hshown
    refine ⟨_, htrace, rfl, fun p => ?_, fun i => ?_⟩
    · rw [hcount.1 p]
      exact if_congr mem_newChars rfl rfl
    · rw [hcount.2 i]
      exact if_congr mem_newNPCs rfl rfl

/-! ## Looks return -/

theorem byteRun_inBounds {k m : Nat} (h : k + m ≤ 65355) :
    ∀ w ∈ (List.range m).map fun i : Nat => addByte 0xcc ((k : Int) + i), w.inBounds = true := by
  intro w hw
  obtain ⟨i, hi, rfl⟩ := List.mem_map.mp hw
  have hi := List.mem_range.mp hi
  simp only [Write.inBounds, addByte, leBytes_length, decide_eq_true_eq]
  omega

theorem itemRun_inBounds (items : Nat → CItem) :
    ∀ w ∈ (List.range 15).map fun i : Nat => addWord (items i).itemid (2 * i + 36),
      w.inBounds = true := by
  intro w hw
  obtain ⟨i, hi, rfl⟩ := List.mem_map.mp hw
  have hi := List.mem_range.mp hi
  simp only [Write.inBounds, addWord, leBytes_length, decide_eq_true_eq]
  omega

theorem spawnCharFields_inBounds {o : CConnClient} (h : o.playerInfo.charName.length ≤ 65337) :
    ∀ w ∈ spawnCharFields J o, w.inBounds = true := by
  have h18 := byteRun_inBounds (show 18 + 12 ≤ 65355 by decide)
  have h147 := byteRun_inBounds (show 147 + 29 ≤ 65355 by decide)
  unfold spawnCharFields
  simp only [List.forall_mem_append]
  refine ⟨⟨⟨⟨⟨⟨?_, h18⟩, ?_⟩, itemRun_inBounds _⟩, ?_⟩, h147⟩, ?_⟩
  · simp [Write.inBounds, addWord]
  · simp [Write.inBounds, addByte, addStr]
    omega
  · simp [Write.inBounds, addWord, addByte]
  · simp [Write.inBounds, addByte]

theorem spawnNPCFields_inBounds {n : CNPC} (h : n.npcname.length ≤ 65337) :
    ∀ w ∈ spawnNPCFields J n, w.inBounds = true := by
  have h18 := byteRun_inBounds (show 18 + 12 ≤ 65355 by decide)
  have h147 := byteRun_inBounds (show 147 + 29 ≤ 65355 by decide)
  unfold spawnNPCFields
  simp only [List.forall_mem_append]
  refine ⟨⟨⟨⟨⟨⟨⟨⟨?_, h18⟩, ?_⟩, ?_⟩, ?_⟩, itemRun_inBounds _⟩, ?_⟩, h147⟩, ?_⟩
  · simp [Write.inBounds, addWord]
  · simp [Write.inBounds, addStr]
    omega
  · split <;> simp [Write.inBounds, addByte]
  · simp [Write.inBounds, addWord]
  · simp [Write.inBounds, addWord, addByte]
  · simp [Write.inBounds, addByte]

theorem spawnChar_apply {o : CConnClient} (hc : (s.heap c).isSome) (ho : s.heap p = some o)
    (hfit : o.playerInfo.charName.length ≤ 65337) :
    ∃ D tr, spawnChar J c p s = .ok true { s with packet := D, trace := tr } := by
  let s1 : Server := { s with packet := fun _ => 0 }
  let s2 : Server := { s with packet := stores (spawnCharFields J o) fun _ => 0 }
  obtain ⟨this, hthis⟩ := Option.isSome_iff_exists.mp hc
  have hclient : client p s = .ok o s := client_of_some ho
  have hfree : packetFree s = .ok () s1 := rfl
  have hwrites : writes (spawnCharFields J o) s1 = .ok () s2 :=
    writes_apply (spawnCharFields_inBounds hfit) s1
  have hsend : sendPacket c 172 s2 = .ok () (s2.sent c 172) := sendPacket_of_some (s := s2) hthis 172
  refine ⟨s2.packet, .spawnChar c p :: (s2.sent c 172).trace, ?_⟩
  rw [spawnChar, bind_ok hclient, bind_ok hfree]
  refine (bind_ok hwrites).trans ?_
  rw [bind_ok hsend]
  rfl

theorem getNewMobID_apply (s : Server) (i : Nat) : ∃ id t, getNewMobID J s = .ok id t ∧
    { t with npcList := t.npcList.modify i fun n => { n with clientid := u16 id } } =
      s.renew J.now i := by
  cases h : getNewMobID J s with
  | ok id t => exact ⟨id, t, rfl, getNewMobID_renew h⟩
  | error e t =>
    unfold getNewMobID getNewID at h
    split at h <;> cases h

theorem spawnNPC_apply {n : CNPC} (hc : (s.heap c).isSome) (hn : s.npcList[i]? = some n)
    (hfit : n.npcname.length ≤ 65337) :
    ∃ D tr, spawnNPC J c i s = .ok true { s.renew J.now i with packet := D, trace := tr } := by
  obtain ⟨this, hthis⟩ := Option.isSome_iff_exists.mp hc
  obtain ⟨id, s1, hid, hrenew⟩ := getNewMobID_apply (J := J) s i
  obtain ⟨n', hn', hname⟩ : ∃ n', (s.renew J.now i).npcList[i]? = some n' ∧
      n'.npcname = n.npcname := by
    obtain ⟨id, h⟩ := npcList_renew_getElem? s J.now i i
    rw [hn] at h
    exact ⟨_, h, by simp⟩
  let s2 := s.renew J.now i
  let s3 : Server := { s2 with packet := fun _ => 0 }
  let s4 : Server := { s2 with packet := stores (spawnNPCFields J n') fun _ => 0 }
  have hset : (modify fun u => { u with
      npcList := u.npcList.modify i fun n => { n with clientid := u16 id } } : M Unit) s1 =
        .ok () s2 := congrArg (EStateM.Result.ok ()) hrenew
  have hfree : packetFree s2 = .ok () s3 := rfl
  have hget : (get : M Server) s3 = .ok s3 s3 := rfl
  have hwrites : writes (spawnNPCFields J n') s3 = .ok () s4 :=
    writes_apply (spawnNPCFields_inBounds (hname ▸ hfit)) s3
  have hlive : s4.heap c = some this := by
    show (s.renew J.now i).heap c = _
    rw [renew_heap, hthis]
  have hsend : sendPacket c 172 s4 = .ok () (s4.sent c 172) := sendPacket_of_some hlive 172
  refine ⟨s4.packet, .spawnNPC c i n'.clientid :: (s4.sent c 172).trace, ?_⟩
  rw [spawnNPC, bind_ok hid, bind_ok hset, bind_ok hfree, bind_ok hget]
  simp only [show s3.npcList[i]? = some n' from hn']
  refine (bind_ok hwrites).trans ?_
  rw [bind_ok hsend]
  rfl

/-- Every client that comes into sight has a name that fits. -/
theorem visiblityClients_apply {this : CConnClient} (hc : s.heap c = some this)
    (hps : ∀ p ∈ ps, (s.heap p).isSome)
    (hfit : ∀ p ∈ ps, s.shows c p = true → p ∉ s.visible c → ∀ o ∈ s.heap p,
      o.playerInfo.charName.length ≤ 65337) :
    ∃ new D tr, visiblityClients J c this.visibleClients ps s =
      .ok new { s with packet := D, trace := tr } := by
  induction ps generalizing s with
  | nil => exact ⟨[], s.packet, s.trace, rfl⟩
  | cons p ps ih =>
    obtain ⟨hp, hps⟩ := List.forall_mem_cons.mp hps
    obtain ⟨hfitp, hfit⟩ := List.forall_mem_cons.mp hfit
    obtain ⟨o, ho⟩ := Option.isSome_iff_exists.mp hp
    have hthis : client c s = .ok this s := client_of_some hc
    have hother : client p s = .ok o s := client_of_some ho
    rw [visiblityClients, bind_ok hthis, bind_ok hother]
    split
    · exact ih hc hps hfit
    next hcond =>
    dsimp only
    split
    · split
      · obtain ⟨new, D, tr, hnew⟩ := ih hc hps hfit
        exact ⟨p :: new, D, tr, bind_ok hnew⟩
      · exact ih hc hps hfit
    · next hseen =>
      split
      · next hd =>
        have hshows : s.shows c p = true := by
          rw [not_or, not_not] at hcond
          rw [Server.shows, hc, ho]
          simp [hcond.1, hcond.2, hd.1, hd.2, latch, hseen]
        obtain ⟨D, tr, hspawn⟩ := spawnChar_apply (J := J) (c := c) (s := s) (p := p)
          (by rw [hc]; rfl) ho (hfitp hshows (by rw [visible_of_some hc]; exact hseen) o ho)
        obtain ⟨new, D', tr', hnew⟩ :=
          ih (s := { s with packet := D, trace := tr }) hc hps hfit
        refine ⟨p :: new, D', tr', ?_⟩
        rw [bind_ok hspawn]
        exact bind_ok hnew
      · exact ih hc hps hfit

/-- Every NPC that comes into sight has a name that fits. -/
theorem visiblityNPCs_apply {this : CConnClient} {is : List Nat} (hc : s.heap c = some this)
    (hin : ∀ i ∈ is, i < s.npcList.length)
    (hfit : ∀ i ∈ is, s.showsNPC c i = true → i ∉ s.visibleNPCs c → ∀ n ∈ s.npcList[i]?,
      n.npcname.length ≤ 65337) :
    ∃ new t, visiblityNPCs J c this.visibleNPCs is s = .ok new t := by
  induction is generalizing s with
  | nil => exact ⟨[], s, rfl⟩
  | cons i is ih =>
    obtain ⟨hi, hin⟩ := List.forall_mem_cons.mp hin
    obtain ⟨hfiti, hfit⟩ := List.forall_mem_cons.mp hfit
    obtain ⟨n, hn⟩ : ∃ n, s.npcList[i]? = some n := ⟨_, List.getElem?_eq_getElem hi⟩
    have hthis : client c s = .ok this s := client_of_some hc
    have hget : (get : M Server) s = .ok s s := rfl
    rw [visiblityNPCs, bind_ok hthis, bind_ok hget]
    simp only [hn]
    split
    · split
      · obtain ⟨new, t, hnew⟩ := ih hc hin hfit
        exact ⟨i :: new, t, bind_ok hnew⟩
      · exact ih hc hin hfit
    · next hseen =>
      split
      · next hd =>
        have hshows : s.showsNPC c i = true := by
          rw [Server.showsNPC, hc, hn]
          simp [hd, latch, hseen]
        obtain ⟨D, tr, hspawn⟩ := spawnNPC_apply (J := J) (c := c) (s := s) (i := i)
          (by rw [hc]; rfl) hn (hfiti hshows (by rw [visibleNPCs_of_some hc]; exact hseen) n hn)
        -- a new id changes no name and no place
        let u : Server := { s.renew J.now i with packet := D, trace := tr }
        have hu : u.heap = s.heap := renew_heap s J.now i
        have hplaces : u.showsNPC = s.showsNPC := showsNPC_renew s J.now i
        have hvisible : u.visibleNPCs = s.visibleNPCs := by
          funext p
          rw [Server.visibleNPCs, hu, Server.visibleNPCs]
        have hlength : u.npcList.length = s.npcList.length := renew_length s J.now i
        obtain ⟨new, t, hnew⟩ := ih (s := u) (hu ▸ hc) (fun k hk => hlength ▸ hin k hk)
          fun k hk hsk hvk m hm => by
            rw [hplaces] at hsk
            rw [hvisible] at hvk
            obtain ⟨id, hid⟩ := npcList_renew_getElem? s J.now i k
            have hm : (s.renew J.now i).npcList[k]? = some m := hm
            rw [hid] at hm
            obtain ⟨m', hm', rfl⟩ := Option.map_eq_some_iff.mp hm
            have hname := hfit k hk hsk hvk m' hm'
            split <;> exact hname
        refine ⟨i :: new, t, ?_⟩
        rw [bind_ok hspawn]
        exact bind_ok hnew
      · exact ih hc hin hfit

/-- A look that finds no name too long returns. -/
theorem visiblityList_apply (hc : (s.heap c).isSome)
    (hlive : ∀ p ∈ s.clientList, (s.heap p).isSome)
    (hchars : ∀ p ∈ s.newChars c, ∀ o ∈ s.heap p, o.playerInfo.charName.length ≤ 65337)
    (hnpcs : ∀ i ∈ s.newNPCs c, ∀ n ∈ s.npcList[i]?, n.npcname.length ≤ 65337) :
    ∃ t, visiblityList J c s = .ok true t := by
  obtain ⟨this, hthis⟩ := Option.isSome_iff_exists.mp hc
  have hclient : client c s = .ok this s := client_of_some hthis
  have hget : (get : M Server) s = .ok s s := rfl
  obtain ⟨new, D, tr, hnew⟩ := visiblityClients_apply (J := J) hthis hlive fun p hp hs hv =>
    hchars p (mem_newChars.mpr ⟨List.mem_filter.mpr ⟨hp, hs⟩, hv⟩)
  let u : Server := { s with packet := D, trace := tr }
  obtain ⟨newNPCs, t, hnewNPCs⟩ := visiblityNPCs_apply (J := J) (s := u)
    hthis (fun i hi => List.mem_range.mp hi)
    fun i hi hs hv => hnpcs i (mem_newNPCs.mpr ⟨List.mem_filter.mpr ⟨hi, hs⟩, hv⟩)
  refine ⟨t.update c fun cl => { cl with visibleClients := new, visibleNPCs := newNPCs }, ?_⟩
  rw [visiblityList, bind_ok hclient, bind_ok hget, bind_ok hnew]
  exact bind_ok hnewNPCs

/-- A look around does what it has to, and it returns where the names fit. -/
theorem visiblityList_looked (hnodup : s.clientList.Nodup) :
    (∀ b t, visiblityList J c s = .ok b t → b = true ∧ Looked J c s t) ∧
      ((∀ p ∈ c :: s.clientList, (s.heap p).isSome) → NamesFit s →
        ∃ t, visiblityList J c s = .ok true t) := by
  refine ⟨fun b t h => visiblityList_looked_ok hnodup h, fun hlive hfit => ?_⟩
  obtain ⟨hc, hlive⟩ := List.forall_mem_cons.mp hlive
  refine visiblityList_apply hc hlive (fun p hp => ?_) fun i _ n hn =>
    hfit.npcs n (List.mem_of_getElem? hn)
  exact hfit.clients p (List.mem_of_mem_filter (mem_newChars.mp hp).1)

/-- Three clients in a row, of which the first has seen the third before, and two NPCs. -/
def threeInARow : Server :=
  let player (x : ℚ) (seen : List Ptr) : CConnClient := {
    playerSession := { inGame := true, isLoggedIn := true }
    playerPosition := { current := ⟨x, 0⟩ }
    ready := true
    visibleClients := seen
    recvpkts := 0
    items := fun _ => {} }
  let npc (y : ℚ) : CNPC := ⟨0, ⟨0, y⟩, [], fun _ => {}, fun _ => {}, 0, 0, 0, 0, 0, 0, 0⟩
  { Server.start (Db.empty schema) with
    heap := fun p => [player 0 [2], player 29 [], player 49 [0]][p]?
    nextPtr := 3
    clientList := [0, 1, 2]
    npcList := [npc 30, npc 29] }

theorem visiblityList_looked_three : ∃ t, visiblityList {} 0 threeInARow = .ok true t ∧
    Looked {} 0 threeInARow t ∧ t.visible 0 = [1, 2] ∧ t.visibleNPCs 0 = [1] := by
  have hlook := visiblityList_looked (J := {}) (c := 0) (s := threeInARow) (by decide)
  obtain ⟨t, ht⟩ := hlook.2 (by decide) ⟨by decide, by decide⟩
  have hlooked := (hlook.1 true t ht).2
  exact ⟨t, ht, hlooked, hlooked.clients.trans (by decide +kernel),
    hlooked.npcs.trans (by decide +kernel)⟩

/-! ## A pass -/

/-- The loop over the clients in `VisibilityProcess`, which skips who is not in the world. Each
look has its own junk. -/
def visibilityLoop (J : Ptr → Junk) : List Ptr → M Unit
  | [] => return ()
  | p :: ps => do
    let thisclient ← client p
    if ¬ thisclient.ready then visibilityLoop J ps
    else if ¬ thisclient.playerSession.inGame ∨ ¬ thisclient.playerSession.isLoggedIn then
      visibilityLoop J ps
    else do
      let _ ← visiblityList (J p) p
      visibilityLoop J ps

/-- One round of `VisibilityProcess`. -/
def visibilityPass (J : Ptr → Junk) : M Unit := do
  let s ← get
  visibilityLoop J s.clientList

/-- A client that the pass does not skip and that others can see. -/
def Awake (s : Server) (p : Ptr) : Prop := ∃ cl, s.heap p = some cl ∧ cl.ready = true ∧
  cl.playerSession.isLoggedIn = true ∧ cl.playerSession.inGame = true ∧ cl.isInvisibleMode = false

/-- Clients see each other or not at all. -/
def SeesBack (s : Server) : Prop :=
  ∀ x ∈ s.clientList, ∀ y ∈ s.clientList, y ∈ s.visible x ↔ x ∈ s.visible y

/-- A client after a look. -/
def Server.looking (s : Server) (p : Ptr) : Option CConnClient :=
  (s.heap p).map fun cl => { cl with visibleClients := s.chars p, visibleNPCs := s.npcs p }

/-- An NPC without its id. -/
def CNPC.body (n : CNPC) : CNPC := { n with clientid := 0 }

/-- The looks of the clients `ps`, all taken in the state `s`. -/
structure Passed (ps : List Ptr) (s t : Server) : Prop where
  list : t.clientList = s.clientList
  npcs : t.npcList.map CNPC.body = s.npcList.map CNPC.body
  heap : ∀ p, t.heap p = if p ∈ ps then s.looking p else s.heap p

variable {J J' : Ptr → Junk} {ps : List Ptr} {s t u : Server} {c p x y : Ptr} {i : Nat}

theorem Awake.live (h : Awake s p) : (s.heap p).isSome := by
  obtain ⟨cl, hcl, -⟩ := h
  rw [hcl]
  rfl

theorem Awake.inWorld (h : Awake s p) : s.inWorld p = true := by
  obtain ⟨cl, hcl, -, -, hin, -⟩ := h
  rw [Server.inWorld, Server.session, hcl]
  exact hin

theorem Awake.visible (h : Awake s p) : s.invisible p = false := by
  obtain ⟨cl, hcl, -, -, -, hinv⟩ := h
  rw [Server.invisible, hcl]
  exact hinv

theorem Awake.of_heap (h : Awake s p) (hp : t.heap p = s.heap p) : Awake t p := by
  unfold Awake
  rw [hp]
  exact h

theorem bodies_renews (s : Server) (now : Int) (l : List Nat) :
    (s.renews now l).npcList.map CNPC.body = s.npcList.map CNPC.body := by
  induction l generalizing s with
  | nil => rfl
  | cons i l ih =>
    refine (ih (s.renew now i)).trans ?_
    obtain ⟨id, h⟩ := renew_npcList s now i
    rw [h]
    refine List.ext_getElem? fun k => ?_
    rw [List.getElem?_map, List.getElem?_map, List.getElem?_modify]
    cases s.npcList[k]? with
    | none => rfl
    | some n => by_cases hk : i = k <;> simp [hk, CNPC.body]

namespace Passed

theorem looked (h : Passed ps s t) (hp : p ∈ ps) : t.heap p = s.looking p := by
  rw [h.heap, if_pos hp]

theorem unlooked (h : Passed ps s t) (hp : p ∉ ps) : t.heap p = s.heap p := by
  rw [h.heap, if_neg hp]

/-- But for the lists, no client changes. -/
theorem place (h : Passed ps s t) (p : Ptr) : t.place p = s.place p := by
  rw [Server.place, h.heap]
  split
  · rw [Server.looking, Option.map_map]
    rfl
  · rfl

theorem inWorld (h : Passed ps s t) (p : Ptr) : t.inWorld p = s.inWorld p := by
  rw [Server.inWorld, Server.session, h.heap]
  split
  · rw [Server.looking, Option.map_map, Server.inWorld, Server.session]
    cases s.heap p <;> rfl
  · rfl

theorem invisible (h : Passed ps s t) (p : Ptr) : t.invisible p = s.invisible p := by
  rw [Server.invisible, h.heap]
  split
  · rw [Server.looking, Option.map_map]
    rfl
  · rfl

theorem live (h : Passed ps s t) (p : Ptr) : (t.heap p).isSome = (s.heap p).isSome := by
  rw [h.heap]
  split
  · exact Option.isSome_map
  · rfl

theorem length (h : Passed ps s t) : t.npcList.length = s.npcList.length := by
  have hlength := congrArg List.length h.npcs
  rwa [List.length_map, List.length_map] at hlength

theorem npc (h : Passed ps s t) (i : Nat) :
    (t.npcList[i]?).map CNPC.body = (s.npcList[i]?).map CNPC.body := by
  rw [← List.getElem?_map, h.npcs, List.getElem?_map]

theorem npcPlace (h : Passed ps s t) (i : Nat) : t.npcPlace i = s.npcPlace i := by
  have hbody := congrArg (fun o => (o.map CNPC.pos).getD ⟨0, 0⟩) (h.npc i)
  rw [Option.map_map, Option.map_map] at hbody
  exact hbody

/-- What a client sees in a look of its own does not depend on who has looked before. -/
theorem chars_eq (h : Passed ps s t) (hlive : (s.heap p).isSome) (hp : p ∉ ps) :
    t.chars p = s.chars p := by
  have ht : (t.heap p).isSome := by rw [h.live, hlive]
  have hvis : t.visible p = s.visible p := by
    rw [Server.visible, h.unlooked hp]
    rfl
  rw [Destiny.chars_eq ht, Destiny.chars_eq hlive, h.list]
  refine List.filter_congr fun q _ => decide_eq_decide.mpr ?_
  rw [InSight, h.inWorld, h.invisible, h.place, h.place, hvis, InSight]

theorem npcs_eq (h : Passed ps s t) (hlive : (s.heap p).isSome) (hp : p ∉ ps) :
    t.npcs p = s.npcs p := by
  have ht : (t.heap p).isSome := by rw [h.live, hlive]
  have hvis : t.visibleNPCs p = s.visibleNPCs p := by
    rw [Server.visibleNPCs, h.unlooked hp]
    rfl
  rw [Destiny.npcs_eq ht, Destiny.npcs_eq hlive, h.length]
  refine List.filter_congr fun i _ => decide_eq_decide.mpr ?_
  rw [NpcInSight, h.npcPlace, h.place, hvis, NpcInSight]

theorem looking_eq (h : Passed ps s t) (hp : p ∉ ps) : t.looking p = s.looking p := by
  rw [Server.looking, h.unlooked hp, Server.looking]
  cases hcl : s.heap p with
  | none => rfl
  | some cl =>
    have hlive : (s.heap p).isSome := by rw [hcl]; rfl
    rw [h.chars_eq hlive hp, h.npcs_eq hlive hp]

theorem cons (h : Passed [p] s t) (h' : Passed ps t u) (hp : p ∉ ps) : Passed (p :: ps) s u := by
  refine ⟨h'.list.trans h.list, h'.npcs.trans h.npcs, fun q => ?_⟩
  by_cases hqp : q = p
  · subst hqp
    rw [h'.unlooked hp, h.looked List.mem_cons_self, if_pos List.mem_cons_self]
  have hq : q ∉ [p] := mt List.mem_singleton.mp hqp
  by_cases hqs : q ∈ ps
  · rw [h'.looked hqs, h.looking_eq hq, if_pos (List.mem_cons_of_mem p hqs)]
  · rw [h'.unlooked hqs, h.unlooked hq, if_neg (by rw [List.mem_cons, not_or]; exact ⟨hqp, hqs⟩)]

end Passed

/-- One look is a pass over one client. -/
theorem visiblityList_passed {J : Junk} {b : Bool} (h : visiblityList J c s = .ok b t) :
    Passed [c] s t := by
  obtain ⟨-, -, D, rfl⟩ := visiblityList_shows h
  refine ⟨renews_list s J.now _, bodies_renews s J.now _, fun p => ?_⟩
  show (if p = c then ((s.renews J.now _).heap p).map _ else (s.renews J.now _).heap p) = _
  rw [renews_heap]
  by_cases hp : p = c
  · subst hp
    rw [if_pos rfl, if_pos (List.mem_singleton.mpr rfl)]
    rfl
  · rw [if_neg hp, if_neg (mt List.mem_singleton.mp hp)]

/-- A pass does not skip a client in the world. -/
theorem visibilityLoop_cons (h : Awake s p) : visibilityLoop J (p :: ps) s =
    (visiblityList (J p) p >>= fun _ => visibilityLoop J ps) s := by
  obtain ⟨cl, hcl, hready, hlogged, hin, -⟩ := h
  have hclient : client p s = .ok cl s := client_of_some hcl
  rw [visibilityLoop, bind_ok hclient, if_neg (not_not.mpr hready), if_neg]
  simp [hlogged, hin]

theorem visibilityLoop_passed (hnodup : ps.Nodup) (hawake : ∀ p ∈ ps, Awake s p)
    (h : visibilityLoop J ps s = .ok () t) : Passed ps s t := by
  induction ps generalizing s with
  | nil =>
    cases h
    exact ⟨rfl, rfl, fun p => rfl⟩
  | cons p ps ih =>
    obtain ⟨hp, hnodup⟩ := List.nodup_cons.mp hnodup
    obtain ⟨hawakep, hawake⟩ := List.forall_mem_cons.mp hawake
    rw [visibilityLoop_cons hawakep] at h
    obtain ⟨b, u, hu, h⟩ := of_bind_ok h
    have hlook := visiblityList_passed hu
    refine hlook.cons (ih hnodup (fun q hq => ?_) h) hp
    refine (hawake q hq).of_heap (hlook.unlooked fun hmem => ?_)
    rw [List.mem_singleton] at hmem
    exact hp (hmem ▸ hq)

/-! ## A pass returns -/

theorem NamesFit.passed (h : NamesFit s) (hp : Passed ps s t) : NamesFit t := by
  refine ⟨fun p hpl o ho => ?_, fun n hn => ?_⟩
  · rw [hp.list] at hpl
    rw [hp.heap] at ho
    split at ho
    · obtain ⟨o', ho', rfl⟩ := Option.map_eq_some_iff.mp ho
      exact h.clients p hpl o' ho'
    · exact h.clients p hpl o ho
  · have hmem : n.body ∈ s.npcList.map CNPC.body := hp.npcs ▸ List.mem_map_of_mem hn
    obtain ⟨m, hm, hbody⟩ := List.mem_map.mp hmem
    have hname : m.npcname = n.npcname := by
      show m.body.npcname = n.body.npcname
      rw [hbody]
    exact hname ▸ h.npcs m hm

theorem visibilityLoop_apply (hlive : ∀ p ∈ s.clientList, (s.heap p).isSome)
    (hnodup : ps.Nodup) (hawake : ∀ p ∈ ps, Awake s p) (hfit : NamesFit s) :
    ∃ t, visibilityLoop J ps s = .ok () t := by
  induction ps generalizing s with
  | nil => exact ⟨s, rfl⟩
  | cons p ps ih =>
    obtain ⟨hp, hnodup⟩ := List.nodup_cons.mp hnodup
    obtain ⟨hawakep, hawake⟩ := List.forall_mem_cons.mp hawake
    obtain ⟨u, hu⟩ := visiblityList_apply (J := J p) hawakep.live hlive
      (fun q hq => hfit.clients q (List.mem_of_mem_filter (mem_newChars.mp hq).1))
      fun i _ n hn => hfit.npcs n (List.mem_of_getElem? hn)
    have hlook := visiblityList_passed hu
    obtain ⟨t, ht⟩ := ih (s := u) (fun q hq => by rw [hlook.live]; exact hlive q (hlook.list ▸ hq))
      hnodup (fun q hq => (hawake q hq).of_heap (hlook.unlooked fun hmem => by
        rw [List.mem_singleton] at hmem
        exact hp (hmem ▸ hq))) (hfit.passed hlook)
    rw [visibilityLoop_cons hawakep]
    exact ⟨t, (bind_ok hu).trans ht⟩

/-! ## A pass that finds nothing new -/

/-- The lists of `c` hold what it can see. -/
def UpToDate (s : Server) (c : Ptr) : Prop := s.chars c = s.visible c ∧ s.npcs c = s.visibleNPCs c

/-- A look that finds nothing new changes nothing and sends nothing. -/
theorem visiblityList_still {J : Junk} (hc : (s.heap c).isSome)
    (hlive : ∀ p ∈ s.clientList, (s.heap p).isSome) (h : UpToDate s c) :
    ∃ D, visiblityList J c s = .ok true { s with packet := D } := by
  have hchars : s.newChars c = [] := by
    rw [Server.newChars, h.1, List.filter_eq_nil_iff]
    exact fun p hp => by simpa using hp
  have hnpcs : s.newNPCs c = [] := by
    rw [Server.newNPCs, h.2, List.filter_eq_nil_iff]
    exact fun i hi => by simpa using hi
  obtain ⟨t, ht⟩ := visiblityList_apply (J := J) hc hlive
    (fun p hp => absurd (hchars ▸ hp) List.not_mem_nil)
    fun i hi => absurd (hnpcs ▸ hi) List.not_mem_nil
  obtain ⟨-, -, D, rfl⟩ := visiblityList_shows ht
  refine ⟨D, ht.trans ?_⟩
  obtain ⟨cl, hcl⟩ := Option.isSome_iff_exists.mp hc
  have hlists : { cl with visibleClients := s.chars c, visibleNPCs := s.npcs c } = cl := by
    rw [h.1, h.2, visible_of_some hcl, visibleNPCs_of_some hcl]
  have hheap : (fun p => if p = c then (s.heap p).map fun cl => { cl with
      visibleClients := s.chars c, visibleNPCs := s.npcs c } else s.heap p) = s.heap := by
    funext p
    split
    · next hp => rw [hp, hcl, Option.map_some, hlists]
    · rfl
  rw [hnpcs, hchars]
  exact congrArg (fun f => EStateM.Result.ok true { s with packet := D, heap := f }) hheap

theorem visibilityLoop_still (hlive : ∀ p ∈ s.clientList, (s.heap p).isSome)
    (hawake : ∀ p ∈ ps, Awake s p) (h : ∀ p ∈ ps, UpToDate s p) :
    ∃ D, visibilityLoop J ps s = .ok () { s with packet := D } := by
  induction ps generalizing s with
  | nil => exact ⟨s.packet, rfl⟩
  | cons p ps ih =>
    obtain ⟨hawakep, hawake⟩ := List.forall_mem_cons.mp hawake
    obtain ⟨hp, h⟩ := List.forall_mem_cons.mp h
    obtain ⟨D, hD⟩ := visiblityList_still (J := J p) hawakep.live hlive hp
    obtain ⟨D', hD'⟩ := ih (s := { s with packet := D }) hlive hawake h
    rw [visibilityLoop_cons hawakep]
    exact ⟨D', (bind_ok hD).trans hD'⟩

/-! ## Two passes -/

/-- Whom a client in the world sees after a pass. -/
theorem Passed.mem_visible (h : Passed ps s t) (hx : x ∈ ps) (hlive : (s.heap x).isSome) :
    y ∈ t.visible x ↔ y ∈ s.clientList ∧ InSight s x y := by
  obtain ⟨cl, hcl⟩ := Option.isSome_iff_exists.mp hlive
  rw [Server.visible, h.looked hx, Server.looking, hcl, Option.map_some]
  show y ∈ s.chars x ↔ _
  rw [Destiny.chars_eq hlive, List.mem_filter, decide_eq_true_eq]

theorem Passed.mem_visibleNPCs (h : Passed ps s t) (hx : x ∈ ps) (hlive : (s.heap x).isSome) :
    i ∈ t.visibleNPCs x ↔ i < s.npcList.length ∧ NpcInSight s x i := by
  obtain ⟨cl, hcl⟩ := Option.isSome_iff_exists.mp hlive
  rw [Server.visibleNPCs, h.looked hx, Server.looking, hcl, Option.map_some]
  show i ∈ s.npcs x ↔ _
  rw [Destiny.npcs_eq hlive, List.mem_filter, List.mem_range, decide_eq_true_eq]

theorem inSight_awake (h : Awake s y) (hxy : x ≠ y) : InSight s x y ↔
    distSq (s.place x) (s.place y) < if y ∈ s.visible x then 50 ^ 2 else 30 ^ 2 :=
  ⟨fun hin => hin.2.2.2, fun hd => ⟨hxy, h.inWorld, h.visible, hd⟩⟩

/-- Who is seen is so close that he stays in sight, and who is not is too far to come into it. -/
theorem near_settled {d : ℚ} {seen sees : Prop} [Decidable seen] [Decidable sees]
    (h : sees ↔ d < if seen then 50 ^ 2 else 30 ^ 2) :
    (d < if sees then 50 ^ 2 else 30 ^ 2) ↔ sees := by
  by_cases hsees : sees
  · refine iff_of_true ?_ hsees
    have hd := h.mp hsees
    rw [if_pos hsees]
    split at hd
    · exact hd
    · exact hd.trans (by norm_num)
  · refine iff_of_false (fun hd => hsees (h.mpr ?_)) hsees
    rw [if_neg hsees] at hd
    split
    · exact hd.trans (by norm_num)
    · exact hd

theorem Passed.upToDate (h : Passed s.clientList s t) (hawake : ∀ p ∈ s.clientList, Awake s p)
    (hx : x ∈ s.clientList) : UpToDate t x := by
  have hlive := (hawake x hx).live
  have ht : (t.heap x).isSome := by rw [h.live, hlive]
  obtain ⟨cl, hcl⟩ := Option.isSome_iff_exists.mp hlive
  have hvis : t.visible x = s.chars x := by
    rw [Server.visible, h.looked hx, Server.looking, hcl]
    rfl
  have hvisNPCs : t.visibleNPCs x = s.npcs x := by
    rw [Server.visibleNPCs, h.looked hx, Server.looking, hcl]
    rfl
  refine ⟨?_, ?_⟩
  · rw [hvis, Destiny.chars_eq ht, Destiny.chars_eq hlive, h.list]
    refine List.filter_congr fun y hy => decide_eq_decide.mpr ?_
    have hmem : y ∈ t.visible x ↔ InSight s x y :=
      (h.mem_visible hx hlive).trans (and_iff_right hy)
    by_cases hxy : x = y
    · exact iff_of_false (fun h => h.1 hxy) fun h => h.1 hxy
    have hsees := inSight_awake (hawake y hy) hxy
    rw [InSight, h.inWorld, h.invisible, h.place, h.place, (hawake y hy).inWorld,
      (hawake y hy).visible, if_congr hmem rfl rfl, near_settled hsees]
    exact ⟨fun h => h.2.2.2, fun h => ⟨hxy, rfl, rfl, h⟩⟩
  · rw [hvisNPCs, Destiny.npcs_eq ht, Destiny.npcs_eq hlive, h.length]
    refine List.filter_congr fun i hi => decide_eq_decide.mpr ?_
    have hmem : i ∈ t.visibleNPCs x ↔ NpcInSight s x i :=
      (h.mem_visibleNPCs hx hlive).trans (and_iff_right (List.mem_range.mp hi))
    rw [NpcInSight, h.place, h.npcPlace, if_congr hmem rfl rfl]
    exact near_settled Iff.rfl

/-- After a pass, nobody having moved, clients that saw each other or not at all do so still, those
closer than 30 see each other, and those at 50 or more do not; and a second pass changes nothing
and sends nothing. -/
structure Settles (s t : Server) : Prop where
  list : t.clientList = s.clientList
  place : t.place = s.place
  symm : SeesBack s → SeesBack t
  near : ∀ x ∈ t.clientList, ∀ y ∈ t.clientList, x ≠ y →
    distSq (s.place x) (s.place y) < 30 ^ 2 → y ∈ t.visible x
  far : ∀ x ∈ t.clientList, ∀ y ∈ t.clientList, 50 ^ 2 ≤ distSq (s.place x) (s.place y) →
    y ∉ t.visible x
  still : ∀ J, ∃ D, visibilityPass J t = .ok () { t with packet := D }

theorem Passed.settles (h : Passed s.clientList s t) (hawake : ∀ p ∈ s.clientList, Awake s p) :
    Settles s t := by
  have hlist := h.list
  have hmem : ∀ x ∈ s.clientList, ∀ y ∈ s.clientList, y ∈ t.visible x ↔ InSight s x y :=
    fun x hx y hy => (h.mem_visible hx (hawake x hx).live).trans (and_iff_right hy)
  refine ⟨hlist, funext h.place, fun hback x hx y hy => ?_, fun x hx y hy hxy hd => ?_,
    fun x hx y hy hd hsees => ?_, fun J => ?_⟩
  · rw [hlist] at hx hy
    rw [hmem x hx y hy, hmem y hy x hx]
    by_cases hxy : x = y
    · rw [hxy]
    have hdist : distSq (s.place x) (s.place y) = distSq (s.place y) (s.place x) := by
      unfold distSq
      ring
    rw [inSight_awake (hawake y hy) hxy, inSight_awake (hawake x hx) (Ne.symm hxy), hdist,
      if_congr (hback x hx y hy) rfl rfl]
  · rw [hlist] at hx hy
    rw [hmem x hx y hy, inSight_awake (hawake y hy) hxy]
    split
    · exact hd.trans (by norm_num)
    · exact hd
  · rw [hlist] at hx hy
    have hclose := ((hmem x hx y hy).mp hsees).2.2.2
    refine absurd hclose (not_lt.mpr ?_)
    split
    · exact hd
    · exact le_trans (by norm_num) hd
  · have hget : (get : M Server) t = .ok t t := rfl
    have hawake' : ∀ p ∈ t.clientList, Awake t p := fun p hp => by
      obtain ⟨cl, hcl, hready, hlogged, hin, hinv⟩ := hawake p (hlist ▸ hp)
      refine ⟨{ cl with visibleClients := s.chars p, visibleNPCs := s.npcs p }, ?_, hready,
        hlogged, hin, hinv⟩
      rw [h.looked (hlist ▸ hp), Server.looking, hcl]
      rfl
    rw [visibilityPass, bind_ok hget]
    exact visibilityLoop_still (fun p hp => (hawake' p hp).live) hawake' fun p hp =>
      h.upToDate hawake (hlist ▸ hp)

/-- A pass over clients that are all in the world and visible settles what they see of each
other, and it returns where the names fit. -/
theorem visibilityPass_settles (hnodup : s.clientList.Nodup)
    (hawake : ∀ p ∈ s.clientList, Awake s p) :
    (∀ t, visibilityPass J s = .ok () t → Settles s t) ∧
      (NamesFit s → ∃ t, visibilityPass J s = .ok () t) :=
  ⟨fun _ h => (visibilityLoop_passed hnodup hawake h).settles hawake, fun hfit =>
    visibilityLoop_apply (fun p hp => (hawake p hp).live) hnodup hawake hfit⟩

theorem visibilityPass_settles_three : ∃ t,
    visibilityPass (fun _ => {}) threeInARow = .ok () t ∧ Settles threeInARow t ∧
      SeesBack t := by
  have hawake : ∀ p ∈ threeInARow.clientList, Awake threeInARow p := by
    intro p hp
    have hp : p ∈ [0, 1, 2] := hp
    simp only [List.mem_cons, List.not_mem_nil, or_false] at hp
    rcases hp with rfl | rfl | rfl <;> exact ⟨_, rfl, rfl, rfl, rfl, rfl⟩
  have hpass := visibilityPass_settles (J := fun _ => {}) (s := threeInARow) (by decide) hawake
  obtain ⟨t, ht⟩ := hpass.2 ⟨by decide, by decide⟩
  have hback : SeesBack threeInARow := by
    unfold SeesBack
    decide
  exact ⟨t, ht, hpass.1 t ht, (hpass.1 t ht).symm hback⟩

end Destiny
