import Destiny.NpcFile
import Destiny.Picture
import Destiny.SpawnIds
import Destiny.WorldIds
import Mathlib.Data.Set.Card

/-!
# The ids that NPCs are shown under

An NPC has one id, which is new each time that a client is shown it. The client is told of it in
the packet that shows the NPC, and names the NPC by it from then on; so it must still be the id of
that NPC, and of no NPC before it. `SendNPCSellItems` uses what it finds without looking.
-/

namespace Destiny

open Text Sql Prog

/-- The id that an event shows an NPC to `c` under. -/
def Event.npcIdFor (c : Ptr) (i : Nat) : Event → Option Nat
  | .spawnNPC d k id => if d = c ∧ k = i then some id else none
  | _ => none

/-- The id that `c` has been told last. -/
def Server.lastId (s : Server) (c : Ptr) (i : Nat) : Option Nat :=
  (s.trace.filterMap (Event.npcIdFor c i)).head?

/-- The index of the NPC that `GetNPCByID` returns. -/
def Server.indexByID (s : Server) (id : Nat) : Option Nat :=
  s.npcList.findIdx? fun n => n.clientid = id

/-- The id that a client has been told last for an NPC it sees finds that NPC. -/
def NpcsFound (s : Server) : Prop :=
  ∀ c ∈ s.clientList, ∀ i ∈ s.visibleNPCs c, (s.lastId c i).bind s.indexByID = some i

instance (s : Server) : Decidable (NpcsFound s) :=
  inferInstanceAs (Decidable (∀ c ∈ s.clientList, _))

/-- The id in a packet that asks for a shop. -/
def Packet.npcID (P : Packet) : Nat := ofLE ((P.mem.drop 12).take 2)

/-- What a look around newly shows is not shown to another client, no NPC before it has an id that
may be handed out, and there is an id for each. -/
def ShownAlone (s : Server) : Step → Prop
  | .visiblityList c J => c ∈ s.clientList →
    (∀ i ∈ s.newNPCs c, ∀ d ∈ s.clientList, d ≠ c → i ∉ s.visibleNPCs d) ∧
      (∀ i ∈ s.newNPCs c, ∀ k, k < i → k ∉ s.newNPCs c → s.npcId k ∉ s.freeIDs J.now 2000) ∧
      (s.newNPCs c).length ≤ (s.freeIDs J.now 2000).ncard
  | .addUser _ | .disconnectClient _ | .packet .. => True

/-- The NPCs that clients see have taken ids, which the clients know, and no NPC before one of them
has its id. -/
structure OwnIds (s : Server) : Prop where
  told : ∀ c ∈ s.clientList, ∀ i ∈ s.visibleNPCs c, s.lastId c i = some (s.npcId i)
  inside : ∀ c ∈ s.clientList, ∀ i ∈ s.visibleNPCs c, i < s.npcList.length
  taken : ∀ c ∈ s.clientList, ∀ i ∈ s.visibleNPCs c, s.clientIDList (s.npcId i) = 0
  first : ∀ c ∈ s.clientList, ∀ i ∈ s.visibleNPCs c, ∀ k, k < i → s.npcId k ≠ s.npcId i

variable {E : Env} {J : Junk} {c d : Ptr} {s t : Server} {P : Packet} {now : Int} {i j k : Nat}
  {l : List Nat}

theorem npcId_eq (hi : i < s.npcList.length) : s.npcId i = (s.npcList[i]).clientid := by
  unfold Server.npcId
  rw [List.getElem?_eq_getElem hi]
  rfl

/-- `GetNPCByID` returns the first NPC that has the id. -/
theorem getNPCByID_eq (s : Server) (id : Nat) :
    s.getNPCByID id = (s.indexByID id).bind fun i => s.npcList[i]? := by
  unfold Server.getNPCByID Server.indexByID
  induction s.npcList with
  | nil => rfl
  | cons n ns ih =>
    rw [List.find?_cons, List.findIdx?_cons]
    split
    · next h => rw [if_pos h]; rfl
    · next h =>
      rw [if_neg (by rw [h]; exact Bool.false_ne_true), ih]
      cases ns.findIdx? fun n => n.clientid = id <;> rfl

theorem OwnIds.found (h : OwnIds s) : NpcsFound s := by
  intro c hc i hi
  rw [h.told c hc i hi, Option.bind_some]
  unfold Server.indexByID
  rw [List.findIdx?_eq_some_iff_getElem]
  have hin := h.inside c hc i hi
  refine ⟨hin, ?_, fun k hk => ?_⟩
  · rw [decide_eq_true_eq, npcId_eq hin]
  · have hne := h.first c hc i hi k hk
    rw [npcId_eq (hk.trans hin)] at hne
    rw [decide_eq_true_eq]
    exact hne

/-- What `GetNPCByID` returns for the id that a client knows. -/
theorem NpcsFound.getNPCByID (h : NpcsFound s) (hc : c ∈ s.clientList) (hi : i ∈ s.visibleNPCs c) :
    ∃ id, s.lastId c i = some id ∧ s.getNPCByID id = s.npcList[i]? := by
  obtain ⟨id, hid, hindex⟩ := Option.bind_eq_some_iff.mp (h c hc i hi)
  refine ⟨id, hid, ?_⟩
  rw [getNPCByID_eq, hindex]
  rfl

/-! ## New ids -/

theorem freeIDs_from_finite (s : Server) (now : Int) (n : Nat) : (s.freeIDs now n).Finite :=
  (Set.finite_Iic 0xffff).subset fun _ h => h.2.1

theorem freeIDs_from_take (s : Server) (now : Int) (n j : Nat) :
    (s.take j).freeIDs now n = s.freeIDs now n \ {j} := by
  ext k
  show (n ≤ k ∧ k ≤ 0xffff ∧ (if k = j then 0 else s.clientIDList k) ≠ 0 ∧
    now - ((if k = j then 0 else s.clientIDList k : Nat) : Int) > 10) ↔ _ ∧ k ≠ j
  by_cases hk : k = j
  · simp [hk]
  · simp only [if_neg hk, and_iff_left hk]
    rfl

/-- An NPC gets the least id that is free. -/
theorem renew_free (h : (s.freeIDs now 2000).Nonempty) (hi : i < s.npcList.length) :
    ∃ j ∈ s.freeIDs now 2000, (s.renew now i).npcId i = j ∧
      (s.renew now i).clientIDList = (s.take j).clientIDList := by
  obtain ⟨j, hj⟩ : ∃ j, s.freeID now 2000 = some j := by
    rcases hfree : s.freeID now 2000 with _ | j
    · rw [freeID_eq_none hfree] at h
      exact absurd h Set.not_nonempty_empty
    · exact ⟨j, rfl⟩
  have hmem := (freeID_eq_some hj).1
  refine ⟨j, hmem, ?_, ?_⟩
  · unfold Server.renew Server.npcId
    rw [hj]
    dsimp only
    rw [List.getElem?_modify_eq, List.getElem?_eq_getElem hi]
    show u16 j = j
    have := hmem.2.1
    unfold u16 unsigned
    omega
  · unfold Server.renew
    rw [hj]
    rfl

theorem cleared_renew (s : Server) (now : Int) (i : Nat) : Cleared s (s.renew now i) := by
  unfold Server.renew
  split
  · next j _ => exact cleared_take s j
  · exact fun _ => .inl rfl

theorem cleared_renews (s : Server) (now : Int) (l : List Nat) : Cleared s (s.renews now l) := by
  induction l generalizing s with
  | nil => exact fun _ => .inl rfl
  | cons i l ih => exact (cleared_renew s now i).trans (ih (s.renew now i))

/-- NPCs that get new ids get different ones, that were free and are taken. -/
theorem renews_ids (hnodup : l.Nodup) (hl : ∀ i ∈ l, i < s.npcList.length)
    (hleft : l.length ≤ (s.freeIDs now 2000).ncard) :
    (∀ i ∈ l, (s.renews now l).npcId i ∈ s.freeIDs now 2000 ∧
      (s.renews now l).clientIDList ((s.renews now l).npcId i) = 0) ∧
      ∀ i ∈ l, ∀ k ∈ l, k ≠ i → (s.renews now l).npcId k ≠ (s.renews now l).npcId i := by
  induction l generalizing s with
  | nil => exact ⟨fun _ h => absurd h List.not_mem_nil, fun _ h => absurd h List.not_mem_nil⟩
  | cons i l ih =>
    obtain ⟨hmem, hnodup⟩ := List.nodup_cons.mp hnodup
    obtain ⟨hi, hl⟩ := List.forall_mem_cons.mp hl
    rw [List.length_cons] at hleft
    have hne : (s.freeIDs now 2000).Nonempty :=
      (Set.ncard_pos (freeIDs_from_finite s now 2000)).mp (by omega)
    obtain ⟨j, hj, hid, htable⟩ := renew_free hne hi
    have hfree : (s.renew now i).freeIDs now 2000 = s.freeIDs now 2000 \ {j} := by
      rw [← freeIDs_from_take]
      unfold Server.freeIDs
      rw [htable]
    have hown : (s.renews now (i :: l)).npcId i = j := (npcId_renews hmem).trans hid
    have hleft' : l.length ≤ ((s.renew now i).freeIDs now 2000).ncard := by
      rw [hfree, Set.ncard_sdiff_singleton_of_mem hj]
      omega
    obtain ⟨hnew, hapart⟩ := ih hnodup (fun k hk => by rw [renew_length]; exact hl k hk) hleft'
    have hothers : ∀ k ∈ l, (s.renews now (i :: l)).npcId k ∈ s.freeIDs now 2000 ∧
        (s.renews now (i :: l)).npcId k ≠ j := fun k hk => by
      have hk := (hnew k hk).1
      rw [hfree] at hk
      exact hk
    constructor
    · refine List.forall_mem_cons.mpr ⟨?_, fun k hk => ⟨(hothers k hk).1, (hnew k hk).2⟩⟩
      rw [hown]
      refine ⟨hj, (cleared_renews (s.renew now i) now l).taken ?_⟩
      rw [htable]
      exact take_self s j
    · intro a ha b hb hab
      rcases List.mem_cons.mp ha with rfl | ha' <;> rcases List.mem_cons.mp hb with rfl | hb'
      · exact absurd rfl hab
      · rw [hown]
        exact (hothers b hb').2
      · rw [hown]
        exact (hothers a ha').2.symm
      · exact hapart a ha' b hb' hab

/-! ## Steps -/

theorem npcIdFor_none (c : Ptr) (i : Nat) (e : Event) (he : e.isSpawn = false) :
    e.npcIdFor c i = none := by
  cases e <;> first | rfl | cases he

theorem filterMap_single {f : Nat → Nat} (h : l.Nodup) :
    l.filterMap (fun k => if k = i then some (f k) else none) = if i ∈ l then [f i] else [] := by
  induction l with
  | nil => rfl
  | cons k l ih =>
    obtain ⟨hmem, hnodup⟩ := List.nodup_cons.mp h
    by_cases hk : k = i
    · rw [hk] at hmem ⊢
      rw [List.filterMap_cons, if_pos rfl, ih hnodup, if_neg hmem, if_pos List.mem_cons_self]
    · rw [List.filterMap_cons, if_neg hk, ih hnodup]
      simp only [List.mem_cons, Ne.symm hk, false_or]

/-- The events of a look around that show an NPC to its client. -/
theorem filterMap_npcIdFor {es : List Event} {ids : Nat → Nat} {ps : List Ptr} (hnodup : l.Nodup)
    (hes : es.filter Event.isSpawn = (l.map fun k => Event.spawnNPC c k (ids k)).reverse ++
      (ps.map (Event.spawnChar c)).reverse) :
    es.filterMap (Event.npcIdFor d i) = if d = c ∧ i ∈ l then [ids i] else [] := by
  have hchars : ((ps.map (Event.spawnChar c)).reverse).filterMap (Event.npcIdFor d i) = [] := by
    rw [List.filterMap_eq_nil_iff]
    intro e he
    obtain ⟨p, -, rfl⟩ := List.mem_map.mp (List.mem_reverse.mp he)
    rfl
  rw [filterMap_isSpawn (npcIdFor_none d i), hes, List.filterMap_append, hchars, List.append_nil,
    ← List.map_reverse, List.filterMap_map]
  show l.reverse.filterMap (fun k => if c = d ∧ k = i then some (ids k) else none) = _
  by_cases hd : d = c
  · simp only [hd, true_and]
    rw [filterMap_single (List.nodup_reverse.mpr hnodup)]
    simp only [List.mem_reverse]
  · simp [hd, Ne.symm hd]

/-- The NPCs do not change. -/
def npcsView : Frame Fault Server := .same Server.npcList

theorem open_npcsView (c : Ptr) : Open npcsView c where
  packet _ _ := rfl
  calls _ := rfl
  send _ _ _ _ := rfl
  fault _ _ _ _ := trivial
  derefs _ _ := trivial
  visible _ _ _ _ _ _ := trivial
  listed _ _ _ _ := trivial
  reads _ _ := rfl
  npcId _ _ := rfl
  body _ _ _ := rfl
  data _ _ := rfl
  ids _ _ _ _ _ := rfl
  moves _ _ _ := rfl
  lists := ⟨fun _ => rfl, fun _ _ => rfl, fun _ => trivial⟩

theorem npcList_packet : (fin (exec E (.packet c P J) s)).npcList = s.npcList :=
  ((open_npcsView c).free.exec_packet (fun _ _ => rfl) (fun _ _ _ => rfl) (fun _ _ _ => rfl) P
    fun _ => (open_npcsView c).moves).rel

/-- Nothing that the ids depend on changes, but that ids are taken. -/
theorem OwnIds.same (h : OwnIds s) (hseen : ∀ c ∈ t.clientList, ∀ i ∈ t.visibleNPCs c,
      c ∈ s.clientList ∧ i ∈ s.visibleNPCs c) (htold : ∀ c i, t.lastId c i = s.lastId c i)
    (hnpcs : t.npcList = s.npcList) (htable : Cleared s t) : OwnIds t := by
  have hids : ∀ i, t.npcId i = s.npcId i := fun i => by
    unfold Server.npcId
    rw [hnpcs]
  refine ⟨fun c hc i hi => ?_, fun c hc i hi => ?_, fun c hc i hi => ?_, fun c hc i hi k hk => ?_⟩ <;>
    obtain ⟨hc, hi⟩ := hseen c hc i hi
  · rw [htold, hids]
    exact h.told c hc i hi
  · rw [hnpcs]
    exact h.inside c hc i hi
  · rw [hids]
    exact htable.taken (h.taken c hc i hi)
  · rw [hids, hids]
    exact h.first c hc i hi k hk

theorem OwnIds.addUser (h : OwnIds s) (hs : s.Sound) : OwnIds (fin (exec E (.addUser J) s)) := by
  refine h.same (fun c hc i hi => ?_) (fun _ _ => rfl) rfl fun _ => .inl rfl
  have hc : c ∈ s.clientList ++ [s.nextPtr] := hc
  rcases List.mem_append.mp hc with hc | hc
  · have hheap : (fin (exec E (.addUser J) s)).heap c = s.heap c :=
      if_neg (Nat.ne_of_lt (hs.below c hc))
    unfold Server.visibleNPCs at hi ⊢
    rw [hheap] at hi
    exact ⟨hc, hi⟩
  · -- a new client sees nothing
    obtain rfl := List.mem_singleton.mp hc
    have hheap : (fin (exec E (.addUser J) s)).heap s.nextPtr =
        some { recvpkts := J.recvpkts, items := J.items } := if_pos rfl
    rw [visibleNPCs_of_some hheap] at hi
    exact absurd hi List.not_mem_nil

theorem OwnIds.packet (h : OwnIds s) (hr : exec E (.packet c P J) s = .ok () t) : OwnIds t := by
  by_cases hc : c ∈ s.clientList
  swap
  · rw [exec, connected_apply, if_neg hc] at hr
    cases hr
    exact h
  have hl := (callOf_packet (E := E) (c := c) (s := s) J P).rel.1
  have hv := lists_packet (E := E) (J := J) (c := c) (s := s) (P := P)
  have hu := unshown_packet (E := E) (J := J) (c := c) (s := s) (P := P)
  have hn := npcList_packet (E := E) (J := J) (c := c) (s := s) (P := P)
  have ha := packet_assigns (E := E) (J := J) (c := c) (s := s) (P := P)
  rw [hr] at hl hv hu hn ha
  have hlist : t.clientList = s.clientList := congrArg (·.2.1) hl
  have hvis : t.visibleNPCs = s.visibleNPCs := visibleNPCs_of_listsView hv
  refine h.same (fun c hc i hi => ?_) (fun c i => ?_) hn ha.1
  · rw [hvis] at hi
    exact ⟨hlist ▸ hc, hi⟩
  · exact congrArg List.head? (filterMap_unshown (npcIdFor_none c i) hu)

theorem OwnIds.delete (h : OwnIds s) (hs : s.Sound) (c : Ptr) : OwnIds (s.delete c) := by
  refine h.same (fun p hp i hi => ?_) (fun _ _ => rfl) rfl fun _ => .inl rfl
  obtain ⟨hpc, hp⟩ := hs.nodup.mem_erase_iff.mp hp
  have hheap : (s.delete c).heap p = s.heap p := if_neg hpc
  unfold Server.visibleNPCs at hi ⊢
  rw [hheap] at hi
  exact ⟨hp, hi⟩

/-- A look around that shows NPCs to its client alone. -/
theorem OwnIds.visiblityList (h : OwnIds s) (hs : s.Sound) (hi : ShownAlone s (.visiblityList c J))
    (hr : exec E (.visiblityList c J) s = .ok () t) : OwnIds t := by
  by_cases hc : c ∈ s.clientList
  swap
  · rw [exec, connected_apply, if_neg hc] at hr
    cases hr
    exact h
  obtain ⟨halone, hbefore, hleft⟩ := hi hc
  have hnew : ∀ i ∈ s.newNPCs c, i < s.npcList.length := fun i hi =>
    lt_of_showsNPC (List.mem_filter.mp (List.mem_of_mem_filter hi)).2
  have hnodup : (s.newNPCs c).Nodup := (List.nodup_range.filter _).filter _
  obtain ⟨hids, hapart⟩ := renews_ids hnodup hnew hleft
  have hlist := look_list hc hr
  -- what is seen after is new, and seen by the client alone, or was seen before
  have hseen : ∀ d ∈ t.clientList, ∀ i ∈ t.visibleNPCs d, d ∈ s.clientList ∧
      (d = c ∧ i ∈ s.newNPCs c ∨ i ∉ s.newNPCs c ∧ i ∈ s.visibleNPCs d) := by
    intro d hd i hi
    have hd := hlist ▸ hd
    refine ⟨hd, ?_⟩
    by_cases hdc : d = c
    · rw [hdc, look_visibleNPCs hc hr hs] at hi
      rw [hdc]
      by_cases hold : i ∈ s.visibleNPCs c
      · exact .inr ⟨fun hmem => of_decide_eq_true (List.mem_filter.mp hmem).2 hold, hold⟩
      · exact .inl ⟨rfl, List.mem_filter.mpr ⟨hi, decide_eq_true hold⟩⟩
    · rw [look_visibleNPCs_ne hc hr hdc] at hi
      exact .inr ⟨fun hmem => halone i hmem d hd hdc hi, hi⟩
  obtain ⟨D, es, rfl, hes⟩ := visiblityList_ok hc hr
  let u : Server := s.renews J.now (s.newNPCs c)
  generalize ht : ({ u with packet := D, trace := es ++ s.trace } : Server).update c
    (fun cl => { cl with visibleClients := s.chars c, visibleNPCs := s.npcs c }) = t at hes hseen ⊢
  have hnpcId : t.npcId = u.npcId := by rw [← ht]; rfl
  have htable : t.clientIDList = u.clientIDList := by rw [← ht]; rfl
  have hlength : t.npcList.length = s.npcList.length := by
    rw [← ht]
    exact renews_length s J.now _
  have htold : ∀ d i, t.lastId d i =
      if d = c ∧ i ∈ s.newNPCs c then some (t.npcId i) else s.lastId d i := fun d i => by
    have htrace : t.trace = es ++ s.trace := by rw [← ht]; rfl
    unfold Server.lastId
    rw [htrace, List.filterMap_append, filterMap_npcIdFor hnodup hes]
    split <;> rfl
  have hold : ∀ {k}, k ∉ s.newNPCs c → t.npcId k = s.npcId k := fun hk => by
    rw [hnpcId]
    exact npcId_renews hk
  refine ⟨fun d hd i hi => ?_, fun d hd i hi => ?_, fun d hd i hi => ?_, fun d hd i hi k hk => ?_⟩ <;>
    obtain ⟨hd, ⟨rfl, hin⟩ | ⟨hnot, hi⟩⟩ := hseen d hd i hi
  · rw [htold, if_pos ⟨rfl, hin⟩]
  · rw [htold, if_neg fun h => hnot h.2, hold hnot]
    exact h.told d hd i hi
  · rw [hlength]
    exact hnew i hin
  · rw [hlength]
    exact h.inside d hd i hi
  · rw [htable, hnpcId]
    exact (hids i hin).2
  · rw [htable, hold hnot]
    exact (cleared_renews s J.now _).taken (h.taken d hd i hi)
  · by_cases hkin : k ∈ s.newNPCs d
    · rw [hnpcId]
      exact hapart i hin k hkin (Nat.ne_of_lt hk)
    · rw [hold hkin, hnpcId]
      intro heq
      apply hbefore i hin k hk hkin
      rw [heq]
      exact (hids i hin).1
  · rw [hold hnot]
    by_cases hkin : k ∈ s.newNPCs c
    · rw [hnpcId]
      intro heq
      have hfree := (hids k hkin).1
      rw [heq] at hfree
      exact hfree.2.2.1 (h.taken d hd i hi)
    · rw [hold hkin]
      exact h.first d hd i hi k hk

theorem OwnIds.step (h : OwnIds s) (hs : s.Sound) {i : Step} (hi : ShownAlone s i)
    (hr : exec E i s = .ok () t) : OwnIds t := by
  cases i with
  | addUser J =>
    have := h.addUser (E := E) (J := J) hs
    rwa [hr] at this
  | disconnectClient c =>
    rw [exec_disconnectClient hs] at hr
    cases hr
    split
    · exact h.delete hs c
    · exact h
  | packet c P J => exact h.packet hr
  | visiblityList c J => exact h.visiblityList hs hi hr

/-! ## Shops -/

/-- The packet is begun before the NPC is used. -/
theorem sendNPCSellItems_eq (hP : 14 ≤ P.mem.length) (c : Ptr) (s : Server) : ∃ u : Server,
    u.heap = s.heap ∧ sendNPCSellItems c P s = (match s.getNPCByID P.npcID with
      | none => throw .nullPtr
      | some thisnpc => do
        writes (if thisnpc.mobcode = 1 then addWord 1 12 :: shopFields thisnpc
          else if thisnpc.mobcode = 19 then addWord 3 12 :: shopFields thisnpc
          else [])
        writes [addByte 10 232]
        sendPacket c 236
        return true : M Bool) u := by
  let s0 : Server := { s with reads := s.reads ++ List.range' 12 2 }
  let s1 : Server := { s0 with packet := fun _ => 0 }
  let head : List Write := [addWord 236 0, addWord 0x017C 4, addWord 30000 6]
  let s2 : Server := { s1 with packet := stores head s1.packet }
  have hhead : writes head s1 = .ok () s2 :=
    writes_apply (by simp [head, Write.inBounds, addWord]) s1
  refine ⟨s2, rfl, (bind_ok (rdInt_apply (by omega) s)).trans ?_⟩
  refine (bind_ok (show (get : M Server) s0 = .ok s0 s0 from rfl)).trans ?_
  exact (bind_ok (show packetFree s0 = .ok () s1 from rfl)).trans (bind_ok hhead)

theorem sendNPCSellItems_none (hP : 14 ≤ P.mem.length) (hnone : s.getNPCByID P.npcID = none) :
    ∃ t, sendNPCSellItems c P s = .error .nullPtr t := by
  obtain ⟨u, -, hu⟩ := sendNPCSellItems_eq hP c s
  rw [hnone] at hu
  exact ⟨u, hu⟩

theorem sendNPCSellItems_some {npc : CNPC} (hc : (s.heap c).isSome) (hP : 14 ≤ P.mem.length)
    (hsome : s.getNPCByID P.npcID = some npc) : ∃ t, sendNPCSellItems c P s = .ok true t := by
  obtain ⟨cl, hcl⟩ := Option.isSome_iff_exists.mp hc
  obtain ⟨u, hheap, hu⟩ := sendNPCSellItems_eq hP c s
  rw [hsome] at hu
  let body : List Write := if npc.mobcode = 1 then addWord 1 12 :: shopFields npc
    else if npc.mobcode = 19 then addWord 3 12 :: shopFields npc else []
  let v : Server := { u with packet := stores body u.packet }
  have hsell : ∀ kind : Int, ∀ w ∈ addWord kind 12 :: shopFields npc, w.inBounds = true :=
    fun kind w hw => sellFields_inBounds kind npc w (by
      simp only [sellFields, List.mem_append, List.mem_cons] at hw ⊢
      tauto)
  have hbody : writes body u = .ok () v := by
    refine writes_apply (fun w hw => ?_) u
    simp only [body] at hw
    split at hw
    · exact hsell 1 w hw
    · split at hw
      · exact hsell 3 w hw
      · exact absurd hw List.not_mem_nil
  have hv : v.heap c = some cl := (congrFun hheap c).trans hcl
  exact ⟨_, hu.trans ((bind_ok hbody).trans
    (composed_apply (s := v) hv (by simp [Write.inBounds, addByte])))⟩

/-- A packet that asks for a shop ends in a null pointer just when no NPC has the id in it. -/
theorem shop_null_iff (hs : s.Sound) (ho : P.opcode = 0x027b) (hP : 14 ≤ P.mem.length)
    (hc : c ∈ s.clientList) :
    thrown (exec E (.packet c P J) s) = some .nullPtr ↔ s.getNPCByID P.npcID = none := by
  have hlive : ((s.dispatched c).heap c).isSome := by
    have hmap : (s.dispatched c).heap c =
        (s.heap c).map fun cl => { cl with recvpkts := cl.recvpkts + 1 } := if_pos rfl
    rw [hmap, Option.isSome_map]
    exact (hs.live c).mpr hc
  have hrun : exec E (.packet c P J) s =
      (sendNPCSellItems c P >>= fun _ => pure ()) (s.dispatched c) := by
    rw [exec_packet hc (by omega), ho]
    rfl
  have hsame : s.getNPCByID P.npcID = (s.dispatched c).getNPCByID P.npcID := rfl
  rw [hrun, hsame]
  cases hfind : (s.dispatched c).getNPCByID P.npcID with
  | none =>
    obtain ⟨t, ht⟩ := sendNPCSellItems_none (c := c) hP hfind
    rw [bind_error ht]
    exact iff_of_true rfl rfl
  | some npc =>
    obtain ⟨t, ht⟩ := sendNPCSellItems_some hlive hP hfind
    rw [bind_ok ht]
    exact iff_of_false (fun h => by cases h) fun h => by cases h

/-! ## Runs -/

/-- **The id that a client knows finds the NPC it sees**, in every state that is reached by steps
in which a look around shows no NPC that another client sees; and asking for a shop makes the
server use a null pointer whenever no NPC has the id. -/
theorem npcsFound_of_shownAlone {s0 : Server} (h : s0.Fresh) {is : List Step}
    (hi : Along (exec E) ShownAlone s0 is) (hr : run (exec E) is s0 = .ok () t) :
    NpcsFound t ∧ ∀ c ∈ t.clientList, ∀ P J, P.opcode = 0x027b → 14 ≤ P.mem.length →
      (thrown (exec E (.packet c P J) t) = some .nullPtr ↔ t.getNPCByID P.npcID = none) := by
  have h0 : OwnIds s0 := by
    have hnone : ∀ c, c ∉ s0.clientList := fun c hc => by simp [h.clientList] at hc
    exact ⟨fun c hc => absurd hc (hnone c), fun c hc => absurd hc (hnone c),
      fun c hc => absurd hc (hnone c), fun c hc => absurd hc (hnone c)⟩
  have hrun : t.Sound ∧ OwnIds t := run_keeps
    (I := fun s => s.Sound ∧ OwnIds s) (fun s i u hs hc hu => ⟨by
      have := hs.1.step (E := E) i
      rwa [hu] at this, hs.2.step hs.1 hc hu⟩) ⟨h.sound, h0⟩ hi hr
  exact ⟨hrun.2.found, fun c hc P J ho hP => shop_null_iff hrun.1 ho hP hc⟩

theorem shownAlone_arrival : Along (exec Env.plain) ShownAlone oneNPC arrival := by
  refine ⟨trivial, fun t ht => ⟨trivial, fun u hu => ⟨fun _ => ?_, fun _ _ => trivial⟩⟩⟩
  have hrun : run (exec Env.plain) [.addUser {},
      .packet 0 (loginFrame (ascii "bob") (ascii "pw")) { now := 100 }] oneNPC = .ok () u :=
    (bind_ok ht).trans (bind_ok hu)
  have hfacts : let r := fin (run (exec Env.plain) [.addUser {},
        .packet 0 (loginFrame (ascii "bob") (ascii "pw")) { now := 100 }] oneNPC)
      r.newNPCs 0 = [0] ∧ r.clientList = [0] ∧ r.clientIDList 2000 = 1 := by decide +kernel
  rw [hrun] at hfacts
  obtain ⟨hnew, hlist, htable⟩ : u.newNPCs 0 = [0] ∧ u.clientList = [0] ∧ u.clientIDList 2000 = 1 :=
    hfacts
  rw [hnew, hlist]
  refine ⟨fun _ _ d hd hne => absurd (List.mem_singleton.mp hd) hne, fun i hi k hk => ?_, ?_⟩
  · rw [List.mem_singleton.mp hi] at hk
    exact absurd hk (Nat.not_lt_zero k)
  · refine (Set.ncard_pos (freeIDs_from_finite u 100 2000)).mpr ⟨2000, Nat.le_refl _, by decide, ?_⟩
    rw [htable]
    decide

theorem npcsFound_of_shownAlone_arrival :
    NpcsFound (fin (run (exec Env.plain) arrival oneNPC)) := by
  have hr : thrown (run (exec Env.plain) arrival oneNPC) = none := by decide +kernel
  have hfresh : oneNPC.Fresh := ⟨fun _ => rfl, rfl, rfl⟩
  exact (npcsFound_of_shownAlone hfresh shownAlone_arrival (ok_of_thrown hr)).1

/-- A packet that asks for the shop of an NPC. -/
def shopFrame (id : Nat) : Packet := frame 0x027b (leBytes 2 id ++ [0, 0])

/-- A second player arrives, and the NPC that the first one knows as 2000 becomes 2001: the first
one's request for its shop ends in a null pointer. -/
theorem secondArrival_lost :
    let is := arrival ++ [.addUser {},
      .packet 1 (loginFrame (ascii "bob") (ascii "pw")) { now := 100 }, .visiblityList 1 { now := 100 }]
    let t := fin (run (exec Env.plain) is oneNPC)
    thrown (run (exec Env.plain) is oneNPC) = none ∧ t.lastId 0 0 = some 2000 ∧ t.npcId 0 = 2001 ∧
      ¬NpcsFound t ∧ thrown (exec Env.plain (.packet 0 (shopFrame 2000) {}) t) = some .nullPtr := by
  decide +kernel

end Destiny
