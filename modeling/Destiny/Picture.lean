import Destiny.Delivery

/-!
# What a client is shown

A remote client draws what it is told to: `SpawnChar` and `SpawnNPC` add an object, and
`ClearObject`, which would remove one, sends nothing, for its packet is commented out. So the
picture is the server's lists as long as a look around finds everything that was listed
before, and falls behind once an object leaves a list.
-/

namespace Destiny

open Text Sql Prog

/-- The client or the NPC that an event shows to `c`. -/
def Event.shownChar (c : Ptr) : Event → Option Ptr
  | .spawnChar d p => if d = c then some p else none
  | _ => none

def Event.shownNPC (c : Ptr) : Event → Option Nat
  | .spawnNPC d i _ => if d = c then some i else none
  | _ => none

/-- What `c` has been told to show. Nothing tells it to remove an object. -/
def Server.told (s : Server) (c : Ptr) : List Ptr := s.trace.filterMap (Event.shownChar c)

def Server.toldNPCs (s : Server) (c : Ptr) : List Nat := s.trace.filterMap (Event.shownNPC c)

/-- Two lists have the same members. -/
def SameMembers {α : Type} (l m : List α) : Prop := (∀ a ∈ l, a ∈ m) ∧ ∀ a ∈ m, a ∈ l

instance {α : Type} [DecidableEq α] (l m : List α) : Decidable (SameMembers l m) :=
  inferInstanceAs (Decidable ((∀ a ∈ l, a ∈ m) ∧ ∀ a ∈ m, a ∈ l))

/-- Every connected client has been told to show what its lists hold, and nothing else. -/
def Pictured (s : Server) : Prop := ∀ c ∈ s.clientList,
  SameMembers (s.told c) (s.visible c) ∧ SameMembers (s.toldNPCs c) (s.visibleNPCs c)

instance (s : Server) : Decidable (Pictured s) :=
  inferInstanceAs (Decidable (∀ c ∈ s.clientList, _))

/-- When a client looks around, the clients in its list are still connected and in sight, and
the NPCs are in sight. -/
def StillSeen (s : Server) : Step → Prop
  | .visiblityList c _ => c ∈ s.clientList →
    (∀ p ∈ s.visible c, p ∈ s.clientList ∧ s.shows c p = true) ∧
      ∀ i ∈ s.visibleNPCs c, s.showsNPC c i = true
  | _ => True

instance (s : Server) : (i : Step) → Decidable (StillSeen s i)
  | .visiblityList c _ => inferInstanceAs (Decidable (c ∈ s.clientList →
      (∀ p ∈ s.visible c, p ∈ s.clientList ∧ s.shows c p = true) ∧
        ∀ i ∈ s.visibleNPCs c, s.showsNPC c i = true))
  | .addUser _ | .disconnectClient _ | .packet .. => .isTrue trivial

variable {E : Env} {J : Junk} {c d : Ptr} {s t : Server} {P : Packet} {es : List Event}

/-! ## A list that is told what is new -/

section Members
variable {α : Type} [DecidableEq α] {told seen now : List α}

/-- What is told is brought up to date by what is new just when nothing is gone. -/
theorem sameMembers_new (h : SameMembers told seen) :
    SameMembers ((now.filter (· ∉ seen)).reverse ++ told) now ↔ ∀ a ∈ seen, a ∈ now := by
  constructor
  · intro hsame a ha
    exact hsame.1 a (List.mem_append_right _ (h.2 a ha))
  · intro hkept
    refine ⟨fun a ha => ?_, fun a ha => ?_⟩
    · rcases List.mem_append.mp ha with ha | ha
      · exact List.mem_of_mem_filter (List.mem_reverse.mp ha)
      · exact hkept a (h.1 a ha)
    · by_cases hseen : a ∈ seen
      · exact List.mem_append_right _ (h.2 a hseen)
      · refine List.mem_append_left _ (List.mem_reverse.mpr (List.mem_filter.mpr ⟨ha, ?_⟩))
        exact decide_eq_true hseen

end Members

/-! ## What is told -/

/-- Only the packets that show an object tell anything. -/
theorem filterMap_isSpawn {α : Type} {f : Event → Option α}
    (hf : ∀ e, e.isSpawn = false → f e = none) (es : List Event) :
    es.filterMap f = (es.filter Event.isSpawn).filterMap f := by
  rw [List.filterMap_filter]
  refine List.filterMap_congr fun e _ => ?_
  cases he : e.isSpawn with
  | true => rw [if_pos rfl]
  | false => rw [if_neg Bool.false_ne_true, hf e he]

theorem shownChar_none (c : Ptr) (e : Event) (he : e.isSpawn = false) : e.shownChar c = none := by
  cases e <;> first | rfl | cases he

theorem shownNPC_none (c : Ptr) (e : Event) (he : e.isSpawn = false) : e.shownNPC c = none := by
  cases e <;> first | rfl | cases he

/-- No object is shown. -/
def unshown : Frame Fault Server := .log Server.trace fun e => e.isSpawn = false

theorem unshown_of_trace (h : t.trace = s.trace) : unshown.rel s t :=
  ⟨[], h, fun _ he => absurd he List.not_mem_nil⟩

theorem unshown_log {e : Event} (he : e.isSpawn = false) : Logs unshown e := fun _ =>
  ⟨[e], rfl, fun _ h => by rw [List.mem_singleton.mp h]; exact he⟩

theorem open_unshown (c : Ptr) : Open unshown c where
  packet _ _ := unshown_of_trace rfl
  calls _ := unshown_of_trace rfl
  send s _ _ _ := unshown_log (e := .send ..) rfl s
  fault _ _ _ _ := trivial
  derefs _ _ := trivial
  visible _ _ _ _ _ _ := trivial
  listed _ _ _ _ := trivial
  reads _ _ := unshown_of_trace rfl
  npcId _ _ := unshown_of_trace rfl
  body _ _ _ := unshown_of_trace rfl
  data _ _ := unshown_of_trace rfl
  ids _ _ _ _ _ := unshown_of_trace rfl
  moves _ _ _ := unshown_of_trace rfl
  lists := ⟨unshown_log rfl, fun _ => unshown_log rfl, fun _ => trivial⟩

theorem unshown_packet : unshown.rel s (fin (exec E (.packet c P J) s)) :=
  ((open_unshown c).free.exec_packet (fun _ _ => unshown_of_trace rfl) (fun _ he => unshown_log he)
    (fun _ _ _ => unshown_of_trace rfl) P fun _ => (open_unshown c).moves).rel

theorem filterMap_unshown {α : Type} {f : Event → Option α}
    (hf : ∀ e, e.isSpawn = false → f e = none) (h : unshown.rel s t) :
    t.trace.filterMap f = s.trace.filterMap f := by
  obtain ⟨es, htrace, hes⟩ := h
  rw [htrace, List.filterMap_append,
    List.filterMap_eq_nil_iff.mpr fun e he => hf e (hes e he), List.nil_append]

/-- A look around tells its client of the new clients, and others nothing. -/
theorem look_told (hc : c ∈ s.clientList) (hr : exec E (.visiblityList c J) s = .ok () t) :
    t.told d = (if d = c then (s.newChars c).reverse else []) ++ s.told d := by
  obtain ⟨D, es, rfl, hes⟩ := visiblityList_ok hc hr
  show (es ++ s.trace).filterMap _ = _
  rw [List.filterMap_append, filterMap_isSpawn (shownChar_none d), hes, List.filterMap_append]
  refine congrArg (· ++ s.told d) ?_
  rw [List.filterMap_eq_nil_iff.mpr, List.nil_append, ← List.map_reverse, List.filterMap_map]
  · show (s.newChars c).reverse.filterMap (fun p => if c = d then some p else none) = _
    by_cases hd : d = c
    · simp [hd]
    · simp [hd, Ne.symm hd]
  · intro e he
    obtain ⟨i, -, rfl⟩ := List.mem_map.mp (List.mem_reverse.mp he)
    rfl

theorem look_toldNPCs (hc : c ∈ s.clientList) (hr : exec E (.visiblityList c J) s = .ok () t) :
    t.toldNPCs d = (if d = c then (s.newNPCs c).reverse else []) ++ s.toldNPCs d := by
  obtain ⟨D, es, rfl, hes⟩ := visiblityList_ok hc hr
  show (es ++ s.trace).filterMap _ = _
  rw [List.filterMap_append, filterMap_isSpawn (shownNPC_none d), hes, List.filterMap_append]
  refine congrArg (· ++ s.toldNPCs d) ?_
  have hnone : (((s.newChars c).map (Event.spawnChar c)).reverse).filterMap (Event.shownNPC d) =
      [] := by
    rw [List.filterMap_eq_nil_iff]
    intro e he
    obtain ⟨p, -, rfl⟩ := List.mem_map.mp (List.mem_reverse.mp he)
    rfl
  rw [hnone, List.append_nil, ← List.map_reverse, List.filterMap_map]
  show (s.newNPCs c).reverse.filterMap (fun i => if c = d then some i else none) = _
  by_cases hd : d = c
  · simp [hd]
  · simp [hd, Ne.symm hd]

/-! ## Steps -/

theorem pictured_of_same (hl : t.clientList = s.clientList) (hv : listsView.rel s t)
    (hu : unshown.rel s t) : Pictured t ↔ Pictured s := by
  have htold : ∀ c, t.told c = s.told c := fun c => filterMap_unshown (shownChar_none c) hu
  have htoldNPCs : ∀ c, t.toldNPCs c = s.toldNPCs c := fun c =>
    filterMap_unshown (shownNPC_none c) hu
  unfold Pictured
  simp only [hl, htold, htoldNPCs, visible_of_listsView hv, visibleNPCs_of_listsView hv]

theorem Pictured.addUser (h : Pictured s) (hs : s.Sound) :
    Pictured (fin (exec E (.addUser J) s)) := by
  have hfresh : ∀ e ∈ s.trace, e.about ≠ some s.nextPtr := fun e he hab =>
    Nat.lt_irrefl _ (hs.about e he _ hab)
  intro c hc
  have hc : c ∈ s.clientList ++ [s.nextPtr] := hc
  rcases List.mem_append.mp hc with hc | hc
  · have hne : c ≠ s.nextPtr := Nat.ne_of_lt (hs.below c hc)
    have hheap : (fin (exec E (.addUser J) s)).heap c = s.heap c := if_neg hne
    have hv : (fin (exec E (.addUser J) s)).visible c = s.visible c := by
      unfold Server.visible
      rw [hheap]
    have hn : (fin (exec E (.addUser J) s)).visibleNPCs c = s.visibleNPCs c := by
      unfold Server.visibleNPCs
      rw [hheap]
    rw [hv, hn]
    exact h c hc
  · -- nothing has been said to the new client
    obtain rfl := List.mem_singleton.mp hc
    have h1 : s.told s.nextPtr = [] := List.filterMap_eq_nil_iff.mpr fun e he => by
      cases e with
      | spawnChar d p => exact if_neg fun hd => hfresh _ he (congrArg some hd)
      | _ => rfl
    have h2 : s.toldNPCs s.nextPtr = [] := List.filterMap_eq_nil_iff.mpr fun e he => by
      cases e with
      | spawnNPC d i id => exact if_neg fun hd => hfresh _ he (congrArg some hd)
      | _ => rfl
    have hheap : (fin (exec E (.addUser J) s)).heap s.nextPtr =
        some { recvpkts := J.recvpkts, items := J.items } := if_pos rfl
    rw [visible_of_some hheap, visibleNPCs_of_some hheap]
    show SameMembers (s.told s.nextPtr) [] ∧ SameMembers (s.toldNPCs s.nextPtr) []
    rw [h1, h2]
    exact ⟨⟨fun _ h => h, fun _ h => h⟩, fun _ h => h, fun _ h => h⟩

theorem Pictured.delete (h : Pictured s) (hs : s.Sound) (c : Ptr) : Pictured (s.delete c) := by
  intro p hp
  obtain ⟨hpc, hp⟩ := hs.nodup.mem_erase_iff.mp hp
  have hn : (s.delete c).visibleNPCs p = s.visibleNPCs p := by
    have hheap : (s.delete c).heap p = s.heap p := if_neg hpc
    unfold Server.visibleNPCs
    rw [hheap]
  rw [visible_delete_ne hpc, hn]
  exact h p hp

/-- A look around leaves its client with the right picture just when nothing has gone. -/
theorem Pictured.look_iff (h : Pictured s) (hs : s.Sound) (hc : c ∈ s.clientList)
    (hr : exec E (.visiblityList c J) s = .ok () t) :
    Pictured t ↔ StillSeen s (.visiblityList c J) := by
  have hlist := look_list hc hr
  have hself : SameMembers (t.told c) (t.visible c) ↔ ∀ p ∈ s.visible c, p ∈ s.chars c := by
    rw [look_told hc hr, if_pos rfl, look_visible hc hr hs]
    exact sameMembers_new (h c hc).1
  have hselfNPCs : SameMembers (t.toldNPCs c) (t.visibleNPCs c) ↔
      ∀ i ∈ s.visibleNPCs c, i ∈ s.npcs c := by
    rw [look_toldNPCs hc hr, if_pos rfl, look_visibleNPCs hc hr hs]
    exact sameMembers_new (h c hc).2
  have hchars : ∀ p, p ∈ s.chars c ↔ p ∈ s.clientList ∧ s.shows c p = true := fun p =>
    List.mem_filter
  have hnpcs : ∀ i, i ∈ s.npcs c ↔ s.showsNPC c i = true := fun i => by
    refine ⟨fun hi => List.of_mem_filter hi, fun hi => List.mem_filter.mpr ⟨?_, hi⟩⟩
    -- only an NPC that exists is shown
    refine List.mem_range.mpr (Nat.lt_of_not_le fun hle => ?_)
    unfold Server.showsNPC at hi
    rw [List.getElem?_eq_none hle] at hi
    split at hi <;> contradiction
  constructor
  · intro ht _
    obtain ⟨h1, h2⟩ := ht c (hlist ▸ hc)
    exact ⟨fun p hp => (hchars p).mp (hself.mp h1 p hp),
      fun i hi => (hnpcs i).mp (hselfNPCs.mp h2 i hi)⟩
  · intro hstill d hd
    rw [hlist] at hd
    by_cases hdc : d = c
    · subst hdc
      obtain ⟨h1, h2⟩ := hstill hc
      exact ⟨hself.mpr fun p hp => (hchars p).mpr (h1 p hp),
        hselfNPCs.mpr fun i hi => (hnpcs i).mpr (h2 i hi)⟩
    · rw [look_told hc hr, look_toldNPCs hc hr, if_neg hdc, if_neg hdc, List.nil_append,
        List.nil_append, look_visible_ne hc hr hdc, look_visibleNPCs_ne hc hr hdc]
      exact h d hd

theorem Pictured.step_iff (h : Pictured s) (hs : s.Sound) {i : Step}
    (hr : exec E i s = .ok () t) : Pictured t ↔ StillSeen s i := by
  cases i with
  | addUser J =>
    have := h.addUser (E := E) (J := J) hs
    rw [hr] at this
    exact iff_of_true this trivial
  | disconnectClient c =>
    rw [exec_disconnectClient hs] at hr
    cases hr
    split
    · exact iff_of_true (h.delete hs c) trivial
    · exact iff_of_true h trivial
  | packet c P J =>
    refine iff_of_true ?_ trivial
    by_cases hc : c ∈ s.clientList
    · have hl := (callOf_packet (E := E) (c := c) (s := s) J P).rel.1
      have hv := lists_packet (E := E) (J := J) (c := c) (s := s) (P := P)
      have hu := unshown_packet (E := E) (J := J) (c := c) (s := s) (P := P)
      rw [hr] at hl hv hu
      exact (pictured_of_same (congrArg (·.2.1) hl) hv hu).mpr h
    · rw [exec, connected_apply, if_neg hc] at hr
      cases hr
      exact h
  | visiblityList c J =>
    by_cases hc : c ∈ s.clientList
    · exact h.look_iff hs hc hr
    · rw [exec, connected_apply, if_neg hc] at hr
      cases hr
      exact iff_of_true h fun hc' => absurd hc' hc

/-- **What clients are shown is what the server lists**, in every state of a run, just when
each look around finds everything in sight that was listed before. -/
theorem pictured_iff_stillSeen {s0 s' : Server} (h : s0.Fresh) {is : List Step}
    (hr : run (exec E) is s0 = .ok () s') :
    Always (exec E) Pictured s0 is ↔ Along (exec E) StillSeen s0 is := by
  have h0 : Pictured s0 := fun c hc => by simp [h.clientList] at hc
  exact always_iff_along_of_ok (fun s i hs => hs.step i)
    (fun s i t hs hp ht => hp.step_iff hs ht) h.sound h0 hr

/-- The first player looks around, the second moves a little, and the first looks again. -/
def nearMove : List Step :=
  twoPlayers ++ [.visiblityList 0 {}, .packet 1 (moveFrame 2100 2100) {}, .visiblityList 0 {}]

/-- The second moves out of sight. -/
def farMove : List Step :=
  twoPlayers ++ [.visiblityList 0 {}, .packet 1 (moveFrame 99 99) {}, .visiblityList 0 {}]

theorem pictured_iff_stillSeen_near :
    Always (exec Env.plain) Pictured (Server.start oneHero) nearMove := by
  have h : thrown (run (exec Env.plain) nearMove (Server.start oneHero)) = none ∧
    Along (exec Env.plain) StillSeen (Server.start oneHero) nearMove := by decide +kernel
  exact (pictured_iff_stillSeen (Server.start_fresh oneHero) (ok_of_thrown h.1)).mpr h.2

/-- The player who moved away is no longer listed, but still shown. -/
theorem farMove_shown : thrown (run (exec Env.plain) farMove (Server.start oneHero)) = none ∧
    ¬ Always (exec Env.plain) Pictured (Server.start oneHero) farMove := by
  decide +kernel

/-- At the start nobody has been shown anything. -/
example : Pictured (Server.start oneHero) := by decide +kernel

end Destiny
