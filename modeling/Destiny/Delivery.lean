import Destiny.Visible

/-!
# Sending to those in sight

`SendToVisible` sends a packet to every pointer in a client's `VisibleClients`. A look around
draws the list from `ClientList`, which holds no client twice, and leaves the client itself
out. So each client in the list gets one copy, as long as they are all still connected;
`DisconnectClient` deletes a client that others still have in their lists.
-/

namespace Destiny

open Text Sql Prog

/-- No connected client has itself or another one twice in its `VisibleClients`. -/
def SeenOnce (s : Server) : Prop := ∀ c ∈ s.clientList, (s.visible c).Nodup ∧ c ∉ s.visible c

/-- A copy of the packet for a client. -/
def Server.copy (s : Server) (size : Nat) (p : Ptr) : Event :=
  .send p ((List.range size).map s.packet) s.hash1

/-- `SendToVisible` returns, sends nothing but copies of the packet, one to each client in the
list, one to the client itself if it is asked to, and no other. -/
def Delivers (s : Server) (c : Ptr) (size : Nat) (dothisclient : Bool) : Prop :=
  ∃ es, sendToVisible c size dothisclient s = .ok () { s with trace := es ++ s.trace } ∧
    (∀ e ∈ es, ∃ p, e = s.copy size p) ∧
    ∀ p, es.count (s.copy size p) =
      if p ∈ s.visible c ∨ dothisclient = true ∧ p = c then 1 else 0

variable {E : Env} {J : Junk} {c : Ptr} {s t : Server} {size : Nat} {ps : List Ptr} {b : Bool}

/-! ## One call -/

theorem copy_injective : Function.Injective (s.copy size) := by
  intro p q h
  cases h
  rfl

theorem sendEach_ok {u : Unit} (h : sendEach size ps s = .ok u t) :
    (∀ p ∈ ps, (s.heap p).isSome) ∧
      t = { s with trace := (ps.map (s.copy size)).reverse ++ s.trace } := by
  induction ps generalizing s with
  | nil =>
    cases h
    exact ⟨fun _ hp => absurd hp List.not_mem_nil, rfl⟩
  | cons p ps ih =>
    obtain ⟨_, s1, h1, h⟩ := of_bind_ok h
    obtain ⟨⟨cl, hcl⟩, rfl⟩ := sendPacket_ok h1
    obtain ⟨hps, rfl⟩ := ih h
    refine ⟨fun q hq => ?_, ?_⟩
    · rcases List.mem_cons.mp hq with rfl | hq
      · rw [hcl]; rfl
      · exact hps q hq
    · rw [List.map_cons, List.reverse_cons, List.append_assoc]
      rfl

theorem sendEach_apply (h : ∀ p ∈ ps, (s.heap p).isSome) :
    sendEach size ps s = .ok () { s with trace := (ps.map (s.copy size)).reverse ++ s.trace } := by
  induction ps generalizing s with
  | nil => rfl
  | cons p ps ih =>
    obtain ⟨cl, hcl⟩ := Option.isSome_iff_exists.mp (h p List.mem_cons_self)
    rw [sendEach, bind_ok (sendPacket_of_some hcl size),
      ih (s := s.sent p size) fun q hq => h q (List.mem_cons_of_mem _ hq), List.map_cons,
      List.reverse_cons, List.append_assoc]
    rfl

/-- The copies that `SendToVisible` sends, the last one first. -/
def Server.copies (s : Server) (c : Ptr) (size : Nat) (dothisclient : Bool) : List Event :=
  (if dothisclient then [s.copy size c] else []) ++ ((s.visible c).map (s.copy size)).reverse

theorem sendToVisible_ok {u : Unit} (h : sendToVisible c size b s = .ok u t) :
    (∀ p ∈ s.visible c, (s.heap p).isSome) ∧
      t = { s with trace := s.copies c size b ++ s.trace } := by
  obtain ⟨cl, s1, h1, h⟩ := of_bind_ok h
  obtain rfl := (client_ok h1).2.symm
  rw [← visible_of_some (client_ok h1).1] at h
  obtain ⟨_, s2, h2, h⟩ := of_bind_ok h
  obtain ⟨hps, rfl⟩ := sendEach_ok h2
  refine ⟨hps, ?_⟩
  cases b with
  | false =>
    cases h
    rfl
  | true =>
    obtain ⟨-, rfl⟩ := sendPacket_ok (c := c) (n := size) h
    rfl

theorem sendToVisible_apply (hc : (s.heap c).isSome) (h : ∀ p ∈ s.visible c, (s.heap p).isSome) :
    sendToVisible c size b s = .ok () { s with trace := s.copies c size b ++ s.trace } := by
  obtain ⟨cl, hcl⟩ := Option.isSome_iff_exists.mp hc
  rw [visible_of_some hcl] at h
  rw [sendToVisible, bind_ok (client_of_some hcl), bind_ok (sendEach_apply h),
    Server.copies, visible_of_some hcl]
  cases b with
  | false => rfl
  | true =>
    have hcl : ({ s with trace := (cl.visibleClients.map (s.copy size)).reverse ++ s.trace } :
      Server).heap c = some cl := hcl
    exact sendPacket_of_some hcl size

/-- Where the list holds nobody twice and not the client itself, everyone gets one copy. -/
theorem count_copies (hs : (s.visible c).Nodup ∧ c ∉ s.visible c) (p : Ptr) :
    (s.copies c size b).count (s.copy size p) =
      if p ∈ s.visible c ∨ b = true ∧ p = c then 1 else 0 := by
  have hlist : (((s.visible c).map (s.copy size)).reverse).count (s.copy size p) =
      if p ∈ s.visible c then 1 else 0 := by
    rw [List.count_reverse, List.count_map_of_injective _ _ copy_injective, hs.1.count]
  have hself : (if b then [s.copy size c] else []).count (s.copy size p) =
      if b = true ∧ p = c then 1 else 0 := by
    cases b with
    | false => rfl
    | true =>
      rw [if_pos rfl, List.count_singleton, beq_eq_decide]
      by_cases hpc : p = c
      · simp [hpc]
      · simp [hpc, copy_injective.eq_iff, Ne.symm hpc]
  rw [Server.copies, List.count_append, hlist, hself]
  by_cases hp : p ∈ s.visible c
  · have hpc : p ≠ c := fun h => hs.2 (h ▸ hp)
    rw [if_pos hp, if_neg fun h => hpc h.2, if_pos (Or.inl hp)]
  · simp only [hp, if_false, false_or, Nat.add_zero]

theorem delivers_iff (hs : s.Sound) (hc : c ∈ s.clientList) (hseen : SeenOnce s) :
    Delivers s c size b ↔ ∀ p ∈ s.visible c, p ∈ s.clientList := by
  constructor
  · rintro ⟨es, h, -⟩ p hp
    exact (hs.live p).mp ((sendToVisible_ok h).1 p hp)
  · intro h
    refine ⟨s.copies c size b, ?_, ?_, count_copies (hseen c hc)⟩
    · exact sendToVisible_apply ((hs.live c).mpr hc) fun p hp => (hs.live p).mpr (h p hp)
    · intro e he
      rcases List.mem_append.mp he with he | he
      · cases b with
        | false => cases he
        | true => exact ⟨c, List.mem_singleton.mp he⟩
      · obtain ⟨p, -, rfl⟩ := List.mem_map.mp (List.mem_reverse.mp he)
        exact ⟨p, rfl⟩

/-! ## Runs -/

theorem SeenOnce.of_visible (h : SeenOnce s) (hl : t.clientList = s.clientList)
    (hv : t.visible = s.visible) : SeenOnce t := by
  intro c hc
  rw [hl] at hc
  rw [hv]
  exact h c hc

theorem SeenOnce.addUser (h : SeenOnce s) :
    SeenOnce (fin (exec E (.addUser J) s)) := by
  intro c hc
  by_cases hn : c = s.nextPtr
  · rw [visible_of_some (if_pos hn)]
    exact ⟨List.nodup_nil, List.not_mem_nil⟩
  · have hc : c ∈ s.clientList ++ [s.nextPtr] := hc
    have hv : (fin (exec E (.addUser J) s)).visible c = s.visible c := by
      rw [Server.visible, addUser_heap, if_neg hn]
      rfl
    rw [hv]
    exact h c ((List.mem_append.mp hc).resolve_right fun h => hn (List.mem_singleton.mp h))

theorem visible_delete_ne {p : Ptr} (h : p ≠ c) : (s.delete c).visible p = s.visible p := by
  have hheap : (s.delete c).heap p = s.heap p := if_neg h
  unfold Server.visible
  rw [hheap]

theorem SeenOnce.delete (h : SeenOnce s) (hs : s.Sound) (c : Ptr) : SeenOnce (s.delete c) := by
  intro p hp
  obtain ⟨hpc, hp⟩ := hs.nodup.mem_erase_iff.mp hp
  rw [visible_delete_ne hpc]
  exact h p hp

/-- The new list is drawn from the list of all clients, and the client is left out. -/
theorem SeenOnce.look (h : SeenOnce s) (hs : s.Sound) (hc : c ∈ s.clientList)
    (hr : exec E (.visiblityList c J) s = .ok () t) : SeenOnce t := by
  intro p hp
  rw [look_list hc hr] at hp
  by_cases hpc : p = c
  · subst hpc
    rw [look_visible hc hr hs]
    refine ⟨hs.nodup.filter _, fun hself => ?_⟩
    have hshows := List.of_mem_filter hself
    unfold Server.shows at hshows
    split at hshows
    · simp at hshows
    · cases hshows
  · rw [look_visible_ne hc hr hpc]
    exact h p hp

theorem SeenOnce.step (h : SeenOnce s) (hs : s.Sound) (i : Step) : SeenOnce (fin (exec E i s)) := by
  cases i with
  | addUser J => exact h.addUser
  | disconnectClient c =>
    rw [exec_disconnectClient hs]
    split
    · exact h.delete hs c
    · exact h
  | packet c P J =>
    by_cases hc : c ∈ s.clientList
    · exact h.of_visible (congrArg (·.2.1) (callOf_packet J P).rel.1)
        (visible_of_listsView lists_packet)
    · rw [exec, connected_apply, if_neg hc]
      exact h
  | visiblityList c J =>
    by_cases hc : c ∈ s.clientList
    · cases hr : exec E (.visiblityList c J) s with
      | ok u t => exact h.look hs hc hr
      | error e t =>
        have hlist := (callOf_visiblityList (E := E) (c := c) (s := s) J).rel.1
        rw [hr] at hlist
        exact h.of_visible (congrArg (·.2.1) hlist)
          (visible_of_listsView (lists_visiblityList_error hr))
    · rw [exec, connected_apply, if_neg hc]
      exact h

/-- **Who is in sight gets one copy.** In every state of every run no list holds its client or
another one twice, and a packet sent with `SendToVisible` reaches each client in the list once
and nobody else just when all clients in the list are still connected. -/
theorem sendToVisible_once_iff {s0 : Server} (h : s0.Fresh) (is : List Step) :
    Always (exec E) (fun s => SeenOnce s ∧ ∀ c ∈ s.clientList, ∀ D size dothisclient,
      Delivers { s with packet := D } c size dothisclient ↔
        ∀ p ∈ s.visible c, p ∈ s.clientList) s0 is := by
  have h0 : SeenOnce s0 := fun c hc => by simp [h.clientList] at hc
  have hrun : Always (exec E) (fun s => s.Sound ∧ SeenOnce s) s0 is :=
    always_of_along (C := fun _ _ => True) (fun s i hs _ => ⟨hs.1.step i, hs.2.step hs.1 i⟩)
      ⟨h.sound, h0⟩ (along_true _ _)
  refine hrun.mono fun s hs => ⟨hs.2, fun c hc D size b => ?_⟩
  exact delivers_iff (s := { s with packet := D }) ⟨hs.1.live, hs.1.nodup, hs.1.below, hs.1.about⟩
    hc hs.2

theorem sendToVisible_once_iff_seen : Always (exec Env.plain) (fun s => SeenOnce s ∧
    ∀ c ∈ s.clientList, ∀ D size dothisclient, Delivers { s with packet := D } c size dothisclient ↔
      ∀ p ∈ s.visible c, p ∈ s.clientList) (Server.start oneHero) seenLeaves :=
  sendToVisible_once_iff (Server.start_fresh oneHero) seenLeaves

/-- The player whom another one still has in its list has left: a packet for those in sight is
lost in a deleted client. -/
theorem seenLeaves_undelivered :
    let s := fin (run (exec Env.plain) seenLeaves (Server.start oneHero))
    0 ∈ s.clientList ∧ ¬ Delivers s 0 52 true := by
  intro s
  have h : 0 ∈ s.clientList ∧ 1 ∈ s.visible 0 ∧ (s.heap 1).isSome = false := by decide +kernel
  refine ⟨h.1, fun ⟨es, hsend, _⟩ => ?_⟩
  have := (sendToVisible_ok hsend).1 1 h.2.1
  rw [h.2.2] at this
  cases this

end Destiny
