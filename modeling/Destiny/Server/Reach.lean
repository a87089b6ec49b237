import Destiny.Server.Handlers

/-!
# What holds in every reachable state

`Sound` ties the heap to `ClientList`: the clients that exist are the listed ones. Every
step keeps it, whatever the packets and the database.
-/

namespace Destiny

open Text Sql Prog

/-- The clients that exist, the listed ones, and the next name. -/
def Server.shape (s : Server) : (Ptr → Bool) × List Ptr × Ptr :=
  (fun p => (s.heap p).isSome, s.clientList, s.nextPtr)

/-- Events other than sends are about `c`. -/
def ownEvent (c : Ptr) (e : Event) : Prop := ∀ p, e.about = some p → p = c

/-- A call on behalf of `c` creates and deletes no client and logs what `c` does. -/
def callOf (c : Ptr) : Frame Fault Server :=
  (Frame.same Server.shape).both (.log Server.trace (ownEvent c))

structure Server.Sound (s : Server) : Prop where
  live : ∀ p, (s.heap p).isSome ↔ p ∈ s.clientList
  nodup : s.clientList.Nodup
  below : ∀ p ∈ s.clientList, p < s.nextPtr
  about : ∀ e ∈ s.trace, ∀ p, e.about = some p → p < s.nextPtr

theorem Server.update_isSome (s : Server) (c : Ptr) (f : CConnClient → CConnClient) (p : Ptr) :
    ((s.update c f).heap p).isSome = (s.heap p).isSome := by
  simp only [update]
  split <;> simp

theorem Server.update_shape (s : Server) (c : Ptr) (f : CConnClient → CConnClient) :
    (s.update c f).shape = s.shape := by
  simp only [shape, s.update_isSome]
  rfl

variable {E : Env} {c : Ptr} {s : Server}

theorem callOf_quiet {s t : Server} (h1 : t.shape = s.shape) (h2 : t.trace = s.trace) :
    (callOf c).rel s t := ⟨h1, [], h2, by simp⟩

theorem callOf_log {e : Event} (h : e.about = none ∨ e.about = some c) : Logs (callOf c) e :=
  fun s => ⟨rfl, [e], rfl, by
    intro e' he' p hp
    obtain rfl := List.mem_singleton.mp he'
    rcases h with h | h <;> rw [h] at hp <;> cases hp
    rfl⟩

theorem callOf_update (s : Server) (f : CConnClient → CConnClient) :
    (callOf c).rel s (s.update c f) := callOf_quiet (s.update_shape c f) rfl

theorem open_callOf (c : Ptr) : Open (callOf c) c where
  packet _ _ := callOf_quiet rfl rfl
  calls _ := callOf_quiet rfl rfl
  send s _ _ _ := callOf_log (e := .send ..) (.inl rfl) s
  fault _ _ _ _ := ⟨trivial, trivial⟩
  derefs _ _ := ⟨trivial, trivial⟩
  visible _ _ _ _ _ _ := ⟨trivial, trivial⟩
  listed _ _ _ _ := ⟨trivial, trivial⟩
  reads _ _ := callOf_quiet rfl rfl
  npcId _ _ := callOf_quiet rfl rfl
  body s f _ := callOf_update s f
  data _ _ := callOf_quiet rfl rfl
  ids _ _ _ _ _ := callOf_quiet rfl rfl
  moves s f _ := callOf_update s f
  lists := ⟨callOf_log (.inr rfl), fun _ => callOf_log (.inr rfl), fun _ => ⟨trivial, trivial⟩⟩

theorem keeps_checkLogin_callOf (J : Junk) (P : Packet) :
    Keeps (callOf c) (checkLogin E J c P) := by
  have hF := open_callOf c
  refine keeps_bind (keeps_readLogin hF.toBasic hF.derefs hF.reads ?_ P) fun ⟨u, p, cliver⟩ =>
    hF.checkAccount ?_ cliver
  · exact ⟨fun _ _ s => callOf_update s _, fun _ _ _ => callOf_quiet rfl rfl,
      fun _ => callOf_log (.inr rfl)⟩
  · refine ⟨⟨callOf_log (.inr rfl), fun _ s => callOf_update s _, fun s b => ?_⟩,
      fun _ s => callOf_update s _, fun s => callOf_update s _⟩
    exact (callOf c).trans (callOf_update s _) (callOf_log (e := .granted c (atoi b)) (.inr rfl) _)

theorem callOf_packet (J : Junk) (P : Packet) : KeepsAt (callOf c) s (exec E (.packet c P J)) :=
  keepsAt_packet (open_callOf c).toCommon P fun _ _ =>
    (open_callOf c).dispatch P _ (fun _ => keeps_checkLogin_callOf J P _)
      (fun _ => ⟨fun _ s => callOf_update s _, fun s => callOf_update s _,
        fun s => callOf_update s _⟩)
      fun _ _ _ _ _ _ => callOf_log (.inr rfl)

theorem callOf_visiblityList (J : Junk) :
    KeepsAt (callOf c) s (exec E (.visiblityList c J)) :=
  keepsAt_visiblityList (open_callOf c).toBasic (fun _ _ _ => ⟨trivial, trivial⟩)
    ⟨fun _ => callOf_log (.inr rfl), fun _ _ => callOf_log (.inr rfl)⟩
    (fun _ _ _ _ _ => callOf_quiet rfl rfl) (fun _ _ => callOf_quiet rfl rfl)
    fun s f _ => callOf_update s f

/-! ## Every step keeps the server sound -/

/-- Soundness only looks at the shape and at who the events are about. -/
theorem Server.Sound.of_callOf {t : Server} (h : s.Sound) (hc : c ∈ s.clientList)
    (hr : (callOf c).rel s t) : t.Sound := by
  obtain ⟨hshape, es, htrace, hown⟩ := hr
  have hlive : ∀ p, (t.heap p).isSome = (s.heap p).isSome :=
    congrFun (congrArg Prod.fst hshape : _)
  have hlist : t.clientList = s.clientList := congrArg (·.2.1) hshape
  have hnext : t.nextPtr = s.nextPtr := congrArg (·.2.2) hshape
  refine ⟨fun p => ?_, hlist ▸ h.nodup, fun p hp => ?_, fun e he p hp => ?_⟩
  · rw [hlive p, hlist]; exact h.live p
  · rw [hnext]; exact h.below p (hlist ▸ hp)
  · rw [hnext]
    rcases List.mem_append.mp (htrace ▸ he) with he | he
    · rw [hown e he p hp]; exact h.below c hc
    · exact h.about e he p hp

theorem addUser_heap (J : Junk) (p : Ptr) :
    (fin (exec E (.addUser J) s)).heap p =
      if p = s.nextPtr then some { recvpkts := J.recvpkts, items := J.items } else s.heap p := rfl

theorem Server.Sound.addUser (J : Junk) (h : s.Sound) : (fin (exec E (.addUser J) s)).Sound where
  live p := by
    rw [addUser_heap]
    change _ ↔ p ∈ s.clientList ++ [s.nextPtr]
    by_cases hp : p = s.nextPtr
    · simp [hp]
    · simpa [hp] using h.live p
  nodup := by
    refine List.nodup_append.mpr ⟨h.nodup, by simp, fun p hp q hq => ?_⟩
    rw [List.mem_singleton.mp hq]
    exact Nat.ne_of_lt (h.below p hp)
  below p hp := by
    change p < s.nextPtr + 1
    rcases List.mem_append.mp hp with hp | hp
    · exact Nat.lt_succ_of_lt (h.below p hp)
    · rw [List.mem_singleton.mp hp]
      exact Nat.lt_succ_self _
  about e he p hp := Nat.lt_succ_of_lt (h.about e he p hp)

/-- The state a disconnection leaves. -/
theorem exec_disconnectClient (h : s.Sound) (c : Ptr) :
    exec E (.disconnectClient c) s =
      .ok () (if c ∈ s.clientList then s.delete c else s) := by
  rw [exec, connected_apply]
  split
  · next hc =>
    obtain ⟨cl, hcl⟩ := Option.isSome_iff_exists.mp ((h.live c).mpr hc)
    exact bind_ok (client_of_some hcl)
  · rfl

theorem Server.Sound.delete (h : s.Sound) (c : Ptr) : (s.delete c).Sound where
  live p := by
    simp only [Server.delete, h.nodup.mem_erase_iff]
    by_cases hp : p = c
    · simp [hp]
    · simpa [hp] using h.live p
  nodup := h.nodup.erase c
  below p hp := h.below p (List.mem_of_mem_erase hp)
  about := h.about

theorem Server.Sound.step (h : s.Sound) (i : Step) : (fin (exec E i s)).Sound := by
  cases i with
  | addUser J => exact h.addUser J
  | disconnectClient c =>
    rw [exec_disconnectClient h]
    split
    · exact h.delete c
    · exact h
  | packet c P J =>
    by_cases hc : c ∈ s.clientList
    · exact h.of_callOf hc (callOf_packet J P).rel
    · rw [exec, connected_apply, if_neg hc]
      exact h
  | visiblityList c J =>
    by_cases hc : c ∈ s.clientList
    · exact h.of_callOf hc (callOf_visiblityList J).rel
    · rw [exec, connected_apply, if_neg hc]
      exact h

theorem Server.Fresh.sound (h : s.Fresh) : s.Sound where
  live p := by simp [h.heap, h.clientList]
  nodup := by simp [h.clientList]
  below := by simp [h.clientList]
  about := by simp [h.trace]

/-- A step keeps a frame about the tables that packets keep. -/
theorem OfDb.step {F : Frame Fault Server} (hF : OfDb F) (hs : s.Sound) {i : Step}
    (hpacket : ∀ c P J, i = .packet c P J → KeepsAt F s (exec E i)) : KeepsAt F s (exec E i) := by
  cases i with
  | packet c P J => exact hpacket c P J rfl
  | addUser J => exact keepsAt_ok (a := ()) rfl (hF.rel rfl)
  | disconnectClient c =>
    refine keepsAt_ok (exec_disconnectClient hs c) (hF.rel ?_)
    split <;> rfl
  | visiblityList c J =>
    exact keepsAt_visiblityList (hF.ordinary c).toBasic (fun p => (hF.ordinary p).derefs)
      ⟨fun _ _ => hF.rel rfl, fun _ _ _ => hF.rel rfl⟩ (fun _ _ _ _ _ => hF.rel rfl)
      (fun _ _ => hF.rel rfl) fun _ _ _ => hF.rel rfl

end Destiny
