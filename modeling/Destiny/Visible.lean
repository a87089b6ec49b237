import Destiny.Server.Reach
import Destiny.Server.Sight

/-!
# What clients see

`VisibleClients` holds pointers. `VisiblityList` fills it from `ClientList`, and no packet
changes it, but `DisconnectClient` deletes a client without taking it out of the lists of
the others. The lists hold connected clients only as long as no client leaves that another
one still has in its list, and that long no handler touches a deleted client.
-/

namespace Destiny

open Text Sql Prog

/-- Every client in a connected client's `VisibleClients` is connected. -/
def NoDangling (s : Server) : Prop := ∀ c ∈ s.clientList, ∀ p ∈ s.visible c, p ∈ s.clientList

instance (s : Server) : Decidable (NoDangling s) :=
  inferInstanceAs (Decidable (∀ c ∈ s.clientList, ∀ p ∈ s.visible c, p ∈ s.clientList))

/-- No client leaves while another connected client has it in its `VisibleClients`. -/
def LeavesUnseen (s : Server) : Step → Prop
  | .disconnectClient c => c ∈ s.clientList → ∀ p ∈ s.clientList, p ≠ c → c ∉ s.visible p
  | _ => True

instance (s : Server) : (i : Step) → Decidable (LeavesUnseen s i)
  | .disconnectClient c =>
    inferInstanceAs (Decidable (c ∈ s.clientList → ∀ p ∈ s.clientList, p ≠ c → c ∉ s.visible p))
  | .addUser _ | .packet .. | .visiblityList .. => .isTrue trivial

variable {E : Env} {J : Junk} {c : Ptr} {s t : Server}

/-! ## Calls on behalf of a client -/

section Call
variable (l : List Ptr)

/-- What a handler relies on: its client, the listed ones and those that clients see exist. -/
structure Linked (c : Ptr) (s : Server) : Prop where
  list : s.clientList = l
  live : ∀ p ∈ l, s.heap p ≠ none
  seen : NoDangling s
  self : c ∈ l

variable {l}

theorem Linked.of_shape (h : Linked l c s) (hs : t.shape = s.shape) (hd : NoDangling t) :
    Linked l c t := by
  have hlive : ∀ p, (t.heap p).isSome = (s.heap p).isSome := congrFun (congrArg Prod.fst hs : _)
  have hlist : t.clientList = s.clientList := congrArg (·.2.1) hs
  refine ⟨hlist.trans h.list, fun p hp => ?_, hd, h.self⟩
  have := h.live p hp
  rw [← Option.isSome_iff_ne_none] at this ⊢
  rwa [hlive p]

variable (l) in
/-- A call while the clients `l` are connected creates and deletes none, keeps their lists
free of dangling pointers, and then touches no deleted client. -/
def linkedCall (c : Ptr) : Frame Fault Server where
  rel s t := t.shape = s.shape ∧ (s.clientList = l → NoDangling s → NoDangling t)
  err s e := Linked l c s → e ≠ .useAfterFree
  refl _ := ⟨rfl, fun _ h => h⟩
  trans := by
    rintro a b d ⟨hab, h1⟩ ⟨hbd, h2⟩
    have hlist : b.clientList = a.clientList := congrArg (·.2.1) hab
    exact ⟨hbd.trans hab, fun hl h => h2 (hlist.trans hl) (h1 hl h)⟩
  err_trans hr he hl := he (hl.of_shape hr.1 (hr.2 hl.list hl.seen))

theorem linkedCall_visible (hs : t.shape = s.shape) (hv : t.visible = s.visible) :
    (linkedCall l c).rel s t := by
  have hlist : t.clientList = s.clientList := congrArg (·.2.1) hs
  refine ⟨hs, fun _ h p hp q hq => ?_⟩
  rw [hlist] at hp ⊢
  rw [hv] at hq
  exact h p hp q hq

theorem linkedCall_update {f : CConnClient → CConnClient}
    (hf : ∀ cl, (f cl).visibleClients = cl.visibleClients) (s : Server) :
    (linkedCall l c).rel s (s.update c f) :=
  linkedCall_visible (s.update_shape c f) (visible_update hf s c)

theorem session_linkedCall (f : CAccount → CAccount) : Session (linkedCall l c) c f := fun s =>
  linkedCall_update (f := fun cl => { cl with playerSession := f cl.playerSession })
    (fun _ => rfl) s

theorem derefs_linkedCall {p : Ptr} (h : p ∈ l) : Derefs (linkedCall l c) p := fun _ hp hl =>
  absurd hp (hl.live p h)

theorem open_linkedCall (hc : c ∈ l) : Open (linkedCall l c) c where
  packet _ _ := linkedCall_visible rfl rfl
  calls _ := linkedCall_visible rfl rfl
  send _ _ _ _ := linkedCall_visible rfl rfl
  fault _ _ hu _ _ := hu
  derefs := derefs_linkedCall hc
  visible s cl hcl p hp hn hl := by
    have hp : p ∈ s.clientList := hl.seen c (hl.list ▸ hc) p (by rwa [visible_of_some hcl])
    exact absurd hn (hl.live p (hl.list ▸ hp))
  listed _ p hp hn hl := absurd hn (hl.live p (hl.list ▸ hp))
  reads _ _ := linkedCall_visible rfl rfl
  npcId _ _ := linkedCall_visible rfl rfl
  body s _ hf := linkedCall_update (fun cl => CConnClient.clients_of_sight (hf cl).1) s
  data _ _ := linkedCall_visible rfl rfl
  ids _ _ _ _ _ := linkedCall_visible rfl rfl
  moves s _ hf := linkedCall_update (fun cl => CConnClient.clients_of_sight (hf cl)) s
  lists := ⟨fun _ => linkedCall_visible rfl rfl, fun _ _ => linkedCall_visible rfl rfl,
    fun _ _ => by decide⟩

theorem linkedCall_packet (hc : c ∈ l) (P : Packet) :
    KeepsAt (linkedCall l c) s (exec E (.packet c P J)) := by
  have hF := open_linkedCall hc
  exact hF.free.exec_packet session_linkedCall (fun _ _ _ => linkedCall_visible rfl rfl)
    (fun _ _ _ => linkedCall_visible rfl rfl) P fun _ => hF.moves

/-- A list of connected clients is one without dangling pointers. -/
theorem linkedCall_see {f : CConnClient → CConnClient} {new : List Ptr} (hn : new ⊆ l)
    (hf : ∀ cl, (f cl).visibleClients = new) (s : Server) :
    (linkedCall l c).rel s (s.update c f) := by
  refine ⟨s.update_shape c f, fun hl h p hp q hq => ?_⟩
  by_cases hpc : p = c
  · subst hpc
    cases hs : s.heap p with
    | none => simp [Server.visible, Server.update, hs] at hq
    | some cl =>
      have hq : q ∈ new := by simpa [Server.visible, Server.update, hs, hf] using hq
      exact hl ▸ hn hq
  · exact h p hp q (by simpa [Server.visible, Server.update, hpc] using hq)

theorem linkedCall_visiblityList (hc : c ∈ s.clientList) :
    KeepsAt (linkedCall s.clientList c) s (exec E (.visiblityList c J)) := by
  have hF := open_linkedCall hc
  have hB := hF.toBasic
  refine keepsAt_bind (keeps_get s) fun _ u hu => ?_
  cases hu
  rw [if_pos hc]
  refine keepsAt_bind (keepsAt_bind (keeps_client hF.derefs s) fun this u hu => ?_)
    fun _ t _ => keeps_pure _ t
  obtain rfl := (client_ok hu).2.symm
  have hthis := (client_ok hu).1
  refine keepsAt_bind (keeps_get s) fun _ u hu => ?_
  cases hu
  have hd : ∀ p ∈ s.clientList, Derefs (linkedCall s.clientList c) p :=
    fun _ hp => derefs_linkedCall hp
  have hs : Spawns (linkedCall s.clientList c) c :=
    ⟨fun _ _ => linkedCall_visible rfl rfl, fun _ _ _ => linkedCall_visible rfl rfl⟩
  refine keepsAt_bind (keeps_visiblityClients hB hF.derefs hs _ hd s) fun new t ht => ?_
  have hnew : new ⊆ s.clientList := by
    rw [(visiblityClients_ok hthis ht).list]
    exact List.filter_sublist.subset
  refine keeps_bind (keeps_visiblityNPCs hB hF.derefs hs hF.ids
    (fun _ _ => linkedCall_visible rfl rfl) _ _) (fun npcs => ?_) t
  exact keeps_bind (keeps_modify fun s => linkedCall_see hnew (fun _ => rfl) s) fun _ =>
    keeps_pure _

end Call

/-! ## Runs -/

theorem Linked.of_sound (h : s.Sound) (hd : NoDangling s) (hc : c ∈ s.clientList) :
    Linked s.clientList c s where
  list := rfl
  live _ hp := Option.isSome_iff_ne_none.mp ((h.live _).mpr hp)
  seen := hd
  self := hc

theorem NoDangling.addUser (h : NoDangling s) : NoDangling (fin (exec E (.addUser J) s)) := by
  intro p hp q hq
  have hp : p ∈ s.clientList ++ [s.nextPtr] := hp
  change q ∈ s.clientList ++ [s.nextPtr]
  by_cases hpn : p = s.nextPtr
  · have hq : q ∈ (fin (exec E (.addUser J) s)).visible p := hq
    rw [visible_of_some (if_pos hpn)] at hq
    cases hq
  · have hq : q ∈ s.visible p := by
      simpa only [Server.visible, addUser_heap, if_neg hpn] using hq
    refine List.mem_append_left _ (h p ?_ q hq)
    simpa [hpn] using hp

theorem noDangling_delete (h : s.Sound) (hd : NoDangling s) (c : Ptr) :
    NoDangling (s.delete c) ↔ ∀ p ∈ s.clientList, p ≠ c → c ∉ s.visible p := by
  have hvis : ∀ p, p ≠ c → (s.delete c).visible p = s.visible p := fun p hp => by
    simp [Server.visible, Server.delete, hp]
  have hmem : ∀ p, p ∈ (s.delete c).clientList ↔ p ≠ c ∧ p ∈ s.clientList := fun p =>
    h.nodup.mem_erase_iff
  refine ⟨fun hn p hp hpc hcp => ?_, fun hu p hp q hq => ?_⟩
  · have := hn p ((hmem p).mpr ⟨hpc, hp⟩) c (by rwa [hvis p hpc])
    exact ((hmem c).mp this).1 rfl
  · obtain ⟨hpc, hp⟩ := (hmem p).mp hp
    rw [hvis p hpc] at hq
    refine (hmem q).mpr ⟨fun e => hu p hp hpc (e ▸ hq), hd p hp q hq⟩

/-- A step keeps the lists free of dangling pointers just when nobody leaves seen. -/
theorem noDangling_step (h : s.Sound) (hd : NoDangling s) (i : Step) :
    NoDangling (fin (exec E i s)) ↔ LeavesUnseen s i := by
  cases i with
  | addUser J => exact iff_of_true hd.addUser trivial
  | disconnectClient c =>
    rw [exec_disconnectClient h, LeavesUnseen]
    split
    · next hc => exact (noDangling_delete h hd c).trans ⟨fun hu _ => hu, fun hu => hu hc⟩
    · next hc => exact iff_of_true hd fun hc' => absurd hc' hc
  | packet c P J =>
    refine iff_of_true ?_ trivial
    by_cases hc : c ∈ s.clientList
    · exact (linkedCall_packet hc P).rel.2 rfl hd
    · rw [exec, connected_apply, if_neg hc]
      exact hd
  | visiblityList c J =>
    refine iff_of_true ?_ trivial
    by_cases hc : c ∈ s.clientList
    · exact (linkedCall_visiblityList hc).rel.2 rfl hd
    · rw [exec, connected_apply, if_neg hc]
      exact hd

/-- A step that finds no dangling pointer touches no deleted client. -/
theorem noFault_step (h : s.Sound) (hd : NoDangling s) {i : Step} {e : Fault}
    (hr : exec E i s = .error e t) : e ≠ .useAfterFree := by
  cases i with
  | addUser J => cases hr
  | disconnectClient c => rw [exec_disconnectClient h] at hr; cases hr
  | packet c P J =>
    by_cases hc : c ∈ s.clientList
    · exact (linkedCall_packet hc P).err hr (.of_sound h hd hc)
    · rw [exec, connected_apply, if_neg hc] at hr
      cases hr
  | visiblityList c J =>
    by_cases hc : c ∈ s.clientList
    · exact (linkedCall_visiblityList hc).err hr (.of_sound h hd hc)
    · rw [exec, connected_apply, if_neg hc] at hr
      cases hr

/-- **What clients see is connected** in every state of a run just when no client leaves
while another one has it in its list; and then no step touches a deleted client. -/
theorem noDangling_iff_leavesUnseen {s0 : Server} (h : s0.Fresh) (is : List Step) :
    (Always (exec E) NoDangling s0 is ↔ Along (exec E) LeavesUnseen s0 is) ∧
      (Along (exec E) LeavesUnseen s0 is → ∀ s', run (exec E) is s0 ≠ .error .useAfterFree s') := by
  have hd : NoDangling s0 := fun p hp => by simp [h.clientList] at hp
  refine ⟨always_iff_along (fun s i hs => hs.step i) (fun s i hs hd => noDangling_step hs hd i)
    h.sound hd, fun hu s' hr => ?_⟩
  have hstep : ∀ s i, s.Sound ∧ NoDangling s → LeavesUnseen s i →
      (fin (exec E i s)).Sound ∧ NoDangling (fin (exec E i s)) := fun s i hs hc =>
    ⟨hs.1.step i, (noDangling_step hs.1 hs.2 i).2 hc⟩
  exact run_error (P := (· ≠ .useAfterFree)) hstep
    (fun s i e s' hs _ he => noFault_step hs.1 hs.2 he) ⟨h.sound, hd⟩ hu hr rfl

/-- A move to a place. -/
def moveFrame (x y : Nat) : Packet :=
  frame 0x0366 (List.replicate 12 0 ++ leBytes 2 x ++ leBytes 2 y ++ List.replicate 25 0)

/-- Two players enter the world at one place. -/
def twoPlayers : List Step :=
  [.addUser {}, .addUser {}, .packet 0 worldFrame {}, .packet 1 worldFrame {}]

/-- Two players enter the world as one character, the first sees the second, and the second
leaves. -/
def seenLeaves : List Step :=
  [.addUser {}, .addUser {}, .packet 0 worldFrame {}, .packet 1 worldFrame {},
    .visiblityList 0 {}, .disconnectClient 1]

/-- One character, of the account without a name. -/
def oneHero : Database := withChar (Db.empty schema) (ascii "hero") []

theorem noDangling_iff_leavesUnseen_unseen :
    Always (exec Env.plain) NoDangling (Server.start oneHero)
      [.addUser {}, .addUser {}, .visiblityList 0 {}, .disconnectClient 1] :=
  (noDangling_iff_leavesUnseen (Server.start_fresh oneHero) _).1.2 (by decide +kernel)

theorem seenLeaves_dangling :
    ¬ Always (exec Env.plain) NoDangling (Server.start oneHero) seenLeaves ∧
      thrown (run (exec Env.plain) (seenLeaves ++ [.packet 0 (frame 0x0290 []) {}])
        (Server.start oneHero)) = some .useAfterFree := by
  decide +kernel

end Destiny
