import Destiny.Prog.Blind
import Destiny.Server.Buffer
import Destiny.Server.Calm

/-!
# What the packet buffer held before

All handlers build their packets in one global buffer. One that frees the buffer before it
writes sends the same bytes whatever an earlier packet left there. `GameToCharList` does not
free it: six of the twelve bytes it sends are left over.
-/

namespace Destiny

open Text Sql Prog

/-- The states differ in the packet buffer only. -/
def ButPacket (s s' : Server) : Prop := ∃ D, s' = { s with packet := D }

/-- All that has been handed to `Encrypt`, the newest first. -/
def Server.plains (s : Server) : List (Ptr × Bytes) := s.trace.filterMap Event.plain

/-- A client goes back to its character list. -/
def BackToList (s : Server) : Step → Prop
  | .packet c P _ => c ∈ s.clientList ∧ (s.heap c).isSome ∧ P.opcode = 0x0215 ∧ 8 ≤ P.mem.length
  | _ => False

/-- The bytes of its packet that `GameToCharList` does not write. -/
def unwritten : List Nat := [2, 3, 8, 9, 10, 11]

variable {E : Env} {J : Junk} {c : Ptr} {s : Server} {P : Packet}

/-! ## Operations -/

theorem butPacket_refl (s : Server) : ButPacket s s := ⟨s.packet, rfl⟩

theorem calm_blind : Calm fun _ x => Blind ButPacket x where
  pure := blind_pure
  throw := blind_throw
  bind := blind_bind
  get hf hb := by
    refine blind_get (fun s s' h => ?_) hb
    obtain ⟨D, rfl⟩ := h
    exact (hf s D).symm
  client c := by
    rintro s s' ⟨D, rfl⟩
    unfold client
    dsimp only
    cases s.heap c with
    | none => exact .error _ ⟨D, rfl⟩
    | some cl => exact .ok cl ⟨D, rfl⟩
  query E text := by
    rintro s s' ⟨D, rfl⟩
    exact .ok _ ⟨D, rfl⟩
  newID J i := by
    rintro s s' ⟨D, rfl⟩
    have hfree : ({ s with packet := D } : Server).freeID J.now i = s.freeID J.now i := rfl
    unfold getNewID
    rw [hfree]
    cases s.freeID J.now i with
    | none => exact .ok 0 ⟨D, rfl⟩
    | some j => exact .ok j ⟨D, rfl⟩
  change hf := by
    refine blind_modify fun s s' h => ?_
    obtain ⟨D, rfl⟩ := h
    exact ⟨D, hf.apart s D⟩

/-- **The buffer is freed first.** -/
theorem blind_packetFree {α : Type} (f : Unit → M α) : Blind ButPacket (packetFree >>= f) := by
  refine blind_erase butPacket_refl fun s s' h => ?_
  obtain ⟨D, rfl⟩ := h
  rfl

/-! ## Handlers -/

theorem blind_sendServerMsg (format : Bytes) (args : List Arg) :
    Blind ButPacket (sendServerMsg J c format args) :=
  blind_bind (calm_blind.check _ _) fun _ => blind_packetFree _

theorem blind_sendCharList : Blind ButPacket (sendCharList E J c) := by
  unfold sendCharList
  exact blind_packetFree _

theorem blind_resendCharList : Blind ButPacket (resendCharList E J c) := by
  unfold resendCharList
  exact blind_packetFree _

theorem blind_packetCommand : Blind ButPacket (packetCommand J c P) := by
  refine calm_blind.packetCommand blind_sendServerMsg (fun mem => ?_)
    (fun _ _ => blind_packetFree _) (fun _ _ _ => blind_packetFree _)
    fun _ _ _ _ _ _ _ _ => blind_packetFree _
  refine blind_bind (calm_blind.strtok _ _) fun ⟨token, _, _⟩ => ?_
  cases token with
  | none => exact blind_bind (blind_sendServerMsg _ _) fun _ => blind_pure _
  | some tmp => exact blind_packetFree _

theorem blind_objectMove : Blind ButPacket (objectMove c P) := by
  unfold objectMove
  iterate 5 refine blind_bind (calm_blind.rdInt _ _) fun _ => ?_
  exact blind_bind (blind_packetFree _) fun _ => blind_bind (calm_blind.modifyClient _ _) fun _ =>
    blind_pure _

theorem blind_shopItemBuy : Blind ButPacket (shopItemBuy J c P) := by
  refine blind_bind (calm_blind.client _) fun _ =>
    blind_ite (fun _ => ?_) fun _ => blind_packetFree _
  exact blind_bind (blind_sendServerMsg _ _) fun _ => blind_pure _

theorem blind_sendNPCSellItems : Blind ButPacket (sendNPCSellItems c P) :=
  blind_bind (calm_blind.rdInt _ _) fun _ =>
    calm_blind.get (fun _ _ => rfl) fun _ => blind_packetFree _

theorem blind_visiblityList : Blind ButPacket (visiblityList J c) := by
  refine calm_blind.visiblityList (fun o => ?_) fun i => ?_
  · exact blind_bind (calm_blind.client _) fun _ => blind_packetFree _
  · exact blind_bind (calm_blind.newID _ _) fun _ =>
      blind_bind (calm_blind.change (.of_trace (fun _ _ => rfl) fun _ => rfl)) fun _ =>
        blind_packetFree _

theorem blind_dispatch {opcode : Nat} (h : opcode ≠ 0x0215) :
    Blind ButPacket (dispatch E J c P opcode) := by
  unfold dispatch
  split
  · exact calm_blind.checkLogin blind_sendServerMsg blind_sendCharList
  · exact calm_blind.charCreate blind_sendServerMsg blind_resendCharList
  · exact calm_blind.charDelete blind_sendServerMsg blind_resendCharList
  · exact blind_packetFree _
  · exact blind_objectMove
  · exact blind_pure _
  · exact blind_packetFree _
  · exact blind_packetCommand
  · exact blind_packetFree _
  · exact blind_packetFree _
  · exact blind_pure _
  · exact blind_sendNPCSellItems
  · exact blind_packetFree _
  · exact absurd rfl h
  · exact blind_shopItemBuy
  · exact blind_pure _
  · exact blind_ite (fun _ => blind_bind (calm_blind.rd _ _) fun _ => blind_pure _) fun _ => blind_pure _

/-! ## Steps -/

/-- A packet, unless it goes back to the character list. -/
theorem agree_packet (h : ¬ BackToList s (.packet c P J)) (D : Nat → UInt8) :
    Agree ButPacket (exec E (.packet c P J) s) (exec E (.packet c P J) { s with packet := D }) := by
  rw [exec, connected_apply, connected_apply]
  dsimp only
  split
  swap
  · exact .ok _ ⟨D, rfl⟩
  next hc =>
  refine Agree.bind (calm_blind.modifyClient c _ _ _ ⟨D, rfl⟩) fun _ t t' ht _ hr => ?_
  cases ht
  refine Agree.bind ?_ fun b t t' _ _ hr => .ok _ hr
  refine Agree.bind (calm_blind.rdInt 4 2 _ _ hr) fun op t t' ht _ hr => ?_
  obtain ⟨rfl, rfl⟩ := rdInt_ok ht
  refine Agree.bind (calm_blind.rdInt 6 2 _ _ hr) fun _ t t' ht ht' hr => ?_
  obtain ⟨-, rfl⟩ := rdInt_ok ht
  by_cases hop : P.opcode = 0x0215
  · -- the client is gone
    have hmem : 8 ≤ P.mem.length := by
      obtain ⟨b, u, hu, -⟩ := of_bind_ok ht
      exact rd_mapped hu
    have hgone : s.heap c = none := by
      rw [← Option.not_isSome_iff_eq_none]
      exact fun hlive => h ⟨hc, hlive, hop, hmem⟩
    obtain ⟨D', rfl⟩ := hr
    rw [show ofLE ((P.mem.drop 4).take 2) = _ from hop]
    refine Agree.bind (calm_blind.client c _ _ ⟨D', rfl⟩) fun cl t _ ht _ _ => ?_
    have hcl := (client_ok ht).1
    simp [Server.update, hgone] at hcl
  · exact blind_dispatch hop _ _ hr

theorem agree_step {i : Step} (h : ¬ BackToList s i) (D : Nat → UInt8) :
    Agree ButPacket (exec E i s) (exec E i { s with packet := D }) := by
  cases i with
  | addUser J => exact .ok _ ⟨D, rfl⟩
  | disconnectClient c =>
    rw [exec, connected_apply, connected_apply]
    dsimp only
    split
    · have hdelete : Unsent (Server.delete · c) := .of_trace (fun _ _ => rfl) fun _ => rfl
      exact blind_bind (calm_blind.client c) (fun _ => calm_blind.change hdelete) _ _ ⟨D, rfl⟩
    · exact .ok _ ⟨D, rfl⟩
  | packet c P J => exact agree_packet h D
  | visiblityList c J =>
    rw [exec, connected_apply, connected_apply]
    dsimp only
    split
    · exact blind_bind blind_visiblityList (fun _ => blind_pure _) _ _ ⟨D, rfl⟩
    · exact .ok _ ⟨D, rfl⟩

theorem ButPacket.plains {s s' : Server} (h : ButPacket s s') : s'.plains = s.plains := by
  obtain ⟨D, rfl⟩ := h
  rfl

/-! ## Back to the character list -/

/-- The stores of `GameToCharList`. -/
def backFields (clientid : Nat) : List Write :=
  [addWord 12 0, addWord 0x0116 4, addWord clientid 6]

theorem gameToCharList_apply {cl : CConnClient} (hcl : s.heap c = some cl) :
    gameToCharList c s = .ok true ({ s with
      packet := stores (backFields cl.playerSession.clientid) s.packet }.sent c 12) := by
  rw [gameToCharList, bind_ok (client_of_some hcl)]
  have hin : ∀ w ∈ backFields cl.playerSession.clientid, w.inBounds = true := by
    simp [backFields, Write.inBounds, addWord]
  have hws := writes_apply hin s
  refine (bind_ok hws).trans ?_
  have hsend := sendPacket_of_some
    (s := { s with packet := stores (backFields cl.playerSession.clientid) s.packet }) hcl 12
  exact bind_ok hsend

theorem back_plains {cl : CConnClient} (hc : c ∈ s.clientList) (hcl : s.heap c = some cl)
    (hop : P.opcode = 0x0215) (hmem : 8 ≤ P.mem.length) :
    (fin (exec E (.packet c P J) s)).plains =
      (c, (List.range 12).map (stores (backFields cl.playerSession.clientid) s.packet)) ::
        s.plains := by
  have hheap : (s.dispatched c).heap c = some { cl with recvpkts := cl.recvpkts + 1 } := by
    rw [Server.dispatched, s.received_heap c, hcl]
    rfl
  have hback := gameToCharList_apply hheap
  rw [exec_packet hc hmem, hop, bind_ok (x := dispatch E J c P 0x0215) hback]
  rfl

/-- Six of the twelve bytes are the ones the buffer held before. -/
theorem backFields_eq_iff (clientid : Nat) (D D' : Nat → UInt8) :
    (List.range 12).map (stores (backFields clientid) D) =
      (List.range 12).map (stores (backFields clientid) D') ↔ ∀ k ∈ unwritten, D k = D' k := by
  have hrange : List.range 12 = [0, 1, 2, 3, 4, 5, 6, 7, 8, 9, 10, 11] := rfl
  have hstores : ∀ D : Nat → UInt8, (List.range 12).map (stores (backFields clientid) D) =
      leBytes 2 12 ++ [D 2, D 3] ++ leBytes 2 0x0116 ++ leBytes 2 clientid ++
        [D 8, D 9, D 10, D 11] := by
    intro D
    rw [hrange]
    rfl
  rw [hstores, hstores]
  simp [unwritten]

/-- What a step sends does not depend on what the buffer held before, unless the step goes
back to the character list and the six bytes left over differ. -/
theorem plains_eq_iff (E : Env) (s : Server) (i : Step) (D D' : Nat → UInt8) :
    (fin (exec E i { s with packet := D })).plains =
        (fin (exec E i { s with packet := D' })).plains ↔
      (BackToList s i → ∀ k ∈ unwritten, D k = D' k) := by
  by_cases h : BackToList s i
  · rw [forall_prop_of_true h]
    cases i with
    | addUser J => cases h
    | disconnectClient c => cases h
    | visiblityList c J => cases h
    | packet c P J =>
      obtain ⟨hc, hlive, hop, hmem⟩ := h
      obtain ⟨cl, hcl⟩ := Option.isSome_iff_exists.mp hlive
      have hD := fun D => back_plains (E := E) (J := J) (s := { s with packet := D }) hc hcl hop hmem
      rw [hD D, hD D', ← backFields_eq_iff cl.playerSession.clientid]
      simp [Server.plains]
  · refine iff_of_true ?_ fun hback => absurd hback h
    exact (agree_step h D).fin.plains.trans (agree_step h D').fin.plains.symm

/-! ## A packet for another client -/

def back : Step := .packet 0 (frame 0x0215 []) default

/-- Client 1 is sent a packet of its own making. -/
def oneInventory (b : UInt8) : List Step :=
  [.addUser default, .addUser default,
    .packet 1 ⟨leBytes 2 21 ++ [b, b] ++ leBytes 2 0x0376 ++ List.replicate 15 b, []⟩ default]

/-- What the steps leave, on a server without accounts. -/
def left (is : List Step) : Server := fin (run (exec Env.plain) is (Server.start (Db.empty schema)))

/-- Client 0 goes back to its list and is sent what client 1 was sent before. -/
theorem back_leaks :
    thrown (run (exec Env.plain) (oneInventory 7 ++ [back]) (Server.start (Db.empty schema))) =
      none ∧
    (left (oneInventory 7 ++ [back])).plains.head? = some (0, [12, 0, 7, 7, 22, 1, 0, 0, 7, 7, 7, 7]) ∧
    ¬ ∀ D D', (fin (exec Env.plain back { left (oneInventory 7) with packet := D })).plains =
      (fin (exec Env.plain back { left (oneInventory 7) with packet := D' })).plains := by
  refine ⟨by decide +kernel, by decide +kernel, fun h => ?_⟩
  have hsame := h (left (oneInventory 7)).packet fun _ => 0
  revert hsame
  decide +kernel

end Destiny
