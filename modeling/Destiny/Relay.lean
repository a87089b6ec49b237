import Destiny.Framing

/-!
# Whom a relayed packet is from

`ObjectMove`, `SendChat` and `PlayerAttack` send on the bytes they received, the sender's id
among them. `PacketControl` and `ObjectMove` read that id and drop it, so a relayed packet names
whom the sender chose: it carries the sender's own id just when the packet received does, or
nobody gets it.
-/

namespace Destiny

open Text Sql Prog

/-! ## Ids that are relayed -/

/-- How many bytes the handler of a relayed packet copies. -/
def relayedBytes : Nat → Option Nat
  | 0x0366 => some 53
  | 0x0333 => some 109
  | 0x039d => some 96
  | _ => none

/-- What a client with an id has relayed carries that id, and no packet that names another is
relayed as from the other. -/
def CarriesOwn (E : Env) (s : Server) : Step → Prop
  | .packet c P J => c ∈ s.clientList → (relayedBytes P.opcode).isSome → ∀ a ∈ s.session c,
    a.clientid ≠ 0 → ∀ b ∈ s.sentIn (fin (exec E (.packet c P J) s)),
      word b 6 = a.clientid ∧ (word P.mem 6 ≠ a.clientid → word b 6 ≠ word P.mem 6)
  | .addUser _ | .disconnectClient _ | .visiblityList .. => True

/-- A packet that is relayed to somebody: the first client in the list exists, and the bytes
that are copied are mapped. -/
def Heard (s : Server) (c : Ptr) (P : Packet) : Prop :=
  (∃ n ∈ relayedBytes P.opcode, n ≤ P.mem.length) ∧
    ∃ p ∈ (s.visible c).head?, (s.heap p).isSome = true

/-- A packet that is relayed to somebody names its sender. -/
def NamesSelf (s : Server) : Step → Prop
  | .packet c P _ => c ∈ s.clientList → ∀ a ∈ s.session c, a.clientid ≠ 0 → Heard s c P →
    word P.mem 6 = a.clientid
  | .addUser _ | .disconnectClient _ | .visiblityList .. => True

instance (E : Env) (s : Server) : (i : Step) → Decidable (CarriesOwn E s i)
  | .packet c P J => inferInstanceAs (Decidable (_ → _ → ∀ a ∈ s.session c, _ → ∀ b ∈ _, _))
  | .addUser _ | .disconnectClient _ | .visiblityList .. => .isTrue trivial

instance (s : Server) (c : Ptr) (P : Packet) : Decidable (Heard s c P) :=
  inferInstanceAs (Decidable ((∃ n ∈ relayedBytes P.opcode, _) ∧ ∃ p ∈ (s.visible c).head?, _))

instance (s : Server) : (i : Step) → Decidable (NamesSelf s i)
  | .packet c P _ => inferInstanceAs (Decidable (_ → ∀ a ∈ s.session c, _ → _ → _))
  | .addUser _ | .disconnectClient _ | .visiblityList .. => .isTrue trivial

variable {E : Env} {J : Junk} {c : Ptr} {s t : Server} {P : Packet} {n : Nat} {ps : List Ptr}

/-! ## What is sent -/

/-- The clients that are sent a relayed packet: those before the first that no longer exists. -/
def Server.reached (s : Server) (ps : List Ptr) : List Ptr := ps.takeWhile fun p => (s.heap p).isSome

theorem sendEach_trace (n : Nat) (ps : List Ptr) (s : Server) :
    (fin (sendEach n ps s)).trace = ((s.reached ps).map (s.copy n)).reverse ++ s.trace := by
  induction ps generalizing s with
  | nil => rfl
  | cons p ps ih =>
    unfold sendEach Server.reached
    cases hp : s.heap p with
    | none =>
      rw [List.takeWhile_cons_of_neg (by simp [hp])]
      have herr : sendPacket p n s = .error .useAfterFree s := bind_error (client_of_none hp)
      rw [bind_error herr]
      rfl
    | some cl =>
      rw [List.takeWhile_cons_of_pos (by simp [hp]), bind_ok (sendPacket_of_some hp n), ih,
        List.map_cons, List.reverse_cons, List.append_assoc]
      rfl

theorem relay_trace {copied sent : Nat} (hn : sent ≤ copied) (hmapped : copied ≤ P.mem.length)
    (hfits : copied ≤ 65355) (s : Server) : (fin (relay c P copied sent s)).trace =
      ((s.reached (s.visible c)).map fun p => Event.send p (P.mem.take sent) s.hash1).reverse ++
        s.trace := by
  let s1 : Server := { s with packet := fun _ => 0, reads := s.reads ++ List.range' 0 copied }
  let s2 : Server :=
    { s1 with packet := stores [addBytes ((P.mem.drop 0).take copied)] s1.packet }
  have h1 : rd P 0 copied { s with packet := fun _ => 0 } = .ok _ s1 := rd_apply (by omega) _
  have h2 : writes [addBytes ((P.mem.drop 0).take copied)] s1 = .ok () s2 := by
    refine writes_apply (fun w hw => ?_) s1
    obtain rfl := List.mem_singleton.mp hw
    simp [Write.inBounds, addBytes]
    omega
  have hrelay : relay c P copied sent s =
      (sendToVisible c sent false >>= fun _ => pure true) s2 := (bind_ok h1).trans (bind_ok h2)
  rw [hrelay, fin_bind_pure]
  unfold sendToVisible
  cases hc : s.heap c with
  | none =>
    rw [bind_error (client_of_none (s := s2) hc), Server.visible, hc]
    rfl
  | some cl =>
    have hsent : ∀ p, s2.copy sent p = .send p (P.mem.take sent) s.hash1 := fun p => by
      show Event.send p _ _ = _
      exact congrArg (Event.send p · s.hash1) (first_addBytes hn hmapped _)
    rw [bind_ok (client_of_some (s := s2) hc), visible_of_some hc]
    show (fin ((sendEach sent cl.visibleClients >>= fun _ => pure ()) s2)).trace = _
    rw [fin_bind_pure, sendEach_trace, funext hsent]
    rfl

theorem rd_short {off : Nat} (h : P.mem.length < off + n) (s : Server) :
    rd P off n s = .error .unmapped { s with reads := s.reads ++ List.range' off n } := by
  have hcheck : check (off + n ≤ P.mem.length) .unmapped
      { s with reads := s.reads ++ List.range' off n } =
        .error .unmapped { s with reads := s.reads ++ List.range' off n } := by
    rw [check, if_neg (by omega)]
    rfl
  have hread : rd P off n s = (check (off + n ≤ P.mem.length) .unmapped >>= fun _ =>
      pure ((P.mem.drop off).take n)) { s with reads := s.reads ++ List.range' off n } := rfl
  rw [hread, bind_error hcheck]

/-- Nothing is relayed of bytes that are not mapped. -/
theorem keeps_relay_unmapped {copied sent : Nat} (h : P.mem.length < copied) :
    Keeps (sending fun _ => False) (relay c P copied sent) := by
  intro s
  refine keepsAt_packetFree ?_
  exact keepsAt_error (bind_error (rd_short (by omega) _)) (sending_of_trace rfl) trivial

theorem keeps_dispatch_unmapped (h : relayedBytes P.opcode = some n) (hn : P.mem.length < n) :
    Keeps (sending fun _ => False) (dispatch E J c P P.opcode) := by
  unfold relayedBytes at h
  split at h <;> cases h
  · next ho =>
    rw [ho]
    show Keeps _ (objectMove c P)
    unfold objectMove
    iterate 5 refine keeps_bind (calm_sending.rdInt _ _) fun _ => ?_
    exact keeps_bind (keeps_relay_unmapped hn) fun _ =>
      keeps_bind (calm_sending.modifyClient _ _) fun _ => keeps_pure _
  · next ho =>
    rw [ho]
    exact keeps_relay_unmapped hn
  · next ho =>
    rw [ho]
    exact keeps_relay_unmapped hn

theorem keeps_packet_unmapped (h : relayedBytes P.opcode = some n) (hn : P.mem.length < n) :
    Keeps (sending fun _ => False) (exec E (.packet c P J)) := by
  refine keeps_bind keeps_get fun s' => keeps_ite (fun _ => ?_) fun _ => keeps_pure _
  refine keeps_bind (calm_sending.modifyClient _ _) fun _ => ?_
  refine keeps_bind (fun s => ?_) fun _ => keeps_pure _
  refine keepsAt_bind (calm_sending.rdInt _ _ s) fun op t ht => ?_
  obtain ⟨rfl, rfl⟩ := rdInt_ok ht
  exact keepsAt_bind (calm_sending.rdInt _ _ _) fun _ t _ => keeps_dispatch_unmapped h hn t

theorem dispatch_trace (h : relayedBytes P.opcode = some n) (hn : n ≤ P.mem.length) (s : Server) :
    ∃ sent, 8 ≤ sent ∧ (fin (dispatch E J c P P.opcode s)).trace =
      ((s.reached (s.visible c)).map fun p => Event.send p (P.mem.take sent) s.hash1).reverse ++
        s.trace := by
  unfold relayedBytes at h
  split at h <;> cases h
  · next ho =>
    rw [ho]
    refine ⟨52, by decide, ?_⟩
    let l := s.reads ++ List.range' 6 2 ++ List.range' 12 2 ++ List.range' 14 2 ++ List.range' 24 2 ++
      List.range' 26 2
    have hmove : objectMove c P s = (relay c P 53 52 >>= fun _ =>
        modifyClient c (fun cl => { cl with playerPosition :=
          ⟨⟨ofLE ((P.mem.drop 24).take 2), ofLE ((P.mem.drop 26).take 2)⟩,
            ⟨ofLE ((P.mem.drop 24).take 2), ofLE ((P.mem.drop 26).take 2)⟩⟩ }) >>= fun _ =>
              pure true) { s with reads := l } := by
      unfold objectMove
      rw [bind_ok (rdInt_apply (by omega) _), bind_ok (rdInt_apply (by omega) _),
        bind_ok (rdInt_apply (by omega) _), bind_ok (rdInt_apply (by omega) _),
        bind_ok (rdInt_apply (by omega) _)]
    show (fin (objectMove c P s)).trace = _
    rw [hmove]
    have hrelay := relay_trace (c := c) (by decide : 52 ≤ 53) hn (by decide) { s with reads := l }
    rw [bind_apply]
    cases e : relay c P 53 52 { s with reads := l } with
    | ok _ u =>
      rw [e] at hrelay
      exact hrelay
    | error _ u =>
      rw [e] at hrelay
      exact hrelay
  · next ho =>
    rw [ho]
    exact ⟨108, by decide, relay_trace (by decide) hn (by decide) s⟩
  · next ho =>
    rw [ho]
    exact ⟨96, by decide, relay_trace (by decide) hn (by decide) s⟩

/-! ## Steps -/

theorem mem_sentIn_of_trace {es : List Event} {b : Bytes} (h : t.trace = es ++ s.trace) :
    b ∈ s.sentIn t ↔ ∃ e ∈ es, e.plain.map (·.2) = some b := by
  rw [Server.sentIn, since_eq h, List.mem_filterMap]

/-- What is sent when a relayed packet is received: the first bytes of the packet, if anybody
hears it. -/
theorem mem_sentIn_relayed (hc : c ∈ s.clientList) (h : relayedBytes P.opcode = some n) :
    ∃ sent, 8 ≤ sent ∧ ∀ b, b ∈ s.sentIn (fin (exec E (.packet c P J) s)) ↔
      Heard s c P ∧ b = P.mem.take sent := by
  have hlong : 8 ≤ n := by
    unfold relayedBytes at h
    split at h <;> cases h <;> decide
  by_cases hn : n ≤ P.mem.length
  · obtain ⟨sent, hsent, htrace⟩ := dispatch_trace (E := E) (J := J) (c := c) h hn (s.dispatched c)
    refine ⟨sent, hsent, fun b => ?_⟩
    have hvis : (s.dispatched c).visible c = s.visible c :=
      congrFun (visible_update (f := fun cl => { cl with recvpkts := cl.recvpkts + 1 })
        (fun _ => rfl) s c) c
    have hlive : ∀ p, ((s.dispatched c).heap p).isSome = (s.heap p).isSome :=
      fun p => s.update_isSome c _ p
    have hreached : (s.dispatched c).reached (s.visible c) = s.reached (s.visible c) := by
      unfold Server.reached
      rw [funext hlive]
    rw [hvis, hreached] at htrace
    have hfin : (fin (exec E (.packet c P J) s)).trace = ((s.reached (s.visible c)).map
        fun p => Event.send p (P.mem.take sent) s.hash1).reverse ++ s.trace := by
      rw [exec_packet hc (by omega), fin_bind_pure]
      exact htrace
    rw [mem_sentIn_of_trace hfin]
    have hheard : Heard s c P ↔ ∃ p, p ∈ s.reached (s.visible c) := by
      unfold Heard Server.reached
      rw [h]
      cases hl : s.visible c with
      | nil => simp
      | cons p ps =>
        cases hp : s.heap p with
        | none => simp [hp]
        | some cl => simp [hp, hn]
    rw [hheard]
    constructor
    · rintro ⟨e, he, hb⟩
      obtain ⟨p, hp, rfl⟩ := List.mem_map.mp (List.mem_reverse.mp he)
      exact ⟨⟨p, hp⟩, (Option.some.inj hb).symm⟩
    · rintro ⟨⟨p, hp⟩, rfl⟩
      exact ⟨_, List.mem_reverse.mpr (List.mem_map_of_mem hp), rfl⟩
  · refine ⟨8, le_refl _, fun b => ?_⟩
    obtain ⟨es, htrace, hes⟩ := (keeps_packet_unmapped (E := E) (J := J) (c := c) h (by omega) s).rel
    rw [mem_sentIn_of_trace htrace]
    constructor
    · rintro ⟨e, he, hb⟩
      obtain ⟨⟨p, b'⟩, hp, -⟩ := Option.map_eq_some_iff.mp hb
      exact (hes e he p b' hp).elim
    · rintro ⟨⟨⟨m, hm, hmem⟩, -⟩, -⟩
      rw [h] at hm
      cases hm
      exact absurd hmem hn

theorem word_take {b : Bytes} {i m : Nat} (h : i + 2 ≤ m) : word (b.take m) i = word b i := by
  unfold word
  rw [List.drop_take, List.take_take, Nat.min_eq_left (by omega)]

theorem carriesOwn_iff_namesSelf (E : Env) (s : Server) (i : Step) :
    CarriesOwn E s i ↔ NamesSelf s i := by
  cases i with
  | packet c P J =>
    constructor
    · intro hown hc a ha hid hheard
      obtain ⟨⟨n, hn, -⟩, -⟩ := id hheard
      obtain ⟨sent, hsent, hmem⟩ := mem_sentIn_relayed (E := E) (J := J) hc hn
      have hrelayed : (relayedBytes P.opcode).isSome = true := Option.isSome_of_mem hn
      have hword := (hown hc hrelayed a ha hid _ ((hmem _).mpr ⟨hheard, rfl⟩)).1
      rwa [word_take hsent] at hword
    · intro hself hc hrelayed a ha hid b hb
      obtain ⟨n, hn⟩ := Option.isSome_iff_exists.mp hrelayed
      obtain ⟨sent, hsent, hmem⟩ := mem_sentIn_relayed (E := E) (J := J) hc hn
      obtain ⟨hheard, rfl⟩ := (hmem b).mp hb
      have hword := hself hc a ha hid hheard
      rw [word_take hsent]
      exact ⟨hword, fun hne => absurd hword hne⟩
  | addUser _ | disconnectClient _ | visiblityList _ _ => exact Iff.rfl

/-- **Relayed packets carry their sender's id** along a run just when every packet that is
relayed to somebody names its sender. -/
theorem carriesOwn_iff (E : Env) (s : Server) (is : List Step) :
    Along (exec E) (CarriesOwn E) s is ↔ Along (exec E) NamesSelf s is := by
  have h : CarriesOwn E = NamesSelf := by
    funext s i
    exact propext (carriesOwn_iff_namesSelf E s i)
  rw [h]

/-- A chat message under an id. -/
def chatAs (id : Nat) : Packet where
  data := leBytes 2 109 ++ [0, 0] ++ leBytes 2 0x0333 ++ leBytes 2 id ++ List.replicate 101 0
  after := []

/-- Two players log in and enter the world, and the first, who sees the second, talks as the
second. -/
def talksAs : List Step :=
  [.addUser {}, .addUser {}, .packet 0 (loginFrame (ascii "bob") (ascii "pw")) { now := 20 },
    .packet 1 (loginFrame (ascii "bob") (ascii "pw")) { now := 20 }, .packet 0 worldFrame {},
    .packet 1 worldFrame {}, .visiblityList 0 {}, .packet 0 (chatAs 2) {}]

theorem talksAs_forged : ¬ Along (exec Env.plain) (CarriesOwn Env.plain)
    (Server.start (oneAccount 0)) talksAs := by
  decide +kernel

end Destiny
