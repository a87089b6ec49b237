import Destiny.Framing
import Destiny.Server.Tokens

/-!
# Moves and teleports

`ObjectMove` stores where the move it sends on ends. `pakGMTele` composes a move and stores
nothing, so the client stays where it was; and it gives the client's `x` for its `y`.
-/

namespace Destiny

open Text Sql Prog

deriving instance DecidableEq for FPoint

/-- The coordinates of a `telexy` command. -/
def Packet.telexy (P : Packet) : Option (Int × Int) :=
  match P.args (ascii "telexy") 2 with
  | some [x, y] => some (atoi x, atoi y)
  | _ => none

/-- Where a packet teleports its client to. -/
def Server.teleport (s : Server) (c : Ptr) (P : Packet) : Option (Int × Int) :=
  if P.opcode = 0x0290 then some (1047, 1725)
  else if P.opcode = 0x0334 ∧ 90 ≤ s.level c then P.telexy
  else none

/-- A movement packet leaves its client where it says; one that is not sent on comes from
where the client was. -/
def Tracks (s t : Server) (c : Ptr) (P : Packet) (b : Bytes) : Prop :=
  t.place c = ⟨word b 24, word b 26⟩ ∧
    (P.opcode ≠ 0x0366 → word b 12 = u16 (trunc (s.place c).x) ∧
      word b 14 = u16 (trunc (s.place c).y))

instance (s t : Server) (c : Ptr) (P : Packet) (b : Bytes) : Decidable (Tracks s t c P b) :=
  inferInstanceAs (Decidable (_ ∧ (_ → _ ∧ _)))

variable {E : Env} {J : Junk} {c : Ptr} {s t : Server} {P : Packet} {x y : Int} {r : Bool}

/-! ## Teleports -/

/-- What `pakGMTele` sends for a client at a position. -/
structure TelePacket (from' : FPoint) (x y : Int) (b : Bytes) : Prop where
  opcode : word b 4 = 0x0366
  cx : word b 12 = u16 (trunc from'.x)
  cy : word b 14 = u16 (trunc from'.x)
  dx : word b 24 = u16 x
  dy : word b 26 = u16 y

/-- A step that sends one packet, to at least one client, and moves nobody. -/
structure Shown (Q : Bytes → Prop) (s t : Server) : Prop where
  place : t.place = s.place
  trace : ∃ b, Q b ∧ ∃ es, t.trace = es ++ s.trace ∧
    (∃ e ∈ es, e.plain.map (·.2) = some b) ∧ ∀ e ∈ es, ∀ b', e.plain.map (·.2) = some b' → b' = b

/-- Sends after events that are none. -/
theorem Shown.after {Q : Bytes → Prop} {u : Server} {es : List Event} (h : Shown Q u t)
    (hplace : u.place = s.place) (htrace : u.trace = es ++ s.trace)
    (hes : ∀ e ∈ es, e.plain = none) : Shown Q s t := by
  obtain ⟨b, hb, ds, hds, ⟨e, he, heb⟩, hall⟩ := h.trace
  refine ⟨h.place.trans hplace, b, hb, ds ++ es, ?_, ⟨e, List.mem_append_left _ he, heb⟩, ?_⟩
  · rw [hds, htrace, List.append_assoc]
  · intro e he b' hb'
    rcases List.mem_append.mp he with he | he
    · exact hall e he b' hb'
    · rw [hes e he] at hb'
      cases hb'

theorem Shown.sent {Q : Bytes → Prop} (h : Shown Q s t) :
    ∃ b, Q b ∧ ∀ b', b' ∈ s.sentIn t ↔ b' = b := by
  obtain ⟨b, hb, es, hes, ⟨e, he, heb⟩, hall⟩ := h.trace
  refine ⟨b, hb, fun b' => ?_⟩
  rw [Server.sentIn, since_eq hes, List.mem_filterMap]
  constructor
  · rintro ⟨e', he', hb'⟩
    exact hall e' he' b' hb'
  · rintro rfl
    exact ⟨e, he, heb⟩

/-- The stores of `pakGMTele`. -/
def teleFields (current : FPoint) (clientid : Nat) (x y : Int) : List Write :=
  [addByte 52 0, addWord 0x0366 4, addWord clientid 6, addWord (trunc current.x) 12,
    addWord (trunc current.x) 14, addWord 2 16, addWord 1 20, addWord x 24, addWord y 26] ++
    (List.range 23).map fun i : Nat => addWord 0xcc (28 + i)

theorem telePacket {current : FPoint} {clientid : Nat} {D : Nat → UInt8}
    (h : s.packet = stores (teleFields current clientid x y) D) :
    TelePacket current x y (s.first 52) := by
  have hrun : ∀ i ≤ 26, ∀ w ∈ (List.range 23).map fun i : Nat => addWord 0xcc (28 + i),
      w.clear i 2 ∧ 0 ≤ w.off := by
    intro i hi w hw
    obtain ⟨k, -, rfl⟩ := List.mem_map.mp hw
    constructor
    · right
      show ((i + 2 : Nat) : Int) ≤ 28 + k
      omega
    · show (0 : Int) ≤ 28 + k
      omega
  constructor
  all_goals rw [word_first (by decide), h]
  · refine wordAt_stores 0x0366 [addByte 52 0] ?_
    refine List.forall_mem_append.mpr ⟨?_, hrun 4 (by decide)⟩
    simp [Write.clear, addWord]
  · refine wordAt_stores _ [addByte 52 0, addWord 0x0366 4, addWord _ 6] ?_
    refine List.forall_mem_append.mpr ⟨?_, hrun 12 (by decide)⟩
    simp [Write.clear, addWord]
  · refine wordAt_stores _ [addByte 52 0, addWord 0x0366 4, addWord _ 6, addWord _ 12] ?_
    refine List.forall_mem_append.mpr ⟨?_, hrun 14 (by decide)⟩
    simp [Write.clear, addWord]
  · refine wordAt_stores _ [addByte 52 0, addWord 0x0366 4, addWord _ 6, addWord _ 12, addWord _ 14,
      addWord 2 16, addWord 1 20] ?_
    refine List.forall_mem_append.mpr ⟨?_, hrun 24 (by decide)⟩
    simp [Write.clear, addWord]
  · exact wordAt_stores _ [addByte 52 0, addWord 0x0366 4, addWord _ 6, addWord _ 12, addWord _ 14,
      addWord 2 16, addWord 1 20, addWord x 24] (hrun 26 (by decide))

theorem pakGMTele_ok (h : pakGMTele c x y s = .ok r t) :
    Shown (TelePacket (s.place c) x y) s t := by
  obtain ⟨_, s1, h1, h⟩ := of_bind_ok h
  cases h1
  obtain ⟨cl, s2, h2, h⟩ := of_bind_ok h
  have hcl := (client_ok h2).1
  obtain rfl := (client_ok h2).2.symm
  have hplace : s.place c = cl.playerPosition.current := by
    have hcl : s.heap c = some cl := hcl
    rw [Server.place, hcl]
    rfl
  obtain ⟨_, s3, h3, h⟩ := of_bind_ok h
  obtain ⟨hs3, -⟩ := writes_stores h3
  obtain ⟨_, s4, h4, h⟩ := of_bind_ok h
  obtain ⟨-, rfl⟩ := sendToVisible_ok h4
  cases h
  have hheap : s3.heap = s.heap := by rw [hs3]
  have htrace : s3.trace = s.trace := by rw [hs3]
  have hpacket : s3.packet = stores
      (teleFields cl.playerPosition.current cl.playerSession.clientid x y) fun _ => 0 := by rw [hs3]; rfl
  rw [hplace]
  refine ⟨congrArg (fun h p => ((h p).map (·.playerPosition.current)).getD ⟨0, 0⟩) hheap, s3.first 52, telePacket hpacket, s3.copies c 52 true, ?_, ?_, fun e he b' hb => ?_⟩
  · show s3.copies c 52 true ++ s3.trace = _
    rw [htrace]
  · exact ⟨_, List.mem_cons_self, rfl⟩
  · exact (Option.some.inj ((mem_copies he).symm.trans hb)).symm

/-! ## Commands -/

/-- Not a movement packet. -/
def Still (b : Bytes) : Prop := word b 4 ≠ 0x0366

theorem still_made (b : Bytes) (h : Made (layouts.erase .movement) b) : Still b := by
  obtain ⟨l, hl, -, h4, -⟩ := h
  have hall : ∀ l ∈ layouts.erase .movement, l.opcode ≠ 0x0366 := by decide
  unfold Still
  rw [h4]
  exact hall l hl

theorem keeps_still {x : M Bool} (h : Keeps (sending (Made (layouts.erase .movement))) x) :
    Keeps (sending Still) x :=
  keeps_sending_mono h still_made

/-- The command with its two arguments, or without. -/
theorem telexy_eq {mem : Bytes} {next : Nat} (h : token P.mem 12 = some (ascii "telexy", next, mem)) :
    P.telexy = match tokens 2 mem 28 with
      | some [x, y] => some (atoi x, atoi y)
      | _ => none := by
  rw [Packet.telexy, Packet.args, h]
  dsimp only
  rw [if_pos rfl]

/-- Without the coordinates of a teleport, or the level for it, a command sends no movement. -/
theorem keepsAt_packetCommand_still (h : 90 ≤ s.level c → P.telexy = none) :
    KeepsAt (sending Still) s (packetCommand J c P) := by
  have hmsg := fun f a => keeps_still (keeps_sendServerMsg_made (J := J) (c := c) (by decide) f a)
  refine keepsAt_packetCommand_of (calm_sending.client c) calm_sending.strtok
    fun name next mem l ht => ?_
  by_cases htele : name = ascii "telexy" ∧ ¬ 90 > s.level c
  · obtain ⟨rfl, hlevel⟩ := htele
    have hnone := h (Nat.le_of_not_lt hlevel)
    rw [telexy_eq ht] at hnone
    rw [command, if_neg (by decide), if_pos rfl, if_neg hlevel]
    refine keepsAt_bind (calm_sending.arguments _ _ _) fun o v hv => ?_
    obtain ⟨rfl, -⟩ := arguments_ok hv
    have husage := keeps_bind (hmsg (ascii "Usage:_/telexy_<x>_<y>") []) fun _ =>
      keeps_pure (F := sending Still) true
    generalize tokens 2 mem 28 = o at hnone ⊢
    rcases o with _ | _ | ⟨x, _ | ⟨y, _ | ⟨z, args⟩⟩⟩
    · exact husage v
    · exact husage v
    · exact husage v
    · cases hnone
    · exact husage v
  · exact calm_sending.command hmsg
      (fun mem => keeps_still (keeps_pakGMNotice_made (by decide) mem))
      (fun hname hlevel => absurd ⟨hname, hlevel⟩ htele)
      (fun _ _ _ => keeps_still (keeps_pakGMSpawn_made (by decide) _ _ _))
      (fun _ _ _ _ _ _ _ _ => keeps_still (keeps_pakGMItem_made (by decide) _ _ _ _ _ _ _ _)) _

/-- A teleport by command. -/
theorem packetCommand_tele (h : packetCommand J c P s = .ok r t) (hlevel : 90 ≤ s.level c)
    (htele : P.telexy = some (x, y)) :
    ∃ u r', pakGMTele c x y u = .ok r' t ∧ u.heap = s.heap ∧
      u.trace = .gm c .telexy :: s.trace := by
  have hargs := htele
  unfold Packet.telexy Packet.args at hargs
  cases ht : token P.mem 12 with
  | none =>
    rw [ht] at hargs
    cases hargs
  | some tok =>
    obtain ⟨name, next, mem⟩ := tok
    rw [ht] at hargs
    have hname : name = ascii "telexy" := by
      by_contra hne
      simp [hne] at hargs
    subst hname
    rw [telexy_eq ht] at htele
    obtain ⟨l, h⟩ := packetCommand_ok ht h
    rw [command, if_neg (by decide), if_pos rfl, if_neg (Nat.not_lt.mpr hlevel)] at h
    obtain ⟨o, s1, h1, h⟩ := of_bind_ok h
    obtain ⟨rfl, l', rfl⟩ := arguments_ok h1
    split at htele
    · next a b hab =>
      cases htele
      rw [hab] at h
      obtain ⟨_, s2, h2, h⟩ := of_bind_ok h
      cases h2
      exact ⟨_, r, h, rfl, rfl⟩
    · cases htele

/-! ## Steps -/

theorem place_received (s : Server) (c : Ptr) (l : List Nat) : (s.received c l).place = s.place := by
  funext p
  unfold Server.place Server.received Server.update
  dsimp only
  split
  · rw [Option.map_map]
    rfl
  · rfl

theorem place_of_heap (h : t.heap = s.heap) : t.place = s.place := by
  funext p
  rw [Server.place, h]
  rfl

/-- A packet that teleports its client. -/
theorem dispatch_tele {l : List Nat} (h : dispatch E J c P P.opcode (s.received c l) = .ok r t)
    (htele : s.teleport c P = some (x, y)) : Shown (TelePacket (s.place c) x y) s t := by
  have hplace := place_received s c l
  unfold Server.teleport at htele
  split at htele
  · next ho =>
    cases htele
    rw [ho] at h
    have hshown := pakGMTele_ok (c := c) (x := 1047) (y := 1725) h
    rw [hplace] at hshown
    exact hshown.after hplace (rfl : _ = [] ++ s.trace) (by simp)
  split at htele
  · next ho =>
    rw [ho.1] at h
    have hlevel : 90 ≤ (s.received c l).level c := by
      rw [level_received]
      exact ho.2
    obtain ⟨u, r', hu, hheap, htrace⟩ := packetCommand_tele (c := c) (P := P) h hlevel htele
    have hshown := pakGMTele_ok hu
    have hup := (place_of_heap hheap).trans hplace
    rw [hup] at hshown
    have htrace : u.trace = [.gm c .telexy] ++ s.trace := htrace
    refine hshown.after hup htrace fun e he => ?_
    rw [List.mem_singleton.mp he]
    rfl
  · cases htele

/-- A packet that neither moves nor teleports its client. -/
theorem dispatch_still {l : List Nat} (hmove : P.opcode ≠ 0x0366) (htele : s.teleport c P = none) :
    KeepsAt (sending Still) (s.received c l) (dispatch E J c P P.opcode) := by
  unfold Server.teleport at htele
  split at htele
  · cases htele
  next h290 =>
  refine keeps_dispatch_sending P still_made (fun _ b hb => ?_) (fun ho => ?_)
    fun ho => absurd ho h290
  · unfold Still
    rw [hb]
    exact hmove
  · refine keepsAt_packetCommand_still fun hlevel => ?_
    rw [level_received] at hlevel
    rwa [if_pos ⟨ho, hlevel⟩] at htele

theorem relay_live {copied sent : Nat} (h : relay c P copied sent s = .ok r t) :
    (t.heap c).isSome := by
  obtain ⟨_, s1, h1, h⟩ := of_bind_ok h
  obtain ⟨_, s2, h2, h⟩ := of_bind_ok h
  obtain ⟨_, s3, h3, h⟩ := of_bind_ok h
  obtain ⟨_, s4, h4, h⟩ := of_bind_ok h
  cases h
  have hcl : (s3.heap c).isSome := by
    obtain ⟨cl, s5, h5, -⟩ := of_bind_ok h4
    rw [(client_ok h5).1]
    rfl
  obtain ⟨-, rfl⟩ := sendToVisible_ok h4
  exact hcl

/-- A move ends where the packet says. -/
theorem objectMove_place (h : objectMove c P s = .ok r t) :
    t.place c = ⟨word (P.mem.take 52) 24, word (P.mem.take 52) 26⟩ := by
  have hword : ∀ i ≤ 50, word (P.mem.take 52) i = ofLE ((P.mem.drop i).take 2) := fun i hi => by
    rw [word, List.drop_take, List.take_take, Nat.min_eq_left (by omega)]
  rw [hword 24 (by decide), hword 26 (by decide)]
  obtain ⟨_, s1, h1, h⟩ := of_bind_ok h
  obtain ⟨_, s2, h2, h⟩ := of_bind_ok h
  obtain ⟨_, s3, h3, h⟩ := of_bind_ok h
  obtain ⟨dx, s4, h4, h⟩ := of_bind_ok h
  obtain ⟨rfl, -⟩ := rdInt_ok h4
  obtain ⟨dy, s5, h5, h⟩ := of_bind_ok h
  obtain ⟨rfl, -⟩ := rdInt_ok h5
  obtain ⟨_, s6, h6, h⟩ := of_bind_ok h
  obtain ⟨cl, hcl⟩ := Option.isSome_iff_exists.mp (relay_live h6)
  cases h
  show (((s6.update c _).heap c).map _).getD _ = _
  rw [Server.update]
  dsimp only
  rw [if_pos rfl, hcl]
  rfl

/-- **Every movement packet agrees with the server about its client** exactly when a teleport
goes to where the client is, at equal coordinates. -/
theorem tracks_iff (hr : exec E (.packet c P J) s = .ok () t) :
    (∀ b ∈ s.sentIn t, word b 4 = 0x0366 → Tracks s t c P b) ↔
      (c ∈ s.clientList → ∀ x y, s.teleport c P = some (x, y) →
        s.place c = ⟨u16 x, u16 y⟩ ∧ u16 x = u16 y) := by
  by_cases hc : c ∈ s.clientList
  swap
  · rw [exec, connected_apply, if_neg hc] at hr
    cases hr
    have hnone : s.since s = [] := since_eq rfl
    have hsent : s.sentIn s = [] := by rw [Server.sentIn, hnone]; rfl
    rw [hsent]
    exact ⟨fun _ h => absurd h hc, fun _ b hb => absurd hb List.not_mem_nil⟩
  obtain ⟨l, r, hd⟩ := packet_ok hc hr
  rw [imp_iff_right hc]
  by_cases hmove : P.opcode = 0x0366
  · -- the move is sent on, and stored
    have hnone : s.teleport c P = none := by
      rw [Server.teleport, hmove]
      rfl
    rw [hnone]
    rw [hmove] at hd
    have htrace := objectMove_ok (c := c) (P := P) hd
    have hplace := objectMove_place (c := c) (P := P) hd
    have hsince := since_eq (s := s) htrace
    refine iff_of_true (fun b hb _ => ?_) fun _ _ h => (Option.some_ne_none _ h.symm).elim
    rw [Server.sentIn, hsince, List.mem_filterMap] at hb
    obtain ⟨e, he, hb⟩ := hb
    obtain ⟨v, -, rfl⟩ := List.mem_map.mp (List.mem_reverse.mp he)
    cases hb
    exact ⟨hplace, fun h => absurd hmove h⟩
  cases htele : s.teleport c P with
  | none =>
    refine iff_of_true (fun b hb hword => ?_) fun _ _ h => (Option.some_ne_none _ h.symm).elim
    have hstill := (dispatch_still (E := E) (J := J) (l := l) hmove htele).rel
    rw [hd] at hstill
    obtain ⟨es, he, hes⟩ := hstill
    have he : t.trace = es ++ s.trace := he
    rw [Server.sentIn, since_eq he] at hb
    obtain ⟨e, hmem, hplain⟩ := List.mem_filterMap.mp hb
    obtain ⟨⟨c', b'⟩, hpb, rfl⟩ := Option.map_eq_some_iff.mp hplain
    exact absurd hword (hes e hmem c' b' hpb)
  | some xy =>
    obtain ⟨x, y⟩ := xy
    have hshown := dispatch_tele hd htele
    obtain ⟨b, hb, hall⟩ := hshown.sent
    have hu16 : ∀ n : Nat, trunc (n : ℚ) = n := fun n => by simp [trunc]
    have hidem : ∀ x : Int, u16 (u16 x : Nat) = u16 x := fun x => by unfold u16 unsigned; omega
    have htracks : Tracks s t c P b ↔ s.place c = ⟨u16 x, u16 y⟩ ∧ u16 x = u16 y := by
      unfold Tracks
      rw [hshown.place, hb.dx, hb.dy, hb.cx, hb.cy, imp_iff_right hmove]
      refine and_congr_right fun hplace => ?_
      rw [hplace]
      simp only [hu16, hidem, true_and]
    constructor
    · rintro h x' y' ⟨⟩
      exact htracks.mp (h b ((hall b).mpr rfl) hb.opcode)
    · intro h b' hb' _
      rw [(hall b').mp hb']
      exact htracks.mpr (h x y rfl)

/-- A walk to (10, 20). -/
def walk : Packet := frame 0x0366 (List.replicate 12 0 ++ [10, 0, 20, 0] ++ List.replicate 27 0)

def walked : Server := fin (exec Env.plain (.packet 0 walk default) oneClient)

theorem tracks_iff_walk :
    (∀ b ∈ oneClient.sentIn walked, word b 4 = 0x0366 → Tracks oneClient walked 0 walk b) ↔
      (0 ∈ oneClient.clientList → ∀ x y, oneClient.teleport 0 walk = some (x, y) →
        oneClient.place 0 = ⟨u16 x, u16 y⟩ ∧ u16 x = u16 y) :=
  tracks_iff (ok_of_thrown (by decide +kernel))

/-- After a teleport the client is where it walked to, and the packet has its `x` twice. -/
theorem teleport_stays :
    let t := fin (exec Env.plain (.packet 0 (frame 0x0290 []) default) walked)
    thrown (exec Env.plain (.packet 0 (frame 0x0290 []) default) walked) = none ∧
      walked.place 0 = ⟨10, 20⟩ ∧ t.place 0 = ⟨10, 20⟩ ∧
      ((walked.sentIn t).map fun b => (word b 4, word b 12, word b 14, word b 24, word b 26)) =
        [(0x0366, 10, 10, 1047, 1725)] ∧
      ¬ ∀ b ∈ walked.sentIn t, word b 4 = 0x0366 → Tracks walked t 0 (frame 0x0290 []) b := by
  decide +kernel

/-- A step on foot is no command. -/
example : walk.telexy = none := by decide +kernel

end Destiny
