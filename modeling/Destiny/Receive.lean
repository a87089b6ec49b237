import Destiny.Text.Basic
import Mathlib.Algebra.Order.BigOperators.Group.List
import Mathlib.Data.List.Forall2
import Mathlib.Data.List.GetD

/-!
# Receiving

`ReceiveData` zeroes the buffer, and `OnReceivePacket` takes a packet out of what one `recv`
put there. Its loop returns in its first round, and nothing is carried to the next `recv`.
So the packets of a stream are handed on as they were sent just when each arrives in a `recv`
of its own, and does not begin with the word that a client sends before its first packet.
-/

namespace Destiny

open Text

/-- What a call of `OnReceivePacket` does. -/
structure Reception where
  /-- The calls of `PacketControl`, with the size and the decrypted bytes. -/
  calls : List (Nat × Bytes)
  /-- The indices of the receive buffer that are read. -/
  reads : List Nat
  result : Bool

/-- `n` bytes from `P[off]` on. -/
def slice (P : Nat → UInt8) (off n : Nat) : Bytes := (List.range n).map fun i => P (off + i)

/-- The buffer after a `recv` of some bytes, and the memory behind it. -/
def recvBuffer (b : Bytes) (after : Nat → UInt8) : Nat → UInt8 := fun i =>
  if i < 65355 then b.getD i 0 else after i

def c_packet : Nat := 0x1F11F311

/-- Where the first packet begins. -/
def lastbyte (P : Nat → UInt8) : Nat :=
  let i_packet := ofLE (slice P 0 4)
  if c_packet = i_packet then 4 else 0

def onReceivePacket (decrypt : Bytes → Bytes) (packetControl : Nat → Bytes → Bool)
    (P : Nat → UInt8) (PSize : Nat) : Reception :=
  let lastbyte := lastbyte P
  if PSize ≠ lastbyte then
    -- the body of the loop ends in a `return`
    let packet_size := ofLE (slice P lastbyte 2)
    let buff := decrypt (slice P lastbyte packet_size)
    { calls := [(packet_size, buff)]
      reads := List.range' 0 4 ++ List.range' lastbyte 2 ++ List.range' lastbyte packet_size
      result := packetControl packet_size buff }
  else { calls := [], reads := List.range' 0 4, result := true }

/-- A frame begins with its own length. -/
def IsFrame (f : Bytes) : Prop := 2 ≤ f.length ∧ ofLE (f.take 2) = f.length

instance (f : Bytes) : Decidable (IsFrame f) := inferInstanceAs (Decidable (_ ∧ _))

/-- What is received before a client's first packet, if anything. -/
def preamble (sent : Bool) : Bytes := if sent then leBytes 4 c_packet else []

/-- A `recv` of the given bytes. -/
def receive (decrypt : Bytes → Bytes) (packetControl : Nat → Bytes → Bool) (after : Nat → UInt8)
    (b : Bytes) : Reception :=
  onReceivePacket decrypt packetControl (recvBuffer b after) b.length

section
variable {decrypt : Bytes → Bytes} {packetControl : Nat → Bytes → Bool} {after : Nat → UInt8}
  {b f : Bytes} {off n i : Nat}

/-! ## The buffer -/

@[simp] theorem slice_length (P : Nat → UInt8) (off n : Nat) : (slice P off n).length = n := by
  simp [slice]

theorem slice_getD (P : Nat → UInt8) (off : Nat) (h : i < n) :
    (slice P off n).getD i 0 = P (off + i) := by
  simp [slice, h]

/-- What was received is read back. -/
theorem slice_recvBuffer (hb : b.length ≤ 65355) (h : off + n ≤ b.length) :
    slice (recvBuffer b after) off n = (b.drop off).take n := by
  refine List.ext_getElem (by simp; omega) fun i hi hi' => ?_
  have hlt : off + i < 65355 := by simp at hi; omega
  simp only [slice, List.getElem_map, List.getElem_range, recvBuffer, hlt, if_true, List.getElem_take,
    List.getElem_drop]
  rw [List.getD_eq_getElem]

/-- The buffer holds NULs behind what was received. -/
theorem recvBuffer_zero (h : b.length ≤ i) (hi : i < 65355) : recvBuffer b after i = 0 := by
  rw [recvBuffer, if_pos hi, List.getD_eq_default _ _ h]

/-! ## One frame in a `recv` -/

theorem receive_none (h : b.length = lastbyte (recvBuffer b after)) :
    receive decrypt packetControl after b =
      { calls := [], reads := List.range' 0 4, result := true } := by
  simp [receive, onReceivePacket, h]

theorem receive_some {l : Nat} (hl : l = lastbyte (recvBuffer b after)) (h : b.length ≠ l) {z : Nat}
    (hz : z = ofLE (slice (recvBuffer b after) l 2)) :
    receive decrypt packetControl after b =
      { calls := [(z, decrypt (slice (recvBuffer b after) l z))]
        reads := List.range' 0 4 ++ List.range' l 2 ++ List.range' l z
        result := packetControl z (decrypt (slice (recvBuffer b after) l z)) } := by
  subst hl hz
  simp [receive, onReceivePacket, h]

theorem receive_calls_length (decrypt : Bytes → Bytes) (packetControl : Nat → Bytes → Bool)
    (after : Nat → UInt8) (b : Bytes) :
    (receive decrypt packetControl after b).calls.length ≤ 1 := by
  by_cases h : b.length = lastbyte (recvBuffer b after)
  · simp [receive_none h]
  · simp [receive_some rfl h rfl]

/-- A frame behind the preamble, or not to be mistaken for one. -/
theorem receive_frame (hf : IsFrame f) (h4 : 4 ≤ f.length) (sent : Bool)
    (hlen : (preamble sent ++ f).length ≤ 65355) (h : sent = true ∨ ofLE (f.take 4) ≠ c_packet) :
    let off := (preamble sent).length
    receive decrypt packetControl after (preamble sent ++ f) =
      { calls := [(f.length, decrypt f)]
        reads := List.range' 0 4 ++ List.range' off 2 ++ List.range' off f.length
        result := packetControl f.length (decrypt f) } := by
  intro off
  have hfour : slice (recvBuffer (preamble sent ++ f) after) 0 4 = (preamble sent ++ f).take 4 := by
    rw [slice_recvBuffer hlen (by rw [List.length_append]; omega), List.drop_zero]
  have hoff : off = lastbyte (recvBuffer (preamble sent ++ f) after) := by
    rw [lastbyte, hfour]
    cases sent with
    | true => rfl
    | false => exact (if_neg fun he => h.elim nofun fun h => h he.symm).symm
  have htwo : f.length = ofLE (slice (recvBuffer (preamble sent ++ f) after) off 2) := by
    rw [slice_recvBuffer hlen (by rw [List.length_append]; omega), List.drop_left, hf.2]
  have hall : slice (recvBuffer (preamble sent ++ f) after) off f.length = f := by
    rw [slice_recvBuffer hlen (by rw [List.length_append]), List.drop_left, List.take_length]
  have hne : (preamble sent ++ f).length ≠ off := by
    rw [List.length_append]
    omega
  rw [receive_some hoff hne htwo, hall]

/-- A frame that begins like a preamble is not handed on. -/
theorem receive_magic (hf : IsFrame f) (h12 : 12 ≤ f.length) (hlen : f.length ≤ 65355)
    (h : ofLE (f.take 4) = c_packet) :
    (receive id packetControl after f).calls ≠ [(f.length, f)] := by
  intro hcalls
  have hfour : slice (recvBuffer f after) 0 4 = f.take 4 := by
    rw [slice_recvBuffer hlen (by omega), List.drop_zero]
  have hl : 4 = lastbyte (recvBuffer f after) := by
    rw [lastbyte, hfour, h]
    rfl
  rw [receive_some hl (by omega) rfl] at hcalls
  obtain ⟨hz, hslice⟩ := Prod.mk.inj (List.singleton_inj.mp hcalls)
  rw [hz, id] at hslice
  obtain ⟨c0, c1, c2, c3, r, rfl⟩ : ∃ c0 c1 c2 c3 r, f = c0 :: c1 :: c2 :: c3 :: r := by
    match f, h12 with
    | c0 :: c1 :: c2 :: c3 :: r, _ => exact ⟨c0, c1, c2, c3, r, rfl⟩
  have hword : c0.toNat + 256 * (c1.toNat + 256 * (c2.toNat + 256 * c3.toNat)) = 0x1F11F311 := h
  have hsize : c0.toNat + 256 * c1.toNat = (c0 :: c1 :: c2 :: c3 :: r).length := hf.2
  have hbytes : ∀ c : UInt8, c.toNat < 256 := fun c => c.toNat_lt
  have h0 := hbytes c0
  have h1 := hbytes c1
  have hlong : (c0 :: c1 :: c2 :: c3 :: r).length = 62225 := by omega
  -- every byte is the one four places on, and the last four are NULs
  have hzero : ∀ n i, i + n = 62225 → (c0 :: c1 :: c2 :: c3 :: r).getD i 0 = 0 := by
    intro n
    induction n using Nat.strong_induction_on with
    | _ n ih =>
      intro i hi
      by_cases hend : 62225 ≤ i
      · exact List.getD_eq_default _ _ (by omega)
      rw [← hslice, slice_getD _ _ (by omega)]
      by_cases hlast : 62225 ≤ 4 + i
      · exact recvBuffer_zero (by omega) (by omega)
      · rw [recvBuffer, if_pos (by omega)]
        exact ih (n - 4) (by omega) _ (by omega)
  have hc0 : c0 = 0 := hzero 62225 0 rfl
  rw [hc0] at hword
  have : (0 : UInt8).toNat = 0 := rfl
  omega

end

/-! ## Many frames in a `recv` -/

/-- **A `recv` hands on the frames it holds just when it holds one**, and the frame cannot be
mistaken for the preamble. -/
theorem receive_frames_iff (sent : Bool) {frames : List Bytes} (hne : frames ≠ [])
    (hf : ∀ f ∈ frames, IsFrame f ∧ 12 ≤ f.length)
    (hlen : (preamble sent ++ frames.flatten).length ≤ 65355) :
    (∀ decrypt packetControl after, (∀ n b, packetControl n b = true) →
      (receive decrypt packetControl after (preamble sent ++ frames.flatten)).calls =
          frames.map (fun f => (f.length, decrypt f)) ∧
        (receive decrypt packetControl after (preamble sent ++ frames.flatten)).result = true) ↔
      frames.length = 1 ∧ (sent = true ∨ ∀ f ∈ frames, ofLE (f.take 4) ≠ c_packet) := by
  refine ⟨fun h => ?_, fun ⟨hone, h⟩ decrypt packetControl after hpc => ?_⟩
  · have hcalls := fun decrypt => (h decrypt (fun _ _ => true) (fun _ => 0) fun _ _ => rfl).1
    have hone : frames.length = 1 := by
      have hle := receive_calls_length id (fun _ _ => true) (fun _ => 0)
        (preamble sent ++ frames.flatten)
      rw [hcalls, List.length_map] at hle
      have := List.length_pos_of_ne_nil hne
      omega
    refine ⟨hone, ?_⟩
    obtain ⟨f, rfl⟩ := List.length_eq_one_iff.mp hone
    cases sent with
    | true => exact .inl rfl
    | false =>
      refine .inr fun f' hf' hmagic => ?_
      obtain rfl := List.mem_singleton.mp hf'
      obtain ⟨hframe, h12⟩ := hf f' hf'
      have hflat : preamble false ++ [f'].flatten = f' := by simp [preamble]
      have hcall := hcalls id
      rw [hflat] at hcall hlen
      exact receive_magic hframe h12 hlen hmagic hcall
  · obtain ⟨f, rfl⟩ := List.length_eq_one_iff.mp hone
    obtain ⟨hframe, h12⟩ := hf f List.mem_cons_self
    have hflat : [f].flatten = f := by simp
    rw [hflat] at hlen ⊢
    have hmagic := h.imp_right fun h => h f List.mem_cons_self
    rw [receive_frame hframe (by omega) sent hlen hmagic]
    exact ⟨rfl, hpc _ _⟩

/-- A frame of `n` bytes: its length, and bytes of one kind. -/
def plainFrame (n : Nat) (c : UInt8) : Bytes := leBytes 2 n ++ List.replicate (n - 2) c

theorem receive_frames_iff_one :
    (receive id (fun _ _ => true) (fun _ => 0)
        (preamble true ++ [plainFrame 12 7].flatten)).calls =
        [plainFrame 12 7].map (fun f => (f.length, id f)) ∧
      (receive id (fun _ _ => true) (fun _ => 0)
        (preamble true ++ [plainFrame 12 7].flatten)).result = true :=
  (receive_frames_iff true (by decide) (by decide) (by decide)).mpr ⟨rfl, .inl rfl⟩ id _ _
    fun _ _ => rfl

/-- The second of two frames is dropped. -/
theorem receive_two :
    (∀ f ∈ [plainFrame 12 7, plainFrame 12 8], IsFrame f ∧ 12 ≤ f.length) ∧
    (receive id (fun _ _ => true) (fun _ => 0) (plainFrame 12 7 ++ plainFrame 12 8)).calls =
      [(12, plainFrame 12 7)] ∧
    (receive id (fun _ _ => true) (fun _ => 0) (plainFrame 12 7 ++ plainFrame 12 8)).calls ≠
      [plainFrame 12 7, plainFrame 12 8].map fun f => (f.length, id f) := by
  decide +kernel

/-! ## A stream in many `recv`s -/

/-- The pieces that a frame arrives in. -/
def Pieces (f : Bytes) (ps : List Bytes) : Prop :=
  ps.flatten = f ∧ ∀ p ∈ ps, p ≠ [] ∧ p.length ≤ 65355

/-- Numbers bounded one by one that sum up to the bounds. -/
theorem eq_of_sum_eq {α : Type} {g h : α → Nat} {l : List α} (hle : ∀ x ∈ l, g x ≤ h x)
    (hsum : (l.map g).sum = (l.map h).sum) : ∀ x ∈ l, g x = h x := by
  induction l with
  | nil => simp
  | cons y l ih =>
    obtain ⟨hy, hl⟩ := List.forall_mem_cons.mp hle
    have hrest : (l.map g).sum ≤ (l.map h).sum := List.sum_le_sum hl
    simp only [List.map_cons, List.sum_cons] at hsum
    exact List.forall_mem_cons.mpr ⟨by omega, ih hl (by omega)⟩

section
variable {decrypt : Bytes → Bytes} {packetControl : Nat → Bytes → Bool} {after : Nat → UInt8}

/-- The bytes that the calls of one `recv` are given. -/
def Reception.taken (r : Reception) : Nat := (r.calls.map Prod.fst).sum

/-- A `recv` whose reads are in bounds is given no more than it received; and all of that only
as a frame of its own. -/
theorem receive_taken {p : Bytes} (hp : p ≠ []) (hlen : p.length ≤ 65355)
    (hreads : ∀ i ∈ (receive decrypt packetControl after p).reads, i < p.length) :
    (receive decrypt packetControl after p).taken ≤ p.length ∧
      ((receive decrypt packetControl after p).taken = p.length →
        (receive decrypt packetControl after p).calls.length = 1 ∧ 4 ≤ p.length ∧
          ofLE (p.take 4) ≠ c_packet) := by
  have hpos := List.length_pos_of_ne_nil hp
  by_cases hl : p.length = lastbyte (recvBuffer p after)
  · rw [receive_none hl]
    exact ⟨Nat.zero_le _, fun h => absurd h (Nat.ne_of_lt hpos)⟩
  obtain ⟨z, hz⟩ : ∃ z, z = ofLE (slice (recvBuffer p after) (lastbyte (recvBuffer p after)) 2) :=
    ⟨_, rfl⟩
  rw [receive_some rfl hl hz] at hreads ⊢
  simp only [Reception.taken, List.map_cons, List.map_nil, List.sum_cons, List.sum_nil,
    Nat.add_zero, List.length_singleton, true_and]
  simp only [List.mem_append, List.mem_range'_1] at hreads
  have hfour := hreads 3 (.inl (.inl (by omega)))
  have hend : z ≠ 0 → lastbyte (recvBuffer p after) + z ≤ p.length := fun hz0 => by
    have := hreads (lastbyte (recvBuffer p after) + z - 1) (.inr (by omega))
    omega
  refine ⟨by omega, fun hall => ⟨hfour, fun hmagic => ?_⟩⟩
  have hoff : lastbyte (recvBuffer p after) = 4 := by
    have hslice : slice (recvBuffer p after) 0 4 = p.take 4 := by
      rw [slice_recvBuffer hlen (by omega), List.drop_zero]
    rw [lastbyte, hslice, hmagic]
    rfl
  omega

theorem length_pieces {frames : List Bytes} {cuts : List (List Bytes)}
    (hc : List.Forall₂ Pieces frames cuts) :
    (frames.map List.length).sum = (cuts.flatten.map List.length).sum := by
  induction hc with
  | nil => rfl
  | cons h _ ih => simp [ih, ← h.1, List.length_flatten]

theorem pieces_mem {frames : List Bytes} {cuts : List (List Bytes)}
    (hc : List.Forall₂ Pieces frames cuts) : ∀ p ∈ cuts.flatten, p ≠ [] ∧ p.length ≤ 65355 := by
  induction hc with
  | nil => simp
  | cons h _ ih =>
    rw [List.flatten_cons]
    exact List.forall_mem_append.mpr ⟨h.2, ih⟩

/-- A frame arrives in one piece at least. -/
theorem length_le_pieces {frames : List Bytes} {cuts : List (List Bytes)}
    (hf : ∀ f ∈ frames, IsFrame f) (hc : List.Forall₂ Pieces frames cuts) :
    frames.length ≤ cuts.flatten.length := by
  induction hc with
  | nil => simp
  | @cons f ps _ _ h _ ih =>
    obtain ⟨hframe, hf⟩ := List.forall_mem_cons.mp hf
    have ih := ih hf
    have hps : ps ≠ [] := by
      rintro rfl
      have := hframe.1
      rw [← h.1] at this
      simp at this
    have := List.length_pos_of_ne_nil hps
    simp only [List.length_cons, List.flatten_cons, List.length_append]
    omega

/-- As many pieces as frames: each frame is a piece. -/
theorem whole_pieces {frames : List Bytes} {cuts : List (List Bytes)} (hf : ∀ f ∈ frames, IsFrame f)
    (hc : List.Forall₂ Pieces frames cuts) (h : cuts.flatten.length = frames.length) :
    cuts = frames.map fun f => [f] := by
  induction hc with
  | nil => rfl
  | @cons f ps frames cuts hfps hc ih =>
    have hone := length_le_pieces (List.forall_mem_singleton.mpr (List.forall_mem_cons.mp hf).1)
      (.cons hfps .nil)
    have hrest := length_le_pieces (List.forall_mem_cons.mp hf).2 hc
    simp only [List.length_cons, List.flatten_cons, List.length_append, List.flatten_nil,
      List.append_nil, List.length_nil] at h hone
    have hcut : cuts.flatten.length = frames.length := by omega
    obtain ⟨p, rfl⟩ := List.length_eq_one_iff.mp (show ps.length = 1 by omega)
    have hp : p = f := by simpa using hfps.1
    rw [List.map_cons, hp, ih (List.forall_mem_cons.mp hf).2 hcut]

theorem taken_flatMap (l : List Bytes) :
    ((l.flatMap fun p => (receive decrypt packetControl after p).calls).map Prod.fst).sum =
      (l.map fun p => (receive decrypt packetControl after p).taken).sum := by
  induction l with
  | nil => rfl
  | cons p l ih => simp [ih, Reception.taken]

theorem length_flatMap_one {l : List Bytes}
    (h : ∀ p ∈ l, (receive decrypt packetControl after p).calls.length = 1) :
    (l.flatMap fun p => (receive decrypt packetControl after p).calls).length = l.length := by
  induction l with
  | nil => rfl
  | cons p l ih =>
    obtain ⟨hp, hl⟩ := List.forall_mem_cons.mp h
    rw [List.flatMap_cons, List.length_append, hp, ih hl, List.length_cons, Nat.add_comm]

end

/-- **A stream of frames is handed on frame by frame**, without a read past what `recv` returned,
just when every `recv` holds one whole frame, of four bytes at least and not to be mistaken for
the preamble. -/
theorem stream_iff {frames : List Bytes} {cuts : List (List Bytes)} (hf : ∀ f ∈ frames, IsFrame f)
    (hc : List.Forall₂ Pieces frames cuts) (decrypt : Bytes → Bytes)
    (packetControl : Nat → Bytes → Bool) (after : Nat → UInt8) :
    ((cuts.flatten.flatMap fun p => (receive decrypt packetControl after p).calls) =
          frames.map (fun f => (f.length, decrypt f)) ∧
        ∀ p ∈ cuts.flatten, ∀ i ∈ (receive decrypt packetControl after p).reads, i < p.length) ↔
      cuts = frames.map (fun f => [f]) ∧
        ∀ f ∈ frames, 4 ≤ f.length ∧ ofLE (f.take 4) ≠ c_packet := by
  have hpieces := pieces_mem hc
  refine ⟨fun ⟨hcalls, hreads⟩ => ?_, fun ⟨hcuts, hgood⟩ => ?_⟩
  · have htaken := fun p hp =>
      receive_taken (hpieces p hp).1 (hpieces p hp).2 (hreads p hp)
    -- what the calls are given adds up to the whole stream
    have hsum : (cuts.flatten.map fun p => (receive decrypt packetControl after p).taken).sum =
        (cuts.flatten.map List.length).sum := by
      rw [← length_pieces hc, ← taken_flatMap, hcalls, List.map_map]
      rfl
    have hall := eq_of_sum_eq (fun p hp => (htaken p hp).1) hsum
    have hcount : cuts.flatten.length = frames.length := by
      rw [← length_flatMap_one fun p hp => ((htaken p hp).2 (hall p hp)).1, hcalls,
        List.length_map]
    have hcuts := whole_pieces hf hc hcount
    refine ⟨hcuts, fun f hf => ?_⟩
    have hp : f ∈ cuts.flatten := by
      rw [hcuts]
      simpa using hf
    exact ((htaken f hp).2 (hall f hp)).2
  · have hflat : cuts.flatten = frames := by
      rw [hcuts, ← List.flatMap_def, List.flatMap_singleton']
    rw [hflat] at hpieces ⊢
    have hreceive : ∀ f ∈ frames, receive decrypt packetControl after f =
        { calls := [(f.length, decrypt f)]
          reads := List.range' 0 4 ++ List.range' 0 2 ++ List.range' 0 f.length
          result := packetControl f.length (decrypt f) } := fun f hfm =>
      receive_frame (hf f hfm) (hgood f hfm).1 false (hpieces f hfm).2 (.inr (hgood f hfm).2)
    refine ⟨?_, fun f hfm i hi => ?_⟩
    · rw [List.map_eq_flatMap]
      refine List.flatMap_congr fun f hfm => ?_
      rw [hreceive f hfm]
    · have h4 := (hgood f hfm).1
      rw [hreceive f hfm] at hi
      simp only [List.mem_append, List.mem_range'_1] at hi
      omega

theorem stream_iff_whole :
    ([[plainFrame 12 7], [plainFrame 12 8]].flatten.flatMap fun p =>
          (receive id (fun _ _ => true) (fun _ => 0) p).calls) =
        [plainFrame 12 7, plainFrame 12 8].map (fun f => (f.length, id f)) ∧
      ∀ p ∈ [[plainFrame 12 7], [plainFrame 12 8]].flatten,
        ∀ i ∈ (receive id (fun _ _ => true) (fun _ => 0) p).reads, i < p.length :=
  (stream_iff (by decide) (.cons ⟨by decide, by decide⟩ (.cons ⟨by decide, by decide⟩ .nil)) id _
    _).mpr ⟨by decide, by decide⟩

/-- A frame cut in two is handed on with bytes that were never received. -/
theorem stream_cut :
    Pieces (plainFrame 12 7) [(plainFrame 12 7).take 6, (plainFrame 12 7).drop 6] ∧
      (receive id (fun _ _ => true) (fun _ => 0) ((plainFrame 12 7).take 6)).calls =
        [(12, (plainFrame 12 7).take 6 ++ List.replicate 6 0)] ∧
      11 ∈ (receive id (fun _ _ => true) (fun _ => 0) ((plainFrame 12 7).take 6)).reads := by
  refine ⟨⟨by decide, by decide⟩, by decide +kernel, by decide +kernel⟩

end Destiny
