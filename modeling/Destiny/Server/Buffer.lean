import Destiny.Server.Reach

/-!
# The packet buffer

What the buffer holds after a list of stores, and the words of a packet. A store that keeps
clear of a range leaves it alone, so a word is the last one stored at its offset when all
later stores keep clear of it.
-/

namespace Destiny

open Text Sql Prog

/-- The buffer after stores. -/
def stores (ws : List Write) (D : Nat → UInt8) : Nat → UInt8 := ws.foldl (fun D w => w.store D) D

/-- A store outside `n` bytes from `i` on. -/
def Write.clear (w : Write) (i n : Nat) : Prop := w.off + w.bytes.length ≤ i ∨ (i + n : Nat) ≤ w.off

/-- The word a buffer holds at an offset. -/
def wordAt (D : Nat → UInt8) (i : Nat) : Nat := ofLE [D i, D (i + 1)]

/-- The word at an offset of a packet. -/
def word (b : Bytes) (i : Nat) : Nat := ofLE ((b.drop i).take 2)

/-- What `Encrypt` is handed when `n` bytes are sent. -/
def Server.first (s : Server) (n : Nat) : Bytes := (List.range n).map s.packet

variable {J : Junk} {c : Ptr} {s t : Server} {w : Write} {ws : List Write} {D : Nat → UInt8}
  {i n : Nat}

/-! ## Machine integers -/

theorem emod_mul_right {m : Int} (hm : 0 < m) (x : Int) :
    x % (m * 256) = x % 256 + 256 * (x / 256 % m) := by
  have hx := Int.emod_add_mul_ediv x 256
  have hq := Int.emod_add_mul_ediv (x / 256) m
  have hr := Int.emod_nonneg x (by norm_num : (256 : Int) ≠ 0)
  have hr' := Int.emod_lt_of_pos x (by norm_num : (0 : Int) < 256)
  have hs := Int.emod_nonneg (x / 256) hm.ne'
  have hs' := Int.emod_lt_of_pos (x / 256) hm
  calc x % (m * 256)
      = (x % 256 + 256 * (x / 256 % m) + m * 256 * (x / 256 / m)) % (m * 256) := by
        have h256 : m * 256 * (x / 256 / m) = 256 * (m * (x / 256 / m)) := by
          rw [mul_comm m 256, mul_assoc]
        congr 1
        omega
    _ = (x % 256 + 256 * (x / 256 % m)) % (m * 256) := Int.add_mul_emod_self_left ..
    _ = x % 256 + 256 * (x / 256 % m) := Int.emod_eq_of_lt (by omega) (by omega)

theorem ofLE_leBytes (k : Nat) (h : Int) : ofLE (leBytes k h) = unsigned (8 * k) h := by
  induction k generalizing h with
  | zero => simp [leBytes, ofLE, unsigned, Int.emod_one]
  | succ k ih =>
    have hb : (UInt8.ofNat (u8 h)).toNat = u8 h := by
      have hlt : u8 h < 256 := by unfold u8 unsigned; omega
      simp only [UInt8.toNat_ofNat', Nat.reducePow]
      exact Nat.mod_eq_of_lt hlt
    rw [leBytes, ofLE, hb, ih]
    unfold u8 unsigned
    have hpow : (2 : Int) ^ (8 * (k + 1)) = 2 ^ (8 * k) * 256 := by ring
    rw [hpow, emod_mul_right (by positivity)]
    have hnonneg : 0 ≤ h / 256 % 2 ^ (8 * k) := Int.emod_nonneg _ (by positivity)
    norm_num
    omega

theorem ofLE_leBytes_two (h : Int) : ofLE (leBytes 2 h) = u16 h := ofLE_leBytes 2 h

/-! ## Stores -/

theorem Write.store_clear (h : w.clear i 1) (hw : 0 ≤ w.off) : w.store D i = D i := by
  unfold Write.store
  split
  · next hi =>
    have hlen : w.bytes.length ≤ i - w.off.toNat := by
      rcases h with h | h <;> push_cast at h <;> omega
    rw [List.getElem?_eq_none hlen]
    rfl
  · rfl

theorem Write.store_at {b : Bytes} {k : Nat} {x : UInt8} (hx : b[k]? = some x) (off : Nat) :
    Write.store ⟨off, b⟩ D (off + k) = x := by
  unfold Write.store
  dsimp only
  rw [if_pos (by omega), Int.toNat_natCast, Nat.add_sub_cancel_left, hx]
  rfl

theorem stores_append (ws vs : List Write) (D : Nat → UInt8) :
    stores (ws ++ vs) D = stores vs (stores ws D) := List.foldl_append

theorem stores_clear (h : ∀ w ∈ ws, w.clear i 1 ∧ 0 ≤ w.off) : stores ws D i = D i := by
  induction ws generalizing D with
  | nil => rfl
  | cons w ws ih =>
    rw [stores, List.foldl_cons]
    refine (ih fun v hv => h v (List.mem_cons_of_mem _ hv)).trans ?_
    obtain ⟨hc, hw⟩ := h w List.mem_cons_self
    exact w.store_clear hc hw

theorem Write.clear.sub {j m : Nat} (h : w.clear i n) (hj : i ≤ j) (hm : j + m ≤ i + n) :
    w.clear j m := by
  rcases h with h | h
  · left; omega
  · right; omega

theorem wordAt_clear (h : ∀ w ∈ ws, w.clear i 2 ∧ 0 ≤ w.off) : wordAt (stores ws D) i = wordAt D i := by
  unfold wordAt
  rw [stores_clear fun w hw => ⟨(h w hw).1.sub (le_refl _) (by omega), (h w hw).2⟩,
    stores_clear fun w hw => ⟨(h w hw).1.sub (by omega) (by omega), (h w hw).2⟩]

/-- The word last stored at an offset. -/
theorem wordAt_stores (h : Int) (vs : List Write) (hws : ∀ w ∈ ws, w.clear i 2 ∧ 0 ≤ w.off) :
    wordAt (stores (vs ++ addWord h i :: ws) D) i = u16 h := by
  rw [stores_append, stores, List.foldl_cons]
  refine (wordAt_clear hws).trans ?_
  unfold wordAt
  rw [show (addWord h i).store _ i = _ from Write.store_at (k := 0) rfl i,
    show (addWord h i).store _ (i + 1) = _ from Write.store_at (k := 1) rfl i]
  exact ofLE_leBytes_two h

theorem writes_stores {u : Unit} (h : writes ws s = .ok u t) :
    t = { s with packet := stores ws s.packet } ∧ ∀ w ∈ ws, w.inBounds = true := by
  induction ws generalizing s with
  | nil =>
    cases h
    exact ⟨rfl, by simp⟩
  | cons w ws ih =>
    obtain ⟨_, s1, h1, h⟩ := of_bind_ok h
    obtain ⟨_, s2, h2, h⟩ := of_bind_ok h
    unfold check at h1
    split at h1 <;> cases h1
    cases h2
    obtain ⟨rfl, hws⟩ := ih h
    exact ⟨rfl, List.forall_mem_cons.mpr ⟨‹_›, hws⟩⟩

theorem Write.nonneg (h : w.inBounds = true) : 0 ≤ w.off := by
  unfold Write.inBounds at h
  exact (of_decide_eq_true h).1

theorem writes_apply (h : ∀ w ∈ ws, w.inBounds = true) (s : Server) :
    writes ws s = .ok () { s with packet := stores ws s.packet } := by
  induction ws generalizing s with
  | nil => rfl
  | cons w ws ih =>
    have hw : check (w.inBounds = true) .packetIndex s = .ok () s := by
      rw [check, if_pos (h w List.mem_cons_self)]
      rfl
    rw [writes, bind_ok hw]
    exact ih (fun v hv => h v (List.mem_cons_of_mem _ hv)) _

/-! ## Packets -/

theorem rd_apply {P : Packet} {off n : Nat} (h : off + n ≤ P.mem.length) (s : Server) :
    rd P off n s =
      .ok ((P.mem.drop off).take n) { s with reads := s.reads ++ List.range' off n } := by
  have hcheck : check (off + n ≤ P.mem.length) .unmapped
      { s with reads := s.reads ++ List.range' off n } =
        .ok () { s with reads := s.reads ++ List.range' off n } := by
    rw [check, if_pos h]
    rfl
  exact bind_ok hcheck

theorem rdInt_apply {P : Packet} {off n : Nat} (h : off + n ≤ P.mem.length) (s : Server) :
    rdInt P off n s =
      .ok (ofLE ((P.mem.drop off).take n)) { s with reads := s.reads ++ List.range' off n } :=
  bind_ok (rd_apply h s)

/-- The state in which a packet that is long enough is dispatched. -/
def Server.dispatched (s : Server) (c : Ptr) : Server :=
  s.received c (s.reads ++ List.range' 4 2 ++ List.range' 6 2)

theorem exec_packet {E : Env} {P : Packet} (hc : c ∈ s.clientList) (h : 8 ≤ P.mem.length) :
    exec E (.packet c P J) s =
      (dispatch E J c P P.opcode >>= fun _ => pure ()) (s.dispatched c) := by
  have hcount : modifyClient c (fun cl => { cl with recvpkts := cl.recvpkts + 1 }) s =
      .ok () (s.received c s.reads) := rfl
  have hcontrol : packetControl E J c P (s.received c s.reads) =
      dispatch E J c P P.opcode (s.dispatched c) := by
    rw [packetControl, bind_ok (rdInt_apply (by omega) _), bind_ok (rdInt_apply (by omega) _)]
    rfl
  rw [exec, connected_apply, if_pos hc, bind_ok hcount, bind_apply, hcontrol]
  rfl

theorem word_first (h : i + 2 ≤ n) : word (s.first n) i = wordAt s.packet i := by
  have hn : n = i + (2 + (n - i - 2)) := by omega
  unfold word Server.first wordAt
  rw [hn, List.range_add, List.map_append, List.drop_append_of_le_length (by simp),
    List.drop_eq_nil_of_le (by simp), List.range_add]
  rfl

@[simp] theorem first_length (s : Server) (n : Nat) : (s.first n).length = n := by
  simp [Server.first]

end Destiny
