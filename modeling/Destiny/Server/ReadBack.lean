import Destiny.Server.Buffer

/-!
# Reading a packet back

The number of `k` bytes that a buffer, or a packet, holds at an offset. After a list of
stores it is the one stored last that reaches there: a store at the offset is read back, and
one that keeps clear of the field is not seen (`intAt_addByte_ne` and the like). An item is
seven such fields in eight bytes, and a block of items one item after another.
-/

namespace Destiny

open Text Sql Prog

/-- The number of `k` bytes that a buffer holds at an offset. -/
def intAt (D : Nat → UInt8) (i k : Nat) : Nat := ofLE ((List.range k).map fun j => D (i + j))

/-- The number of `k` bytes at an offset of a packet. -/
def intIn (b : Bytes) (i k : Nat) : Nat := ofLE ((b.drop i).take k)

variable {s : Server} {w : Write} {ws vs : List Write} {D D' : Nat → UInt8} {i k n : Nat} {h off : Int}

/-! ## Fields -/

theorem intIn_range (hn : i + k ≤ n) : intIn ((List.range n).map D) i k = intAt D i k := by
  have hsplit : n = i + (k + (n - i - k)) := by omega
  unfold intIn intAt
  rw [hsplit, List.range_add, List.map_append, List.drop_append_of_le_length (by simp),
    List.drop_eq_nil_of_le (by simp), List.range_add]
  simp [Function.comp_def]

theorem intAt_congr (heq : ∀ j < k, D (i + j) = D' (i + j)) : intAt D i k = intAt D' i k := by
  unfold intAt
  congr 1
  exact List.map_congr_left fun j hj => heq j (List.mem_range.mp hj)

/-- Stores that keep clear of a field leave it alone. -/
theorem intAt_clear (hws : ∀ w ∈ ws, w.clear i k ∧ 0 ≤ w.off) :
    intAt (stores ws D) i k = intAt D i k := by
  refine intAt_congr fun j hj => stores_clear fun w hw => ?_
  exact ⟨(hws w hw).1.sub (by omega) (by omega), (hws w hw).2⟩

/-- A field just stored. -/
theorem intAt_store (h : Int) : intAt (Write.store ⟨i, leBytes k h⟩ D) i k = unsigned (8 * k) h := by
  rw [← ofLE_leBytes, intAt]
  congr 1
  refine List.ext_getElem (by simp) fun j hj _ => ?_
  rw [List.getElem_map, List.getElem_range]
  exact Write.store_at (List.getElem?_eq_getElem _) i

theorem stores_nil : stores [] D = D := rfl

theorem stores_cons : stores (w :: ws) D = stores ws (w.store D) := rfl

/-! ## The stores of a packet -/

theorem intAt_store_ne (h0 : 0 ≤ off) {b : Bytes} (hne : (i + k : Nat) ≤ off ∨ off + b.length ≤ i) :
    intAt (Write.store ⟨off, b⟩ D) i k = intAt D i k := by
  have hclear : ∀ w ∈ [(⟨off, b⟩ : Write)], w.clear i k ∧ 0 ≤ w.off := by
    simpa [Write.clear, or_comm] using ⟨hne, h0⟩
  exact intAt_clear hclear

theorem intAt_addByte_ne (h0 : 0 ≤ off) (hne : (i + k : Nat) ≤ off ∨ off + 1 ≤ i) :
    intAt ((addByte h off).store D) i k = intAt D i k := intAt_store_ne h0 hne

theorem intAt_addWord_ne (h0 : 0 ≤ off) (hne : (i + k : Nat) ≤ off ∨ off + 2 ≤ i) :
    intAt ((addWord h off).store D) i k = intAt D i k := intAt_store_ne h0 hne

theorem intAt_addDWord_ne (h0 : 0 ≤ off) (hne : (i + k : Nat) ≤ off ∨ off + 4 ≤ i) :
    intAt ((addDWord h off).store D) i k = intAt D i k := intAt_store_ne h0 hne

theorem intAt_addStr_ne {J : Junk} {co : Bytes} (h0 : 0 ≤ off)
    (hne : (i + k : Nat) ≤ off ∨ off + co.length ≤ i) :
    intAt ((addStr J co off).store D) i k = intAt D i k :=
  intAt_store_ne h0 (by simpa using hne)

theorem intAt_addByte (heq : off = i) : intAt ((addByte h off).store D) i 1 = u8 h := by
  subst heq
  exact intAt_store (k := 1) h

theorem intAt_addWord (heq : off = i) : intAt ((addWord h off).store D) i 2 = u16 h := by
  subst heq
  exact intAt_store (k := 2) h

theorem intAt_addDWord (heq : off = i) : intAt ((addDWord h off).store D) i 4 = u32 h := by
  subst heq
  exact intAt_store (k := 4) h

/-- A packet is composed and sent. -/
theorem composed_ok {α : Type} {c : Ptr} {a : α} {t : Server} {f : Unit → M α}
    (h : (writes ws >>= fun _ => sendPacket c n >>= f) s = .ok a t) : ∃ u : Server,
      f () u = .ok a t ∧ u.heap = s.heap ∧ u.hash1 = s.hash1 ∧
      u.trace = .send c ((List.range n).map (stores ws s.packet)) s.hash1 :: s.trace := by
  obtain ⟨_, s1, h1, h⟩ := of_bind_ok h
  obtain ⟨rfl, -⟩ := writes_stores h1
  obtain ⟨_, s2, h2, h⟩ := of_bind_ok h
  obtain ⟨-, rfl⟩ := sendPacket_ok h2
  exact ⟨_, h, rfl, rfl, rfl⟩

theorem composed_apply {α : Type} {c : Ptr} {cl : CConnClient} {f : Unit → M α} {s : Server}
    (hcl : s.heap c = some cl) (hin : ∀ w ∈ ws, w.inBounds = true) :
    (writes ws >>= fun _ => sendPacket c n >>= f) s =
      f () (({ s with packet := stores ws s.packet } : Server).sent c n) := by
  rw [bind_ok (writes_apply hin s)]
  exact bind_ok (sendPacket_of_some (s := { s with packet := stores ws s.packet }) hcl n)

/-- The stores of a message. -/
def serverMsg (J : Junk) (text : Bytes) : List Write :=
  [addWord 108 0, addByte 0x01 4, addByte 0x01 5, addStr J text 12]

/-- A message that fits its buffer is sent. -/
theorem sendServerMsg_apply {J : Junk} {c : Ptr} {cl : CConnClient} {format text : Bytes}
    {args : List Arg} {s : Server} (hcl : s.heap c = some cl)
    (htext : vsprintf (cstr format) args = text) (hlen : text.length < 2000) :
    sendServerMsg J c format args s =
      .ok true (({ s with packet := stores (serverMsg J text) fun _ => 0 } : Server).sent c 108) := by
  have hcheck : check (text.length < 2000) .msgBuffer s = .ok () s := by
    rw [check, if_pos hlen]
    rfl
  have hin : ∀ w ∈ serverMsg J text, w.inBounds = true := by
    simp [serverMsg, Write.inBounds, addWord, addByte, addStr]
    omega
  rw [sendServerMsg, htext]
  exact (bind_ok hcheck).trans (composed_apply (s := { s with packet := fun _ => 0 }) hcl hin)

/-! ## Items -/

/-- The stores of an item. -/
def itemStores (item : CItem) (off : Int) : List Write :=
  [addWord item.itemid off, addByte item.add1 (off + 2), addByte item.val1 (off + 3),
    addByte item.add2 (off + 4), addByte item.val2 (off + 5), addByte item.add3 (off + 6),
    addByte item.val3 (off + 7)]

/-- The stores of `n` items from an offset on. -/
def itemBlock (items : Nat → CItem) (off : Int) (n : Nat) : List Write :=
  (List.range n).flatMap fun j : Nat => itemStores (items j) (8 * j + off)

/-- What of an item a packet has room for. -/
def CItem.wire (item : CItem) : CItem :=
  ⟨u16 item.itemid, u8 item.add1, u8 item.add2, u8 item.add3, u8 item.val1, u8 item.val2, u8 item.val3⟩

/-- The item that a buffer holds at an offset. -/
def itemAt (D : Nat → UInt8) (i : Nat) : CItem :=
  ⟨intAt D i 2, intAt D (i + 2) 1, intAt D (i + 4) 1, intAt D (i + 6) 1, intAt D (i + 3) 1,
    intAt D (i + 5) 1, intAt D (i + 7) 1⟩

/-- The item at an offset of a packet. -/
def itemIn (b : Bytes) (i : Nat) : CItem :=
  ⟨intIn b i 2, intIn b (i + 2) 1, intIn b (i + 4) 1, intIn b (i + 6) 1, intIn b (i + 3) 1,
    intIn b (i + 5) 1, intIn b (i + 7) 1⟩

section Items
variable {item : CItem} {items : Nat → CItem}

theorem itemIn_range (hn : i + 8 ≤ n) : itemIn ((List.range n).map D) i = itemAt D i := by
  unfold itemIn itemAt
  simp (disch := omega) only [intIn_range]

theorem itemAt_congr (heq : ∀ j < 8, D (i + j) = D' (i + j)) : itemAt D i = itemAt D' i := by
  have hfield : ∀ j k, j + k ≤ 8 → intAt D (i + j) k = intAt D' (i + j) k := fun j k hjk =>
    intAt_congr fun m hm => by
      rw [Nat.add_assoc]
      exact heq (j + m) (by omega)
  unfold itemAt
  rw [hfield 2 1 (by omega), hfield 4 1 (by omega), hfield 6 1 (by omega), hfield 3 1 (by omega),
    hfield 5 1 (by omega), hfield 7 1 (by omega), ← Nat.add_zero i, hfield 0 2 (by omega)]

theorem itemAt_clear (hws : ∀ w ∈ ws, w.clear i 8 ∧ 0 ≤ w.off) :
    itemAt (stores ws D) i = itemAt D i :=
  itemAt_congr fun j hj => stores_clear fun w hw =>
    ⟨(hws w hw).1.sub (by omega) (by omega), (hws w hw).2⟩

theorem itemAt_itemStores (heq : off = i) : itemAt (stores (itemStores item off) D) i = item.wire := by
  subst heq
  unfold itemAt itemStores CItem.wire
  simp (disch := omega) only [stores_cons, stores_nil, intAt_addByte_ne, intAt_addByte,
    intAt_addWord]

theorem mem_itemStores {w : Write} (hw : w ∈ itemStores item off) :
    off ≤ w.off ∧ w.off + w.bytes.length ≤ off + 8 := by
  simp only [itemStores, List.mem_cons, List.not_mem_nil, or_false] at hw
  rcases hw with rfl | rfl | rfl | rfl | rfl | rfl | rfl <;>
    simp only [addByte, addWord, leBytes_length] <;> omega

theorem mem_itemBlock {w : Write} (hw : w ∈ itemBlock items off n) :
    off ≤ w.off ∧ w.off + w.bytes.length ≤ off + 8 * n := by
  obtain ⟨j, hj, hw⟩ := List.mem_flatMap.mp hw
  have hj := List.mem_range.mp hj
  have hw := mem_itemStores hw
  omega

/-- A field outside a block of items. -/
theorem intAt_itemBlock_ne (h0 : 0 ≤ off) (hne : (i + k : Nat) ≤ off ∨ off + 8 * n ≤ i) :
    intAt (stores (itemBlock items off n) D) i k = intAt D i k := by
  refine intAt_clear fun w hw => ?_
  have hw := mem_itemBlock hw
  unfold Write.clear
  omega

/-- Every item of a block is read back. -/
theorem itemAt_itemBlock {j : Nat} (hj : j < n) (heq : 8 * j + off = i) (h0 : 0 ≤ off) :
    itemAt (stores (itemBlock items off n) D) i = (items j).wire := by
  induction n with
  | zero => omega
  | succ n ih =>
    rw [itemBlock, List.range_succ, List.flatMap_append, stores_append, List.flatMap_singleton]
    by_cases hn : j = n
    · subst hn
      exact itemAt_itemStores heq
    · refine (itemAt_clear fun w hw => ?_).trans (ih (by omega))
      have hw := mem_itemStores hw
      have hoff : 0 ≤ w.off := by linarith [h0]
      unfold Write.clear
      omega

end Items

end Destiny
