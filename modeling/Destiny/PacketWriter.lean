import Destiny.Server.Buffer
import Destiny.Prog.Memory

/-!
# The packet writer

The writers of `packetwriter.cpp` over the whole memory, with the arguments where they stand in
it. `AddStr` and `AddData` copy from the address of their parameter and not from the address
that it holds, so what they store begins with the bytes of a pointer. `GetWord` fills two of the
four bytes of the integer it returns.
-/

namespace Destiny

open Text Prog

/-- A pointer parameter of `w` bytes, as it stands on the stack. -/
structure PtrArg (w : Nat) (M : Nat → UInt8) where
  slot : Nat
  ptr : Nat
  passed : bytesAt M slot w = leBytes w ptr

/-- A pointer to a string. -/
structure StrArg (w : Nat) (M : Nat → UInt8) extends PtrArg w M where
  strlen : Nat
  nonzero : ∀ k < strlen, M (ptr + k) ≠ 0
  nul : M (ptr + strlen) = 0

/-- A packet whose data lie from `D` on. -/
structure BufWrite where
  S : Nat
  D : Nat
  mem : Nat → UInt8

namespace BufWrite

variable {w : Nat}

def addByte (b : BufWrite) (h : Int) (offset : Nat) : BufWrite :=
  { b with
    S := u32 (b.S + 1)
    mem := patch b.mem (b.D + offset) (leBytes 1 h) }

def addStr (b : BufWrite) (co : StrArg w b.mem) (offset : Nat) : BufWrite :=
  { b with mem := memcpy b.mem (b.D + offset) co.slot co.strlen }

def addWord (b : BufWrite) (h : Int) (offset : Nat) : BufWrite :=
  { b with mem := patch b.mem (b.D + offset) (leBytes 2 h) }

def addData (b : BufWrite) (h : PtrArg w b.mem) (offset size : Nat) : BufWrite :=
  { b with mem := memcpy b.mem (b.D + offset) h.slot size }

def addDWord (b : BufWrite) (h : Int) (offset : Nat) : BufWrite :=
  { b with mem := patch b.mem (b.D + offset) (leBytes 4 h) }

/-- `value` holds the four bytes of the local variable before the copy. -/
def getWord (b : BufWrite) (value : Nat → UInt8) (offset : Nat) : Int :=
  Int.bmod (ofLE (bytesAt (patch value 0 (bytesAt b.mem (b.D + offset) 2)) 0 4)) (2 ^ 32)

end BufWrite

/-- A call of one of the writers. -/
inductive Add (w : Nat) (M : Nat → UInt8) where
  | addByte (h : Int)
  | addWord (h : Int)
  | addDWord (h : Int)
  | addStr (co : StrArg w M)
  | addData (h : PtrArg w M) (size : Nat)

variable {w : Nat} {M : Nat → UInt8}

/-- The bytes that an argument stands for. -/
def Add.value : Add w M → Bytes
  | addByte h => leBytes 1 h
  | addWord h => leBytes 2 h
  | addDWord h => leBytes 4 h
  | addStr co => bytesAt M co.ptr co.strlen
  | addData h size => bytesAt M h.ptr size

def Add.run (b : BufWrite) (offset : Nat) : Add w b.mem → BufWrite
  | addByte h => b.addByte h offset
  | addWord h => b.addWord h offset
  | addDWord h => b.addDWord h offset
  | addStr co => b.addStr co offset
  | addData h size => b.addData h offset size

/-- The `n` bytes from a parameter on: those of the pointer and what follows it on the stack. -/
def PtrArg.image (p : PtrArg w M) (n : Nat) : Bytes :=
  (leBytes w p.ptr ++ bytesAt M (p.slot + w) n).take n

/-- The parameter of a call itself begins with the bytes it points to. -/
def Add.OwnBytes : Add w M → Prop
  | addByte _ | addWord _ | addDWord _ => True
  | addStr co => co.image co.strlen = bytesAt M co.ptr co.strlen
  | addData h size => h.image size = bytesAt M h.ptr size

/-- A call stores its bytes at the offset and nothing elsewhere. -/
structure Add.Stores (b : BufWrite) (offset : Nat) (x : Add w b.mem) : Prop where
  stored : bytesAt (x.run b offset).mem (b.D + offset) x.value.length = x.value
  others : ∀ a, a < b.D + offset ∨ b.D + offset + x.value.length ≤ a →
    (x.run b offset).mem a = b.mem a

theorem PtrArg.bytesAt_slot (p : PtrArg w M) (n : Nat) : bytesAt M p.slot n = p.image n := by
  unfold PtrArg.image
  rw [← p.passed, ← bytesAt_add, Nat.add_comm, bytesAt_take]

/-- A copy from the parameter stores the wanted bytes when these are the parameter's own. -/
theorem memcpy_stored (p : PtrArg w M) (dst n : Nat) :
    bytesAt (memcpy M dst p.slot n) dst (bytesAt M p.ptr n).length = bytesAt M p.ptr n ↔
      p.image n = bytesAt M p.ptr n := by
  have hback := bytesAt_patch M dst (bytesAt M p.slot n)
  rw [bytesAt_length] at hback ⊢
  unfold memcpy
  rw [hback, p.bytesAt_slot]

theorem memcpy_others {a dst src n : Nat} (h : a < dst ∨ dst + n ≤ a) :
    memcpy M dst src n a = M a := by
  apply patch_outside
  rw [bytesAt_length]
  exact h

theorem stores_iff (b : BufWrite) (offset : Nat) (x : Add w b.mem) :
    x.Stores b offset ↔ x.OwnBytes := by
  cases x with
  | addByte h => exact iff_of_true ⟨bytesAt_patch _ _ _, fun _ ha => patch_outside ha⟩ trivial
  | addWord h => exact iff_of_true ⟨bytesAt_patch _ _ _, fun _ ha => patch_outside ha⟩ trivial
  | addDWord h => exact iff_of_true ⟨bytesAt_patch _ _ _, fun _ ha => patch_outside ha⟩ trivial
  | addStr co =>
    constructor
    · intro h
      exact (memcpy_stored co.toPtrArg _ _).mp h.stored
    · intro h
      refine ⟨(memcpy_stored co.toPtrArg _ _).mpr h, fun a ha => memcpy_others ?_⟩
      rwa [Add.value, bytesAt_length] at ha
  | addData p size =>
    constructor
    · intro h
      exact (memcpy_stored p _ _).mp h.stored
    · intro h
      refine ⟨(memcpy_stored p _ _).mpr h, fun a ha => memcpy_others ?_⟩
      rwa [Add.value, bytesAt_length] at ha

/-! ## Reading a word back -/

/-- The integer that `GetWord` returns after `AddWord`. -/
theorem getWord_addWord (b : BufWrite) (value : Nat → UInt8) (h : Int) (offset : Nat) :
    (b.addWord h offset).getWord value offset =
      Int.bmod (u16 h + 65536 * (value 2).toNat + 16777216 * (value 3).toNat) (2 ^ 32) := by
  have hword : bytesAt (b.addWord h offset).mem (b.D + offset) 2 = leBytes 2 h :=
    bytesAt_patch b.mem (b.D + offset) (leBytes 2 h)
  have hvalue : bytesAt (patch value 0 (leBytes 2 h)) 0 4 = leBytes 2 h ++ [value 2, value 3] := rfl
  have hle : ofLE (leBytes 2 h ++ [value 2, value 3]) =
      ofLE (leBytes 2 h) + 65536 * (value 2).toNat + 16777216 * (value 3).toNat := by
    show _ + 256 * (_ + 256 * (_ + 256 * (_ + 256 * 0))) = _ + 256 * (_ + 256 * 0) + _ + _
    omega
  show Int.bmod (ofLE (bytesAt (patch value 0
    (bytesAt (b.addWord h offset).mem (b.D + offset) 2)) 0 4)) (2 ^ 32) = _
  rw [hword, hvalue, hle, ofLE_leBytes_two]
  push_cast
  rfl

theorem getWord_iff (b : BufWrite) (value : Nat → UInt8) (h : Int) (offset : Nat) :
    (b.addWord h offset).getWord value offset = u16 h ↔ value 2 = 0 ∧ value 3 = 0 := by
  rw [getWord_addWord]
  have hh : u16 h < 65536 := by
    unfold u16 unsigned
    omega
  have h2 := (value 2).toNat_lt
  have h3 := (value 3).toNat_lt
  rw [← UInt8.toNat_inj, ← UInt8.toNat_inj]
  show _ ↔ (value 2).toNat = 0 ∧ (value 3).toNat = 0
  unfold Int.bmod
  constructor
  · intro heq
    dsimp only at heq
    split at heq <;> omega
  · rintro ⟨hz2, hz3⟩
    rw [hz2, hz3]
    dsimp only
    rw [if_pos (by omega)]
    omega

/-- **The packet writer** stores exactly the wanted bytes when a pointer parameter itself begins
with the bytes it points to, and a word is read back when the unset bytes of the result are 0. -/
theorem packetWriter_iff (w : Nat) (b : BufWrite) (offset : Nat) :
    (∀ x : Add w b.mem, x.Stores b offset ↔ x.OwnBytes) ∧
      ∀ value h, (b.addWord h offset).getWord value offset = u16 h ↔ value 2 = 0 ∧ value 3 = 0 :=
  ⟨fun x => stores_iff b offset x, fun value h => getWord_iff b value h offset⟩

/-- A name at address 1000, its pointer at 2000 and the packet data from 5000 on. -/
def nameOnStack : BufWrite where
  S := 0
  D := 5000
  mem := patch (patch (fun _ => 0) 1000 (ascii "hi")) 2000 (leBytes 4 1000)

def nameArg : StrArg 4 nameOnStack.mem where
  slot := 2000
  ptr := 1000
  passed := by decide
  strlen := 2
  nonzero := by decide
  nul := by decide

/-- `AddStr` stores the address 1000 in place of the name, and `GetWord` returns what its unset
bytes held. -/
theorem addStr_stores_pointer :
    bytesAt nameOnStack.mem 1000 3 = ascii "hi" ++ [0] ∧
      bytesAt (nameOnStack.addStr nameArg 12).mem (nameOnStack.D + 12) 2 = leBytes 2 1000 ∧
      leBytes 2 1000 ≠ ascii "hi" ∧
      (nameOnStack.addWord 7 12).getWord (fun _ => 1) 12 ≠ 7 := by
  decide

/-! ## The stores of the handlers -/

/-- The store that the handlers make with a call. -/
def Add.write (J : Junk) (offset : Nat) : Add w M → Write
  | addByte h => Destiny.addByte h offset
  | addWord h => Destiny.addWord h offset
  | addDWord h => Destiny.addDWord h offset
  | addStr co => Destiny.addStr J (bytesAt M co.ptr co.strlen) offset
  | addData h size => Destiny.addData J (bytesAt M h.ptr size) offset size

/-- The stack is the one that the parameter of a call stands on. -/
def Add.OnStack (J : Junk) (offset : Nat) : Add w M → Prop
  | addByte _ | addWord _ | addDWord _ => True
  | addStr co => J.stack (bytesAt M co.ptr co.strlen) offset = fun k => M (co.slot + k)
  | addData h size => J.stack (bytesAt M h.ptr size) offset = fun k => M (h.slot + k)

theorem store_eq_patch (M : Nat → UInt8) (D offset : Nat) (bytes : Bytes) :
    Write.store ⟨offset, bytes⟩ (fun i => M (D + i)) =
      fun i => patch M (D + offset) bytes (D + i) := by
  funext i
  unfold Write.store patch
  dsimp only
  rw [Int.toNat_natCast]
  by_cases hi : offset ≤ i
  · rw [if_pos hi, if_pos (by omega), show D + i - (D + offset) = i - offset by omega]
  · rw [if_neg hi, if_neg (by omega)]

/-- What the handlers store is what the writer stores. -/
theorem run_eq_store (b : BufWrite) (J : Junk) (offset : Nat) (x : Add w b.mem)
    (hJ : x.OnStack J offset) :
    (fun i => (x.run b offset).mem (b.D + i)) =
      (x.write J offset).store fun i => b.mem (b.D + i) := by
  cases x with
  | addByte h => exact (store_eq_patch b.mem b.D offset _).symm
  | addWord h => exact (store_eq_patch b.mem b.D offset _).symm
  | addDWord h => exact (store_eq_patch b.mem b.D offset _).symm
  | addStr co =>
    have hbytes : Destiny.addStr J (bytesAt b.mem co.ptr co.strlen) offset =
        ⟨offset, bytesAt b.mem co.slot co.strlen⟩ := by
      unfold Destiny.addStr
      rw [show J.stack _ _ = _ from hJ, bytesAt_length]
      rfl
    show _ = Write.store (Destiny.addStr J _ _) _
    rw [hbytes, store_eq_patch]
    rfl
  | addData h size =>
    have hbytes : Destiny.addData J (bytesAt b.mem h.ptr size) offset size =
        ⟨offset, bytesAt b.mem h.slot size⟩ := by
      unfold Destiny.addData
      rw [show J.stack _ _ = _ from hJ]
      rfl
    show _ = Write.store (Destiny.addData J _ _ _) _
    rw [hbytes, store_eq_patch]
    rfl

end Destiny
