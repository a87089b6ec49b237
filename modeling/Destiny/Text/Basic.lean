import Mathlib.Data.Nat.Digits.Defs
import Mathlib.Data.Nat.Digits.Lemmas
import Mathlib.Data.List.TakeWhile

/-!
# Byte strings

C strings and buffers are lists of bytes. `ascii` is a string literal's bytes, `cstr`
what a C function reads of a buffer (up to the first NUL), `decimal` what `%i` prints
and `leading` the integer a string starts with, which is how both `atoi` and a database
read a number out of a text. `leBytes` is the little-endian image of an integer.
-/

namespace Text

abbrev Bytes := List UInt8

/-- The bytes of a string literal. -/
def ascii (s : String) : Bytes := s.toUTF8.data.toList

/-- The C string at the start of a buffer. -/
def cstr (b : Bytes) : Bytes := b.takeWhile (· != 0)

theorem cstr_ne_zero {b : Bytes} {c : UInt8} (h : c ∈ cstr b) : c ≠ 0 := by
  have := List.mem_takeWhile_imp h
  simpa using this

theorem cstr_eq_self {b : Bytes} (h : ∀ c ∈ b, c ≠ 0) : cstr b = b :=
  List.takeWhile_eq_self_iff.mpr fun c hc => by simpa using h c hc

@[simp] theorem cstr_cstr (b : Bytes) : cstr (cstr b) = cstr b :=
  cstr_eq_self fun _ => cstr_ne_zero

theorem cstr_length_le (b : Bytes) : (cstr b).length ≤ b.length :=
  (List.takeWhile_prefix _).length_le

/-- A buffer that holds a NUL holds a shorter string. -/
theorem cstr_length_lt {b : Bytes} (h : (0 : UInt8) ∈ b) : (cstr b).length < b.length := by
  refine lt_of_le_of_ne (cstr_length_le b) fun e => ?_
  have : cstr b = b := (List.takeWhile_prefix _).eq_of_length e
  exact cstr_ne_zero (this.symm ▸ h : (0 : UInt8) ∈ cstr b) rfl

/-- A buffer that holds a NUL is its string, the NUL and what follows. -/
theorem cstr_split {b : Bytes} (h : (0 : UInt8) ∈ b) : ∃ rest, b = cstr b ++ 0 :: rest := by
  induction b with
  | nil => cases h
  | cons c b ih =>
    by_cases hc : c = 0
    · subst hc
      exact ⟨b, rfl⟩
    · obtain ⟨rest, hrest⟩ := ih ((List.mem_cons.mp h).resolve_left fun h => hc h.symm)
      have hcons : cstr (c :: b) = c :: cstr b := List.takeWhile_cons_of_pos (by simpa using hc)
      exact ⟨rest, by rw [hcons, List.cons_append, ← hrest]⟩

/-- The string ends in the part of a buffer that holds a NUL. -/
theorem cstr_append_of_mem {a : Bytes} (h : (0 : UInt8) ∈ a) (b : Bytes) : cstr (a ++ b) = cstr a := by
  refine List.takeWhile_append.trans (if_neg ?_)
  exact (cstr_length_lt h).ne

theorem zero_not_mem_cstr (b : Bytes) : (0 : UInt8) ∉ cstr b := fun h => cstr_ne_zero h rfl

/-! ## Characters -/

def isDigit (c : UInt8) : Bool := 48 ≤ c.toNat && c.toNat ≤ 57

/-- Letters and the underscore. -/
def isLetter (c : UInt8) : Bool :=
  (65 ≤ c.toNat && c.toNat ≤ 90) || (97 ≤ c.toNat && c.toNat ≤ 122) || c.toNat == 95

/-- What `isspace` accepts. -/
def isBlank (c : UInt8) : Bool := c.toNat == 32 || (9 ≤ c.toNat && c.toNat ≤ 13)

/-! ## Numbers -/

/-- The digits of a natural number, most significant first. -/
def digits (n : Nat) : Bytes :=
  if n = 0 then [48] else ((Nat.digits 10 n).reverse.map fun d => UInt8.ofNat (48 + d))

/-- What `%i` prints. -/
def decimal (n : Int) : Bytes :=
  if n < 0 then 45 :: digits n.natAbs else digits n.natAbs

/-- The value of the digits a text starts with, after `acc`. -/
def digitsVal : Nat → Bytes → Nat
  | acc, [] => acc
  | acc, c :: cs => if isDigit c then digitsVal (acc * 10 + (c.toNat - 48)) cs else acc

/-- The integer a text starts with; `0` when it starts with none. -/
def leading (b : Bytes) : Int :=
  match b.dropWhile isBlank with
  | [] => 0
  | c :: r =>
    if c = 45 then -(digitsVal 0 r : Int)
    else if c = 43 then digitsVal 0 r
    else digitsVal 0 (c :: r)

/-- The 32-bit integer nearest to `n`. -/
def clamp32 (n : Int) : Int := max (-2 ^ 31) (min (2 ^ 31 - 1) n)

/-- C's `atoi`. -/
def atoi (b : Bytes) : Int := clamp32 (leading b)

theorem clamp32_eq_self {n : Int} (h : -2 ^ 31 ≤ n ∧ n < 2 ^ 31) : clamp32 n = n := by
  unfold clamp32; omega

theorem digit_toNat {d : Nat} (h : d < 10) : (UInt8.ofNat (48 + d)).toNat = 48 + d := by
  simp only [UInt8.toNat_ofNat']
  omega

theorem isDigit_digit {d : Nat} (h : d < 10) : isDigit (UInt8.ofNat (48 + d)) = true := by
  simp only [isDigit, digit_toNat h]
  simp; omega

theorem isDigit_of_mem_digits {n : Nat} {c : UInt8} (h : c ∈ digits n) : isDigit c = true := by
  unfold digits at h
  split at h
  · obtain rfl := List.mem_singleton.mp h; rfl
  · obtain ⟨d, hd, rfl⟩ := List.mem_map.mp h
    exact isDigit_digit (Nat.digits_lt_base (by omega) (List.mem_reverse.mp hd))

theorem digitsVal_map {ds : List Nat} (h : ∀ d ∈ ds, d < 10) (acc : Nat) :
    digitsVal acc (ds.map fun d => UInt8.ofNat (48 + d)) =
      ds.foldl (fun a d => a * 10 + d) acc := by
  induction ds generalizing acc with
  | nil => rfl
  | cons d ds ih =>
    have hd := h d List.mem_cons_self
    simp only [List.map_cons, digitsVal, isDigit_digit hd, if_true, digit_toNat hd,
      List.foldl_cons, Nat.add_sub_cancel_left]
    exact ih (fun x hx => h x (List.mem_cons_of_mem _ hx)) _

theorem digitsVal_digits (n : Nat) : digitsVal 0 (digits n) = n := by
  unfold digits
  split
  · next h => subst h; rfl
  · have hlt : ∀ d ∈ (Nat.digits 10 n).reverse, d < 10 := fun d hd =>
      Nat.digits_lt_base (by omega) (List.mem_reverse.mp hd)
    rw [digitsVal_map hlt, List.foldl_reverse]
    conv_rhs => rw [← Nat.ofDigits_digits 10 n, Nat.ofDigits_eq_foldr]
    congr 1
    funext d a
    simp only [Nat.cast_id]
    omega

theorem digits_ne_nil (n : Nat) : digits n ≠ [] := by
  unfold digits
  split
  · simp
  · next h => simpa [Nat.digits_eq_nil_iff_eq_zero] using h

/-- Printing an integer and reading it back. -/
theorem leading_decimal (n : Int) : leading (decimal n) = n := by
  unfold decimal
  split
  · next h =>
    have e : (45 :: digits n.natAbs).dropWhile isBlank = 45 :: digits n.natAbs := by
      rw [List.dropWhile_cons]; rfl
    simp only [leading, e, if_true, digitsVal_digits]
    omega
  · next h =>
    obtain ⟨c, r, hcr⟩ := List.exists_cons_of_ne_nil (digits_ne_nil n.natAbs)
    have hc : isDigit c = true := isDigit_of_mem_digits (hcr ▸ List.mem_cons_self)
    have hb : isBlank c = false := by
      simp only [isDigit, Bool.and_eq_true, decide_eq_true_eq] at hc
      simp only [isBlank, Bool.or_eq_false_iff, beq_eq_false_iff_ne, Bool.and_eq_false_iff,
        decide_eq_false_iff_not]
      omega
    have h45 : c ≠ 45 := by rintro rfl; simp [isDigit] at hc
    have h43 : c ≠ 43 := by rintro rfl; simp [isDigit] at hc
    have hv := digitsVal_digits n.natAbs
    rw [hcr] at hv ⊢
    simp only [leading, List.dropWhile_cons, hb, Bool.false_eq_true, if_false, h45, h43, hv]
    omega

theorem mem_decimal {n : Int} {c : UInt8} (h : c ∈ decimal n) : isDigit c = true ∨ c = 45 := by
  unfold decimal at h
  split at h
  · rcases List.mem_cons.mp h with rfl | h
    · exact .inr rfl
    · exact .inl (isDigit_of_mem_digits h)
  · exact .inl (isDigit_of_mem_digits h)

theorem cstr_decimal (n : Int) : cstr (decimal n) = decimal n := by
  apply cstr_eq_self
  intro c hc
  rcases mem_decimal hc with h | rfl
  · rintro rfl
    simp [isDigit] at h
  · decide

theorem atoi_decimal {n : Int} (h : -2 ^ 31 ≤ n ∧ n < 2 ^ 31) : atoi (decimal n) = n := by
  rw [atoi, leading_decimal, clamp32_eq_self h]

/-- Digits of a 32-bit integer, and its sign. -/
theorem length_decimal_le {n : Int} (h : -2 ^ 31 ≤ n ∧ n < 2 ^ 31) : (decimal n).length ≤ 11 := by
  have hdigits : (digits n.natAbs).length ≤ 10 := by
    unfold digits
    split
    · decide
    · rw [List.length_map, List.length_reverse]
      exact (Nat.digits_length_le_iff (by omega) _).mpr (by omega)
  unfold decimal
  split
  · exact Nat.succ_le_succ hdigits
  · omega

/-! ## Machine integers -/

/-- `n` as an unsigned `w`-bit integer. -/
def unsigned (w : Nat) (n : Int) : Nat := (n % 2 ^ w).toNat

abbrev u8 : Int → Nat := unsigned 8
abbrev u16 : Int → Nat := unsigned 16
abbrev u32 : Int → Nat := unsigned 32

theorem unsigned_of_nonneg {w : Nat} {n : Int} (h0 : 0 ≤ n) (h : n < 2 ^ w) :
    (unsigned w n : Int) = n := by
  unfold unsigned
  rw [Int.emod_eq_of_lt h0 h]
  omega

/-- The `k` little-endian bytes of `n` modulo `256 ^ k`. -/
def leBytes : Nat → Int → Bytes
  | 0, _ => []
  | k + 1, n => UInt8.ofNat (u8 n) :: leBytes k (n / 256)

@[simp] theorem leBytes_length (k : Nat) (n : Int) : (leBytes k n).length = k := by
  induction k generalizing n with
  | zero => rfl
  | succ k ih => simp [leBytes, ih]

/-- The integer a little-endian byte string holds. -/
def ofLE : Bytes → Nat
  | [] => 0
  | c :: cs => c.toNat + 256 * ofLE cs

end Text
