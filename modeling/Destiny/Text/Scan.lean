import Destiny.Text.Basic
import Mathlib.Data.List.DropRight

/-!
# Scanning

Lines of a text, and reading an array through indices, as C does through pointers: an access
outside the array fails with an error of the caller's.
-/

namespace Text

variable {ε α β : Type} {e : ε} {p : UInt8 → Bool} {b v : Bytes}

/-! ## Lines -/

/-- The lines of a text, without the newline that ends them. -/
def lines : Bytes → List Bytes
  | [] => []
  | c :: b =>
    if c = 10 then [] :: lines b
    else
      match lines b with
      | [] => [[c]]
      | l :: ls => (c :: l) :: ls

/-- The first line, and what comes after its newline. -/
theorem lines_cons (h : b ≠ []) :
    lines b = b.takeWhile (· != 10) :: lines ((b.dropWhile (· != 10)).drop 1) := by
  induction b with
  | nil => exact absurd rfl h
  | cons c b ih =>
    by_cases hc : c = 10
    · rw [lines, if_pos hc, List.takeWhile_cons_of_neg (by simpa using hc),
        List.dropWhile_cons_of_neg (by simpa using hc)]
      rfl
    · rw [lines, if_neg hc, List.takeWhile_cons_of_pos (by simpa using hc),
        List.dropWhile_cons_of_pos (by simpa using hc)]
      rcases b with _ | ⟨d, b⟩
      · rfl
      · rw [ih (List.cons_ne_nil d b)]

theorem lines_eq_nil : lines b = [] ↔ b = [] := by
  constructor
  · intro h
    by_contra hb
    rw [lines_cons hb] at h
    cases h
  · rintro rfl
    rfl

theorem newline_not_mem_line : ∀ l ∈ lines b, (10 : UInt8) ∉ l := by
  induction b with
  | nil => exact List.forall_mem_nil _
  | cons c b ih =>
    unfold lines
    split
    · exact List.forall_mem_cons.mpr ⟨List.not_mem_nil, ih⟩
    · rename_i hc
      split
      · rename_i hb
        simpa using fun h => hc h.symm
      · rename_i l ls hb
        rw [hb, List.forall_mem_cons] at ih
        refine List.forall_mem_cons.mpr ⟨?_, ih.2⟩
        rw [List.mem_cons]
        rintro (h | h)
        · exact hc h.symm
        · exact ih.1 h

/-- A text is one line, or a line, its newline and the rest. -/
theorem lines_cases (h : b ≠ []) :
    ((10 : UInt8) ∉ b ∧ lines b = [b]) ∨
      ∃ l r, b = l ++ 10 :: r ∧ (10 : UInt8) ∉ l ∧ lines b = l :: lines r := by
  have hlines := lines_cons h
  have hline : (10 : UInt8) ∉ b.takeWhile (· != 10) := fun hmem => by
    simpa using List.mem_takeWhile_imp hmem
  have hsplit := List.takeWhile_append_dropWhile (p := (· != 10)) (l := b)
  cases hrest : b.dropWhile (· != 10) with
  | nil =>
    rw [hrest, List.append_nil] at hsplit
    rw [hrest, hsplit] at hlines
    rw [hsplit] at hline
    exact .inl ⟨hline, hlines⟩
  | cons c r =>
    have hc := List.head?_dropWhile_not (· != 10) b
    rw [hrest] at hc hsplit hlines
    obtain rfl : c = 10 := by simpa using hc
    exact .inr ⟨_, r, hsplit.symm, hline, hlines⟩

/-! ## Indices -/

/-- `b[i]`. -/
def charAt (e : ε) (b : Bytes) (i : Int) : Except ε UInt8 :=
  if 0 ≤ i then
    match b[i.toNat]? with
    | some c => .ok c
    | none => .error e
  else .error e

/-- `b[i] = c`. -/
def putChar (e : ε) (b : Bytes) (i : Int) (c : UInt8) : Except ε Bytes :=
  if 0 ≤ i ∧ i < b.length then .ok (b.set i.toNat c) else .error e

/-- `while (p(b[i])) ++i`. -/
def skipWhile (e : ε) (p : UInt8 → Bool) (b : Bytes) (i : Nat) : Except ε Nat :=
  let j := i + ((b.drop i).takeWhile p).length
  if j < b.length then .ok j else .error e

/-- A step that succeeds. -/
theorem ok_bind {m : Except ε α} {a : α} (h : m = .ok a) (f : α → Except ε β) : m >>= f = f a := by
  rw [h]
  rfl

theorem charAt_append (e : ε) (x t : Bytes) (c : UInt8) : charAt e (x ++ c :: t) x.length = .ok c := by
  unfold charAt
  rw [if_pos (Int.natCast_nonneg _), Int.toNat_natCast, List.getElem?_append_right (le_refl _),
    Nat.sub_self]
  rfl

theorem putChar_append (e : ε) (x t : Bytes) (c d : UInt8) :
    putChar e (x ++ c :: t) x.length d = .ok (x ++ d :: t) := by
  unfold putChar
  rw [if_pos (by simp), Int.toNat_natCast, List.set_append_right _ _ (le_refl _), Nat.sub_self]
  rfl

/-! ## Strings in an array -/

/-- What a scan passes of a string does not depend on what follows its NUL. -/
theorem takeWhile_string (hp : p 0 = false) (v t : Bytes) :
    (v ++ 0 :: t).takeWhile p = v.takeWhile p := by
  induction v with
  | nil => exact List.takeWhile_cons_of_neg (by simp [hp])
  | cons c v ih =>
    rw [List.cons_append, List.takeWhile_cons, List.takeWhile_cons, ih]

/-- A scan from the start of a string stops in it, at its NUL at the latest. -/
theorem skipWhile_string (e : ε) (hp : p 0 = false) (x v t : Bytes) :
    skipWhile e p (x ++ (v ++ 0 :: t)) x.length = .ok (x ++ v.takeWhile p).length := by
  have hle : (v.takeWhile p).length ≤ v.length := (List.takeWhile_prefix p).length_le
  unfold skipWhile
  rw [List.drop_left, takeWhile_string hp, ← List.length_append]
  dsimp only
  rw [if_pos (by simp only [List.length_append, List.length_cons]; omega)]

/-- The character at which a scan stops. -/
theorem charAt_string (e : ε) (p : UInt8 → Bool) (x v t : Bytes) :
    charAt e (x ++ (v ++ 0 :: t)) (x ++ v.takeWhile p).length = .ok ((v.dropWhile p).headD 0) := by
  have hsplit : x ++ (v ++ 0 :: t) = (x ++ v.takeWhile p) ++ (v.dropWhile p ++ 0 :: t) := by
    rw [List.append_assoc, ← List.append_assoc (v.takeWhile p), List.takeWhile_append_dropWhile]
  rw [hsplit]
  cases v.dropWhile p with
  | nil => exact charAt_append e _ t 0
  | cons c r => exact charAt_append e _ (r ++ 0 :: t) c

theorem cstr_string (h : (0 : UInt8) ∉ v) (t : Bytes) : cstr (v ++ 0 :: t) = v := by
  unfold cstr
  rw [takeWhile_string rfl]
  exact cstr_eq_self fun c hc => ne_of_mem_of_not_mem hc h

/-- The length of a string in an array. -/
theorem strlen_string (e : ε) (h : (0 : UInt8) ∉ v) (x t : Bytes) :
    skipWhile e (· != 0) (x ++ (v ++ 0 :: t)) x.length = .ok (x ++ v).length := by
  have hall : v.takeWhile (· != 0) = v := cstr_eq_self fun c hc => ne_of_mem_of_not_mem hc h
  rw [skipWhile_string e rfl, hall]

end Text
