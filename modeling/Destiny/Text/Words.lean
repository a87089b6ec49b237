import Destiny.Text.Basic

/-!
# Words

`words b` are the words of a text: its longest pieces without a blank, in order. Where a text
starts with blanks they are skipped, and a word ends at a blank or with the text.
-/

namespace Text

/-- The words of a text. -/
def words (b : Bytes) : List Bytes := (b.splitOn 32).filter (· ≠ [])

@[simp] theorem words_nil : words [] = [] := rfl

@[simp] theorem words_blank (b : Bytes) : words (32 :: b) = words b := by
  rw [words, List.splitOn_cons_eq_if_modifyHead, if_pos (by decide)]
  rfl

/-- A text without blanks is one word. -/
theorem words_single {w : Bytes} (hw : w ≠ []) (h : 32 ∉ w) : words w = [w] := by
  rw [words, List.splitOn_eq_singleton h]
  simp [hw]

/-- A word ends at the first blank. -/
theorem words_word {w : Bytes} (hw : w ≠ []) (h : 32 ∉ w) (b : Bytes) :
    words (w ++ 32 :: b) = w :: words b := by
  have hsplit : (w ++ 32 :: b).splitOn 32 = w :: b.splitOn 32 := by
    apply List.splitOnP_append_cons_of_forall_mem
    · exact fun x hx => beq_false_of_ne (ne_of_mem_of_not_mem hx h)
    · rfl
  rw [words, hsplit, List.filter_cons_of_pos (by simpa using hw)]
  rfl

/-- What a text can start with. -/
inductive Starts : Bytes → Prop
  | nil : Starts []
  | blank (b : Bytes) : Starts b → Starts (32 :: b)
  | last (w : Bytes) : w ≠ [] → 32 ∉ w → Starts w
  | word (w b : Bytes) : w ≠ [] → 32 ∉ w → Starts (w ++ 32 :: b)

theorem starts (b : Bytes) : Starts b := by
  induction b with
  | nil => exact .nil
  | cons c b ih =>
    by_cases hc : c = 32
    · subst hc
      exact .blank b ih
    have hne : (32 : UInt8) ≠ c := fun h => hc h.symm
    cases ih with
    | nil => exact .last [c] (List.cons_ne_nil _ _) (by simpa using hne)
    | blank b _ => exact .word [c] b (List.cons_ne_nil _ _) (by simpa using hne)
    | last _ _ hb => exact .last _ (List.cons_ne_nil _ _) (by simpa using ⟨hne, hb⟩)
    | word w b _ hb => exact .word (c :: w) b (List.cons_ne_nil _ _) (by simpa using ⟨hne, hb⟩)

/-- The first `n` words of a text, when it has as many. -/
def firstWords (n : Nat) (b : Bytes) : Option (List Bytes) :=
  if n ≤ (words b).length then some ((words b).take n) else none

theorem firstWords_nil {b : Bytes} (h : words b = []) (n : Nat) : firstWords (n + 1) b = none := by
  rw [firstWords, h]
  exact if_neg (Nat.not_succ_le_zero n)

theorem firstWords_cons {b b' w : Bytes} (h : words b = w :: words b') (n : Nat) :
    firstWords (n + 1) b = (firstWords n b').map (w :: ·) := by
  unfold firstWords
  rw [h, List.length_cons, List.take_succ_cons]
  by_cases hn : n ≤ (words b').length
  · rw [if_pos hn, if_pos (show n + 1 ≤ _ + 1 from Nat.succ_le_succ hn)]
    rfl
  · rw [if_neg hn, if_neg (show ¬ n + 1 ≤ _ + 1 from fun h => hn (Nat.le_of_succ_le_succ h))]
    rfl

end Text
