import Destiny.Prog.Frame
import Mathlib.Data.List.Chain

/-!
# Index loops that erase

`for (i = 0; i < l.size(); i++)` over a vector whose elements may be erased when the loop
looks at them. The index moves on all the same, so an element that follows an erased one is
skipped. `looked p l`, `skipped p l` and `kept p l` are the elements of `l` that the loop
looks at, that it skips, and that are left, when it erases those it looks at with `p`.

`Turn` says what one turn of such a loop does, and `Turn.sweep` what the loop does.
-/

namespace Prog

section Lists
variable {α : Type} (p : α → Bool)

def looked : List α → List α
  | [] => []
  | [a] => [a]
  | a :: b :: l => a :: if p a then looked l else looked (b :: l)

def skipped : List α → List α
  | [] => []
  | [_] => []
  | a :: b :: l => if p a then b :: skipped l else skipped (b :: l)

def kept : List α → List α
  | [] => []
  | [a] => if p a then [] else [a]
  | a :: b :: l => if p a then b :: kept l else a :: kept (b :: l)

variable {p} {a b : α} {l : List α}

theorem looked_cons_pos (h : p a) : looked p (a :: b :: l) = a :: looked p l := by
  rw [looked, if_pos h]

theorem looked_cons_neg (h : ¬ p a) : looked p (a :: b :: l) = a :: looked p (b :: l) := by
  rw [looked, if_neg h]

theorem skipped_cons_pos (h : p a) : skipped p (a :: b :: l) = b :: skipped p l := by
  rw [skipped, if_pos h]

theorem skipped_cons_neg (h : ¬ p a) : skipped p (a :: b :: l) = skipped p (b :: l) := by
  rw [skipped, if_neg h]

theorem kept_cons_pos (h : p a) : kept p (a :: b :: l) = b :: kept p l := by
  rw [kept, if_pos h]

theorem kept_cons_neg (h : ¬ p a) : kept p (a :: b :: l) = a :: kept p (b :: l) := by
  rw [kept, if_neg h]

/-- Each element is looked at or skipped. -/
theorem looked_append_skipped (l : List α) : (looked p l ++ skipped p l).Perm l := by
  induction l using skipped.induct p with
  | case1 => exact .refl _
  | case2 a => exact .refl _
  | case3 a b l h ih =>
    rw [looked_cons_pos h, skipped_cons_pos h, List.cons_append]
    exact (List.perm_middle.trans (ih.cons b)).cons a
  | case4 a b l h ih =>
    rw [looked_cons_neg h, skipped_cons_neg h, List.cons_append]
    exact ih.cons a

theorem mem_of_looked (h : a ∈ looked p l) : a ∈ l :=
  (looked_append_skipped l).subset (List.mem_append_left _ h)

theorem mem_of_skipped (h : a ∈ skipped p l) : a ∈ l :=
  (looked_append_skipped l).subset (List.mem_append_right _ h)

theorem looked_nodup (h : l.Nodup) : (looked p l).Nodup :=
  (List.nodup_append.mp ((looked_append_skipped l).nodup_iff.mpr h)).1

/-- In a list without repetitions an element is looked at just when it is not skipped. -/
theorem looked_iff (h : l.Nodup) (ha : a ∈ l) : a ∈ looked p l ↔ a ∉ skipped p l := by
  have hnodup : (looked p l ++ skipped p l).Nodup := (looked_append_skipped l).nodup_iff.mpr h
  have hmem : a ∈ looked p l ++ skipped p l := (looked_append_skipped l).symm.subset ha
  constructor
  · intro hl hs
    exact (List.nodup_append.mp hnodup).2.2 a hl a hs rfl
  · intro hs
    exact (List.mem_append.mp hmem).resolve_right hs

/-- What is skipped is left. -/
theorem kept_of_skipped (h : a ∈ skipped p l) : a ∈ kept p l := by
  induction l using skipped.induct p with
  | case1 => cases h
  | case2 b => cases h
  | case3 b c l hb ih =>
    rw [skipped_cons_pos hb] at h
    rw [kept_cons_pos hb]
    rcases List.mem_cons.mp h with rfl | h
    · exact List.mem_cons_self
    · exact List.mem_cons_of_mem _ (ih h)
  | case4 b c l hb ih =>
    rw [skipped_cons_neg hb] at h
    rw [kept_cons_neg hb]
    exact List.mem_cons_of_mem _ (ih h)

theorem kept_eq_filter (h : ∀ b ∈ skipped p l, ¬ p b) : kept p l = l.filter fun a => !p a := by
  induction l using skipped.induct p with
  | case1 => rfl
  | case2 a =>
    unfold kept
    split <;> simp_all
  | case3 a b l ha ih =>
    rw [skipped_cons_pos ha] at h
    have hb : ¬ p b := h b List.mem_cons_self
    rw [kept_cons_pos ha, ih fun c hc => h c (List.mem_cons_of_mem _ hc)]
    simp [ha, hb]
  | case4 a b l ha ih =>
    rw [skipped_cons_neg ha] at h
    rw [kept_cons_neg ha, ih h]
    simp [ha]

/-- The loop leaves what it should just when nothing it skips should have gone. -/
theorem kept_eq_filter_iff :
    (kept p l = l.filter fun a => !p a) ↔ ∀ b ∈ skipped p l, ¬ p b := by
  refine ⟨fun h b hb hpb => ?_, kept_eq_filter⟩
  have hmem := kept_of_skipped hb
  rw [h, List.mem_filter] at hmem
  simp [hpb] at hmem

/-- Nothing with `q` is skipped just when nothing with `q` follows an element that would be
erased, provided these have `q` themselves. -/
theorem skipped_iff_isChain {q : α → Prop} (hpq : ∀ a, p a → q a) :
    (∀ b ∈ skipped p l, ¬ q b) ↔ l.IsChain fun a b => p a → ¬ q b := by
  induction l using skipped.induct p with
  | case1 => simp [skipped]
  | case2 a => simp [skipped]
  | case3 a b l ha ih =>
    rw [skipped_cons_pos ha, List.forall_mem_cons, ih, List.isChain_cons_cons]
    constructor
    · rintro ⟨hb, hl⟩
      exact ⟨fun _ => hb, List.isChain_cons.mpr ⟨fun _ _ hpb => absurd (hpq b hpb) hb, hl⟩⟩
    · rintro ⟨hb, hl⟩
      exact ⟨hb ha, (List.isChain_cons.mp hl).2⟩
  | case4 a b l ha ih =>
    rw [skipped_cons_neg ha, ih, List.isChain_cons_cons]
    exact (and_iff_right fun h => absurd h ha).symm

end Lists

/-! ## The loop -/

section Loop
variable {ε σ α β : Type} (list : σ → List α) (oob : ε) (body : α → β → EStateM ε σ β)

/-- At most `n` turns of the loop, from an index on. `oob` is the fault of an index past the
end of the vector. -/
def sweep : Nat → Nat → β → EStateM ε σ β
  | 0, _, b => pure b
  | n + 1, i, b => do
    let s ← get
    if i < (list s).length then
      match (list s)[i]? with
      | none => throw oob
      | some a => do
        let b ← body a b
        sweep n (i + 1) b
    else pure b

/-- One turn: from a state with `I`, the body does what `next` says, and erases what it looks
at just when that has `p`. -/
structure Turn [DecidableEq α] (p : α → Bool) (next : α → β × σ → β × σ) (I : σ → Prop) : Prop where
  nodup : ∀ s, I s → (list s).Nodup
  runs : ∀ a b s, I s → a ∈ list s → body a b s = .ok (next a (b, s)).1 (next a (b, s)).2
  keeps : ∀ a b s, I s → a ∈ list s → I (next a (b, s)).2
  erases : ∀ a b s, I s → a ∈ list s →
    list (next a (b, s)).2 = if p a then (list s).erase a else list s

variable {list oob body} {n i : Nat} {a : α} {b : β} {s : σ} {pre l : List α}

theorem sweep_done (h : (list s).length ≤ i) : sweep list oob body n i b s = .ok b s := by
  cases n with
  | zero => rfl
  | succ n =>
    change (if i < (list s).length then _ else pure b : EStateM ε σ β) s = _
    rw [if_neg (Nat.not_lt.mpr h)]
    rfl

theorem sweep_succ (h : list s = pre ++ a :: l) :
    sweep list oob body (n + 1) pre.length b s =
      (body a b >>= fun b => sweep list oob body n (pre.length + 1) b) s := by
  have hlt : pre.length < (list s).length := by rw [h]; simp
  have hget : (list s)[pre.length]? = some a := by rw [h]; simp
  change (if pre.length < (list s).length then _ else pure b : EStateM ε σ β) s = _
  rw [if_pos hlt, hget]

section
variable [DecidableEq α] {p : α → Bool} {next : α → β × σ → β × σ} {I : σ → Prop}

/-- **The loop rule.** The body is done for the elements looked at, in order, and the vector
keeps the others and those skipped. The loop ends by itself: the number of turns matters
only in that it is not too small. -/
theorem Turn.sweep (h : Turn list body p next I) (oob : ε) (b : β) (pre : List α) (hs : I s)
    (hl : list s = pre ++ l) (hn : l.length ≤ n) :
    Prog.sweep list oob body n pre.length b s =
        .ok ((looked p l).foldl (fun r a => next a r) (b, s)).1
          ((looked p l).foldl (fun r a => next a r) (b, s)).2 ∧
      I ((looked p l).foldl (fun r a => next a r) (b, s)).2 ∧
      list ((looked p l).foldl (fun r a => next a r) (b, s)).2 = pre ++ kept p l := by
  induction l using skipped.induct p generalizing n pre b s with
  | case1 =>
    rw [List.append_nil] at hl
    exact ⟨sweep_done (by rw [hl]), hs, by rw [looked, kept, List.append_nil]; exact hl⟩
  | case2 a =>
    obtain ⟨n, rfl⟩ : ∃ m, n = m + 1 := ⟨n - 1, by simp at hn; omega⟩
    have ha : a ∈ list s := by rw [hl]; simp
    have hkept : list (next a (b, s)).2 = pre ++ kept p [a] := by
      rw [h.erases a b s hs ha, hl, kept]
      split
      · have hpre : a ∉ pre := fun hmem => (List.nodup_append.mp (hl ▸ h.nodup s hs)).2.2 a hmem a
          List.mem_cons_self rfl
        rw [List.erase_append_right _ hpre, List.erase_cons_head]
      · rfl
    refine ⟨?_, h.keeps a b s hs ha, hkept⟩
    rw [sweep_succ hl, bind_ok (h.runs a b s hs ha)]
    refine sweep_done ?_
    rw [hkept, List.length_append]
    refine Nat.add_le_add_left ?_ _
    unfold kept
    split <;> simp
  | case3 a c l hpa ih =>
    obtain ⟨n, rfl⟩ : ∃ m, n = m + 1 := ⟨n - 1, by simp at hn; omega⟩
    have ha : a ∈ list s := by rw [hl]; simp
    have hpre : a ∉ pre := fun hmem => (List.nodup_append.mp (hl ▸ h.nodup s hs)).2.2 a hmem a
      List.mem_cons_self rfl
    -- the element after the erased one takes its place, and the index moves past it
    have hnext : list (next a (b, s)).2 = (pre ++ [c]) ++ l := by
      rw [h.erases a b s hs ha, if_pos hpa, hl, List.erase_append_right _ hpre,
        List.erase_cons_head, List.append_assoc, List.singleton_append]
    have hrest := ih (n := n) (next a (b, s)).1 _ (h.keeps a b s hs ha) hnext
      (by simp at hn; omega)
    rw [sweep_succ hl, bind_ok (h.runs a b s hs ha), looked_cons_pos hpa, kept_cons_pos hpa]
    rw [List.length_append, List.append_assoc] at hrest
    exact hrest
  | case4 a c l hpa ih =>
    obtain ⟨n, rfl⟩ : ∃ m, n = m + 1 := ⟨n - 1, by simp at hn; omega⟩
    have ha : a ∈ list s := by rw [hl]; simp
    have hnext : list (next a (b, s)).2 = (pre ++ [a]) ++ (c :: l) := by
      rw [h.erases a b s hs ha, if_neg hpa, hl, List.append_assoc, List.singleton_append]
    have hrest := ih (n := n) (next a (b, s)).1 _ (h.keeps a b s hs ha) hnext
      (by simp at hn ⊢; omega)
    rw [sweep_succ hl, bind_ok (h.runs a b s hs ha), looked_cons_neg hpa, kept_cons_neg hpa]
    rw [List.length_append, List.append_assoc] at hrest
    exact hrest

end

end Loop

end Prog
