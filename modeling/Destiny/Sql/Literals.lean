import Destiny.Sql.Parser

/-!
# String literals

`quoted` reads a text that follows an opening quote: the value of the literal, and what
follows its closing quote. The lexer reads no other value there (`quoted_of_finish`).

A text put between quotes is read back as itself only if it is clean: everything that is
not clean makes the value shorter, or carries the literal over the closing quote into what
follows (`quoted_value`).
-/

namespace Sql

open Text

def quoted : Bytes → Option (Bytes × Bytes)
  | [] => none
  | c :: b =>
    if c = 39 then match b with
      | [] => some ([], [])
      | d :: b => if d = 39 then (quoted b).map fun p => (39 :: p.1, p.2) else some ([], d :: b)
    else if c = 92 then match b with
      | [] => none
      | d :: b => (quoted b).map fun p => (unescape d ++ p.1, p.2)
    else (quoted b).map fun p => (c :: p.1, p.2)

section Equations
variable {c d : UInt8} {b : Bytes}

theorem quoted_close : quoted [39] = some ([], []) := rfl

theorem quoted_doubled : quoted (39 :: 39 :: b) = (quoted b).map fun p => (39 :: p.1, p.2) := rfl

theorem quoted_closed (hd : d ≠ 39) : quoted (39 :: d :: b) = some ([], d :: b) := by
  rw [quoted.eq_def]; exact if_neg hd

theorem quoted_escaped : quoted (92 :: d :: b) =
    (quoted b).map fun p => (unescape d ++ p.1, p.2) := rfl

theorem quoted_char (h1 : c ≠ 39) (h2 : c ≠ 92) :
    quoted (c :: b) = (quoted b).map fun p => (c :: p.1, p.2) := by
  rw [quoted.eq_def]; simp [h1, h2]

end Equations

/-- A finished text begins, after an opening quote, with the literal that `quoted` reads. -/
theorem quoted_of_finish {ι : Type} {b : Bytes} {v : List (UInt8 ⊕ ι)}
    {ts toks : List (Token (List (UInt8 ⊕ ι)))}
    (h : (LexSt.feed ⟨.str v, ts⟩ (b.map .inl)).finish = some toks) :
    ∃ w r, quoted b = some (w, r) ∧ (ts ++ [.str (v ++ w.map .inl)]) <+: toks := by
  cases b with
  | nil => exact (Option.some_ne_none _ h.symm).elim
  | cons c b =>
    rw [List.map_cons, LexSt.feed_cons] at h
    by_cases h39 : c = 39
    · subst h39
      cases b with
      | nil => exact ⟨[], [], rfl, by cases h; simp⟩
      | cons d b =>
        by_cases hd : d = 39
        · subst hd
          obtain ⟨w, r, hq, hp⟩ := quoted_of_finish h
          exact ⟨39 :: w, r, by rw [quoted_doubled, hq]; rfl, by simpa using hp⟩
        · refine ⟨[], d :: b, quoted_closed hd, ?_⟩
          have hover : (LexSt.feed ⟨.quote v, ts⟩ ((d :: b).map .inl)).finish = some toks := h
          rw [List.map_cons, LexSt.feed_cons, LexSt.step, if_neg hd] at hover
          simpa using ((LexSt.begin_toks _ d).trans (LexSt.feed_toks _ _)).trans
            (LexSt.finish_toks hover)
    · by_cases h92 : c = 92
      · subst h92
        cases b with
        | nil => exact (Option.some_ne_none _ h.symm).elim
        | cons d b =>
          obtain ⟨w, r, hq, hp⟩ := quoted_of_finish (b := b) h
          exact ⟨unescape d ++ w, r, by rw [quoted_escaped, hq]; rfl, by simpa using hp⟩
      · rw [LexSt.step, if_neg h39, if_neg h92] at h
        obtain ⟨w, r, hq, hp⟩ := quoted_of_finish h
        exact ⟨c :: w, r, by rw [quoted_char h39 h92, hq]; rfl, by simpa using hp⟩

/-- How the literal `w` before `r` compares to the text `b` put between quotes before `z`: it
is `b` and `b` is clean, or it is shorter, or it took `n` characters from `z`. -/
def ReadBack (z : Bytes) (n : Nat) (b w r : Bytes) : Prop :=
  (clean b ∧ w = b ∧ r = z) ∨ w.length < b.length ∨ n ≤ w.length

section ReadBack
variable {z b w r x y : Bytes} {n : Nat} {c d : UInt8}

theorem ReadBack.char (h : ReadBack z n b w r) (hc : c ≠ 92 ∧ c ≠ 39) :
    ReadBack z n (c :: b) (c :: w) r := by
  rcases h with ⟨hb, rfl, rfl⟩ | h | h
  · exact .inl ⟨by rw [clean_cons hc]; exact hb, rfl, rfl⟩
  · exact .inr (.inl (Nat.succ_lt_succ h))
  · exact .inr (.inr (Nat.le_succ_of_le h))

theorem ReadBack.wild (h : ReadBack z n b w r) (hd : d = 37 ∨ d = 95) :
    ReadBack z n (92 :: d :: b) (92 :: d :: w) r := by
  rcases h with ⟨hb, rfl, rfl⟩ | h | h
  · refine .inl ⟨?_, rfl, rfl⟩
    rw [clean.eq_def]
    simpa [hb] using hd
  · exact .inr (.inl (by simpa using h))
  · exact .inr (.inr (by simp only [List.length_cons]; omega))

/-- Characters read as fewer. -/
theorem ReadBack.shrink (h : ReadBack z n b w r) (hxy : x.length < y.length) :
    ReadBack z n (y ++ b) (x ++ w) r := by
  simp only [ReadBack, List.length_append]
  rcases h with ⟨-, rfl, -⟩ | h | h <;> omega

end ReadBack

theorem unescape_length {d : UInt8} (h : ¬ (d = 37 ∨ d = 95)) : (unescape d).length = 1 := by
  unfold unescape
  split_ifs <;> rfl

/-- **What a text between quotes is read as.** After `b` stands a quote, and then a `z` that
does not double it and gives a literal that runs into it `n` characters or more. -/
theorem quoted_value {z : Bytes} {n : Nat} (hz : z.head? ≠ some 39)
    (hn : ∀ w r, quoted z = some (w, r) → n ≤ w.length) : ∀ {b w r : Bytes},
    quoted (b ++ 39 :: z) = some (w, r) → ReadBack z n b w r
  | [], w, r, h => by
    cases z with
    | nil => cases h; exact .inl ⟨rfl, rfl, rfl⟩
    | cons d z =>
      rw [List.nil_append, quoted_closed fun e => hz (by rw [e]; rfl)] at h
      cases h
      exact .inl ⟨rfl, rfl, rfl⟩
  | c :: b, w, r, h => by
    rw [List.cons_append] at h
    by_cases h39 : c = 39
    · subst h39
      cases b with
      | nil =>
        -- doubled by the quote before `z`
        obtain ⟨p, hp, he⟩ := Option.map_eq_some_iff.mp (quoted_doubled.symm.trans h)
        cases he
        exact .inr (.inr (Nat.le_succ_of_le (hn p.1 p.2 hp)))
      | cons d b =>
        by_cases hd : d = 39
        · subst hd
          obtain ⟨p, hp, he⟩ := Option.map_eq_some_iff.mp (quoted_doubled.symm.trans h)
          cases he
          exact (quoted_value hz hn (b := b) hp).shrink (x := [39]) (y := [39, 39]) (by decide)
        · cases (quoted_closed hd).symm.trans h
          exact .inr (.inl (Nat.zero_lt_succ _))
    by_cases h92 : c = 92
    · subst h92
      cases b with
      | nil =>
        -- the quote before `z` is escaped
        obtain ⟨p, hp, he⟩ := Option.map_eq_some_iff.mp (quoted_escaped.symm.trans h)
        cases he
        exact .inr (.inr (Nat.le_succ_of_le (hn p.1 p.2 hp)))
      | cons d b =>
        obtain ⟨p, hp, he⟩ := Option.map_eq_some_iff.mp (quoted_escaped.symm.trans h)
        cases he
        have hrest := quoted_value hz hn (b := b) hp
        by_cases hd : d = 37 ∨ d = 95
        · rw [unescape_wild hd]
          exact hrest.wild hd
        · exact hrest.shrink (y := [92, d]) (by rw [unescape_length hd]; exact Nat.lt_succ_self 1)
    rw [quoted_char h39 h92] at h
    obtain ⟨p, hp, he⟩ := Option.map_eq_some_iff.mp h
    cases he
    exact (quoted_value hz hn hp).char ⟨h92, h39⟩

/-- Characters that mean nothing in a literal are part of its value. -/
theorem quoted_plain {m : Bytes} (hm : ∀ c ∈ m, c ≠ 39 ∧ c ≠ 92) (b : Bytes) :
    quoted (m ++ b) = (quoted b).map fun p => (m ++ p.1, p.2) := by
  induction m with
  | nil => simp
  | cons c m ih =>
    have hc := hm c List.mem_cons_self
    rw [List.cons_append, quoted_char hc.1 hc.2, ih fun d hd => hm d (List.mem_cons_of_mem _ hd)]
    simp [Function.comp_def]

/-! ## The equalities a condition begins with -/

section Cond
variable {τ κ α : Type} {k : Bytes} {ts pre : List (Token α)}

theorem splitAt_append (ts : List (Token α)) (h : ∀ t ∈ pre, isWord k t = false) :
    ∃ g gs, splitAt k ts = g :: gs ∧ splitAt k (pre ++ ts) = (pre ++ g) :: gs := by
  induction pre with
  | nil =>
    cases hs : splitAt k ts with
    | nil =>
      cases ts with
      | nil => cases hs
      | cons t ts =>
        rw [splitAt] at hs
        split at hs
        · cases hs
        · split at hs <;> cases hs
    | cons g gs => exact ⟨g, gs, rfl, hs⟩
  | cons t pre ih =>
    obtain ⟨g, gs, hg, hgs⟩ := ih fun u hu => h u (List.mem_cons_of_mem _ hu)
    refine ⟨g, gs, hg, ?_⟩
    rw [List.cons_append, splitAt, h t List.mem_cons_self, hgs]
    rfl

theorem collect_cons {γ δ : Type} {f : γ → Option δ} {x : γ} {xs : List γ} {ys : List δ}
    (h : collect f (x :: xs) = some ys) :
    ∃ y ys', f x = some y ∧ collect f xs = some ys' ∧ ys = y :: ys' := by
  rw [collect] at h
  split at h
  · next y ys' hy hys => cases h; exact ⟨y, ys', hy, hys, rfl⟩
  · cases h

variable {S : Schema τ κ} {t : τ} {a b a' b' : Token α} {w : Cond κ α}

/-- An operand, neither `AND` nor `OR`. -/
def IsOperand (S : Schema τ κ) (t : τ) (a : Token α) (x : Operand κ α) : Prop :=
  operand S t a = some x ∧ isWord (ascii "AND") a = false ∧ isWord (ascii "OR") a = false

theorem isOperand_str (v : α) : IsOperand S t (.str v) (.str v) := ⟨rfl, rfl, rfl⟩

theorem atom_eq {x y : Operand κ α} (ha : IsOperand S t a x) (hb : IsOperand S t b y)
    {g : List (Token α)} {at' : Atom κ α} (h : atom S t ([a, .sym 61, b] ++ g) = some at') :
    at' = .eq x y := by
  cases g with
  | nil =>
    rw [List.append_nil, atom, ha.1, hb.1] at h
    cases h
    rfl
  | cons c g => exact (Option.some_ne_none _ h.symm).elim

theorem isWord_equality (ha : isWord k a = false) (hb : isWord k b = false) :
    ∀ u ∈ [a, .sym 61, b], isWord k u = false := by
  intro u hu
  simp only [List.mem_cons, List.not_mem_nil, or_false] at hu
  rcases hu with rfl | rfl | rfl <;> first | assumption | rfl

/-- A condition that begins with an equality. -/
theorem cond_eq {x y : Operand κ α} (ha : IsOperand S t a x) (hb : IsOperand S t b y)
    (h : cond S t ([a, .sym 61, b] ++ ts) = some w) : ∃ g gs, w = (.eq x y :: g) :: gs := by
  obtain ⟨g, gs, -, hor⟩ := splitAt_append ts (isWord_equality ha.2.2 hb.2.2)
  obtain ⟨g', gs', -, hand⟩ := splitAt_append g (isWord_equality ha.2.1 hb.2.1)
  rw [cond, hor] at h
  obtain ⟨c, cs, hc, -, rfl⟩ := collect_cons h
  rw [hand] at hc
  obtain ⟨e, es, he, -, rfl⟩ := collect_cons hc
  rw [atom_eq ha hb he]
  exact ⟨es, cs, rfl⟩

/-- A condition that begins with two equalities joined by `AND`. -/
theorem cond_eq_and_eq {x y x' y' : Operand κ α} (ha : IsOperand S t a x) (hb : IsOperand S t b y)
    (ha' : IsOperand S t a' x') (hb' : IsOperand S t b' y')
    (h : cond S t ([a, .sym 61, b] ++ (.word (ascii "AND") :: ([a', .sym 61, b'] ++ ts))) = some w) :
    ∃ g gs, w = (.eq x y :: .eq x' y' :: g) :: gs := by
  have hkey : isWord (ascii "OR") (.word (ascii "AND") : Token α) = false := by
    simp only [isWord]; decide
  obtain ⟨g, gs, -, h2⟩ := splitAt_append ts (isWord_equality ha'.2.2 hb'.2.2)
  have hor : splitAt (ascii "OR") ([a, .sym 61, b] ++ (.word (ascii "AND") :: ([a', .sym 61, b'] ++ ts)))
      = ([a, .sym 61, b] ++ (.word (ascii "AND") :: ([a', .sym 61, b'] ++ g))) :: gs := by
    obtain ⟨g0, gs0, h0, h1⟩ := splitAt_append
      (.word (ascii "AND") :: ([a', .sym 61, b'] ++ ts)) (isWord_equality ha.2.2 hb.2.2)
    rw [splitAt, hkey, h2] at h0
    cases h0
    exact h1
  obtain ⟨g', gs', -, h3⟩ := splitAt_append g (isWord_equality ha'.2.1 hb'.2.1)
  have hand : splitAt (ascii "AND") ([a, .sym 61, b] ++ (.word (ascii "AND") :: ([a', .sym 61, b'] ++ g)))
      = [a, .sym 61, b] :: ([a', .sym 61, b'] ++ g') :: gs' := by
    obtain ⟨g0, gs0, h0, h1⟩ := splitAt_append
      (.word (ascii "AND") :: ([a', .sym 61, b'] ++ g)) (isWord_equality ha.2.1 hb.2.1)
    rw [splitAt, isWord, if_pos (beq_self_eq_true _), h3] at h0
    cases h0
    rw [h1, List.append_nil]
  rw [cond, hor] at h
  obtain ⟨c, cs, hc, -, rfl⟩ := collect_cons h
  rw [hand] at hc
  obtain ⟨e, es, he, hes, rfl⟩ := collect_cons hc
  obtain ⟨e', es', he', -, rfl⟩ := collect_cons hes
  rw [← List.append_nil [a, .sym 61, b]] at he
  rw [atom_eq ha hb he, atom_eq ha' hb' he']
  exact ⟨es', cs, rfl⟩

end Cond

end Sql
