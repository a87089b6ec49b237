import Destiny.Text.Format

/-!
# SQL tokens

The lexer reads a text that may have holes: a byte is `.inl c`, a hole `.inr h`. A hole
may only stand inside a quoted string, and becomes part of that string's value. Lexing a
text of bytes is the case without holes. The lexer is an automaton run over the text
(`LexSt.step`), so a text is lexed piece by piece with `LexSt.feed_append`.

A string is opened and closed by a single quote. Inside it a backslash escapes the next
character (`unescape`) and a doubled quote stands for one quote. A text is `clean` when it
stands for itself there. `lex_inst` is the reason for holes: filling the holes of a text
with clean texts and then lexing gives the tokens of the text with the holes filled in.
-/

namespace Sql

open Text

inductive Token (α : Type) where
  | word (w : Bytes)
  /-- A name in backquotes. -/
  | ident (w : Bytes)
  | str (v : α)
  | num (ds : Bytes)
  | sym (c : UInt8)
  deriving DecidableEq, Repr

def Token.map {α β : Type} (f : α → β) : Token α → Token β
  | .word w => .word w
  | .ident w => .ident w
  | .str v => .str (f v)
  | .num ds => .num ds
  | .sym c => .sym c

inductive Mode (ι : Type) where
  | start
  | word (acc : Bytes)
  | num (acc : Bytes)
  | tick (acc : Bytes)
  | str (acc : List (UInt8 ⊕ ι))
  /-- After a backslash in a string. -/
  | esc (acc : List (UInt8 ⊕ ι))
  /-- After a quote in a string: its end, unless another quote follows. -/
  | quote (acc : List (UInt8 ⊕ ι))
  | bad
  deriving DecidableEq, Repr

structure LexSt (ι : Type) where
  mode : Mode ι
  toks : List (Token (List (UInt8 ⊕ ι)))
  deriving DecidableEq, Repr

/-- The characters a backslash and `c` stand for. -/
def unescape (c : UInt8) : Bytes :=
  if c = 48 then [0]          -- \0
  else if c = 98 then [8]     -- \b
  else if c = 110 then [10]   -- \n
  else if c = 114 then [13]   -- \r
  else if c = 116 then [9]    -- \t
  else if c = 90 then [26]    -- \Z
  -- `\%` and `\_` keep their backslash
  else if c = 37 ∨ c = 95 then [92, c]
  else [c]

/-- A text that stands for itself between quotes: it has no quote, and a backslash only
before `%` or `_`. -/
def clean : Bytes → Bool
  | [] => true
  | c :: b =>
    if c = 92 then match b with
      | [] => false
      | d :: b => (d == 37 || d == 95) && clean b
    else c != 39 && clean b

variable {ι κ : Type}

/-- The first character of a token. -/
def LexSt.begin (ts : List (Token (List (UInt8 ⊕ ι)))) (c : UInt8) : LexSt ι :=
  if isBlank c then ⟨.start, ts⟩
  else if c = 39 then ⟨.str [], ts⟩
  else if c = 96 then ⟨.tick [], ts⟩
  else if isDigit c then ⟨.num [c], ts⟩
  else if isLetter c then ⟨.word [c], ts⟩
  else ⟨.start, ts ++ [.sym c]⟩

def LexSt.step : LexSt ι → UInt8 ⊕ ι → LexSt ι
  | ⟨.start, ts⟩, .inl c => begin ts c
  | ⟨.word w, ts⟩, .inl c =>
    if isLetter c || isDigit c then ⟨.word (w ++ [c]), ts⟩ else begin (ts ++ [.word w]) c
  | ⟨.num w, ts⟩, .inl c =>
    if isDigit c then ⟨.num (w ++ [c]), ts⟩
    else if isLetter c then ⟨.word (w ++ [c]), ts⟩
    else begin (ts ++ [.num w]) c
  | ⟨.tick w, ts⟩, .inl c =>
    if c = 96 then ⟨.start, ts ++ [.ident w]⟩ else ⟨.tick (w ++ [c]), ts⟩
  | ⟨.str v, ts⟩, .inl c =>
    if c = 39 then ⟨.quote v, ts⟩
    else if c = 92 then ⟨.esc v, ts⟩
    else ⟨.str (v ++ [.inl c]), ts⟩
  | ⟨.str v, ts⟩, .inr h => ⟨.str (v ++ [.inr h]), ts⟩
  | ⟨.esc v, ts⟩, .inl c => ⟨.str (v ++ (unescape c).map .inl), ts⟩
  | ⟨.quote v, ts⟩, .inl c =>
    if c = 39 then ⟨.str (v ++ [.inl c]), ts⟩ else begin (ts ++ [.str v]) c
  | ⟨_, ts⟩, _ => ⟨.bad, ts⟩

def LexSt.finish : LexSt ι → Option (List (Token (List (UInt8 ⊕ ι))))
  | ⟨.start, ts⟩ => some ts
  | ⟨.word w, ts⟩ => some (ts ++ [.word w])
  | ⟨.num w, ts⟩ => some (ts ++ [.num w])
  | ⟨.quote v, ts⟩ => some (ts ++ [.str v])
  | _ => none

/-- The state after a text. -/
def LexSt.feed (st : LexSt ι) (its : List (UInt8 ⊕ ι)) : LexSt ι := its.foldl step st

@[simp] theorem LexSt.feed_nil (st : LexSt ι) : st.feed [] = st := rfl

@[simp] theorem LexSt.feed_cons (st : LexSt ι) (i : UInt8 ⊕ ι) (its : List (UInt8 ⊕ ι)) :
    st.feed (i :: its) = (st.step i).feed its := rfl

theorem LexSt.feed_append (st : LexSt ι) (a b : List (UInt8 ⊕ ι)) :
    st.feed (a ++ b) = (st.feed a).feed b := List.foldl_append

def lex (its : List (UInt8 ⊕ ι)) : Option (List (Token (List (UInt8 ⊕ ι)))) :=
  (LexSt.feed ⟨.start, []⟩ its).finish

/-! ## Tokens are only added -/

theorem LexSt.begin_toks (ts : List (Token (List (UInt8 ⊕ ι)))) (c : UInt8) :
    ts <+: (begin ts c).toks := by
  unfold begin
  split_ifs <;> first | exact List.prefix_rfl | exact List.prefix_append _ _

theorem LexSt.step_toks (st : LexSt ι) (i : UInt8 ⊕ ι) : st.toks <+: (st.step i).toks := by
  obtain ⟨m, ts⟩ := st
  cases m <;> cases i <;> simp only [step] <;> (try split_ifs) <;>
    first
    | exact List.prefix_rfl
    | exact List.prefix_append _ _
    | exact begin_toks _ _
    | exact (List.prefix_append _ _).trans (begin_toks _ _)

theorem LexSt.feed_toks (st : LexSt ι) (its : List (UInt8 ⊕ ι)) :
    st.toks <+: (st.feed its).toks := by
  induction its generalizing st with
  | nil => exact List.prefix_rfl
  | cons i its ih => exact (step_toks st i).trans (ih _)

theorem LexSt.finish_toks {st : LexSt ι} {ts : List (Token (List (UInt8 ⊕ ι)))}
    (h : st.finish = some ts) : st.toks <+: ts := by
  obtain ⟨m, us⟩ := st
  cases m <;> simp only [finish, Option.some.injEq, reduceCtorEq] at h <;> subst h <;>
    first | exact List.prefix_rfl | exact List.prefix_append _ _

theorem LexSt.feed_bad (ts : List (Token (List (UInt8 ⊕ ι)))) (its : List (UInt8 ⊕ ι)) :
    (feed ⟨.bad, ts⟩ its).finish = none := by
  induction its with
  | nil => rfl
  | cons i its ih => cases i <;> exact ih

/-! ## Filling holes -/

def Mode.map (f : List (UInt8 ⊕ ι) → List (UInt8 ⊕ κ)) : Mode ι → Mode κ
  | .start => .start
  | .word w => .word w
  | .num w => .num w
  | .tick w => .tick w
  | .str v => .str (f v)
  | .esc v => .esc (f v)
  | .quote v => .quote (f v)
  | .bad => .bad

/-- A text with its holes filled in, again as a text. -/
def refill (ρ : ι → Bytes) (v : List (UInt8 ⊕ ι)) : List (UInt8 ⊕ κ) := (inst ρ v).map .inl

def LexSt.fill (ρ : ι → Bytes) (st : LexSt ι) : LexSt κ :=
  ⟨st.mode.map (refill ρ), st.toks.map (Token.map (refill ρ))⟩

variable (ρ : ι → Bytes)

@[simp] theorem refill_nil : refill (κ := κ) ρ [] = [] := rfl

theorem refill_append (a b : List (UInt8 ⊕ ι)) :
    refill (κ := κ) ρ (a ++ b) = refill ρ a ++ refill ρ b := by simp [refill]

@[simp] theorem refill_map_inl (b : Bytes) :
    refill (κ := κ) ρ (b.map .inl) = b.map .inl := by simp [refill]

@[simp] theorem refill_inl (c : UInt8) : refill (κ := κ) ρ [.inl c] = [.inl c] := rfl

theorem LexSt.fill_begin (ts : List (Token (List (UInt8 ⊕ ι)))) (c : UInt8) :
    (begin ts c).fill (κ := κ) ρ = begin (ts.map (Token.map (refill ρ))) c := by
  unfold begin
  split_ifs <;> simp [fill, Mode.map, Token.map]

theorem LexSt.fill_begin_append (ts : List (Token (List (UInt8 ⊕ ι))))
    (t : Token (List (UInt8 ⊕ ι))) (c : UInt8) : (begin (ts ++ [t]) c).fill (κ := κ) ρ =
      begin (ts.map (Token.map (refill ρ)) ++ [t.map (refill ρ)]) c := by
  rw [fill_begin, List.map_append]; rfl

/-- A byte of the text. -/
theorem LexSt.fill_step_inl (st : LexSt ι) (c : UInt8) :
    (st.step (.inl c)).fill (κ := κ) ρ = (st.fill ρ).step (.inl c) := by
  obtain ⟨m, ts⟩ := st
  cases m with
  | start => exact fill_begin ρ ts c
  | word w =>
    simp only [step, fill, Mode.map]
    split_ifs
    · rfl
    · exact fill_begin_append ρ ts (.word w) c
  | num w =>
    simp only [step, fill, Mode.map]
    split_ifs
    · rfl
    · rfl
    · exact fill_begin_append ρ ts (.num w) c
  | tick w =>
    simp only [step, fill, Mode.map]
    split_ifs
    · simp [Token.map]
    · rfl
  | str v =>
    simp only [step, fill, Mode.map]
    split_ifs
    · rfl
    · rfl
    · simp [refill_append]
  | esc v => simp [step, fill, Mode.map, refill_append]
  | quote v =>
    simp only [step, fill, Mode.map]
    split_ifs
    · simp [refill_append]
    · exact fill_begin_append ρ ts (.str v) c
  | bad => rfl

theorem unescape_wild {d : UInt8} (h : d = 37 ∨ d = 95) : unescape d = [92, d] := by
  rcases h with rfl | rfl <;> rfl

/-- Inside a string a clean text is added as it stands. -/
theorem LexSt.feed_clean : ∀ {b : Bytes}, clean b → ∀ (v : List (UInt8 ⊕ κ))
    (ts : List (Token (List (UInt8 ⊕ κ)))),
    feed ⟨.str v, ts⟩ (b.map .inl) = ⟨.str (v ++ b.map .inl), ts⟩
  | [], _, v, ts => by simp
  | c :: b, hb, v, ts => by
    rw [clean.eq_def] at hb
    dsimp only at hb
    by_cases hc : c = 92
    · subst hc
      cases b with
      | nil => cases hb
      | cons d b =>
        rw [if_pos rfl, Bool.and_eq_true, Bool.or_eq_true, beq_iff_eq, beq_iff_eq] at hb
        have hstep : feed ⟨.str v, ts⟩ ([92, d].map .inl) = ⟨.str (v ++ [.inl 92, .inl d]), ts⟩ := by
          simp [feed, step, unescape_wild hb.1]
        rw [show 92 :: d :: b = [92, d] ++ b from rfl, List.map_append, feed_append, hstep,
          feed_clean hb.2]
        simp
    · rw [if_neg hc, Bool.and_eq_true, bne_iff_ne] at hb
      rw [List.map_cons, feed_cons, step, if_neg hb.1, if_neg hc, feed_clean hb.2]
      simp

/-- **Lexing and filling holes commute**, for clean fillings. -/
theorem LexSt.feed_fill (hρ : ∀ h, clean (ρ h)) :
    ∀ (its : List (UInt8 ⊕ ι)) (st : LexSt ι) {ts : List (Token (List (UInt8 ⊕ ι)))},
      (st.feed its).finish = some ts →
      ((st.fill ρ).feed (refill (κ := κ) ρ its)).finish = some (ts.map (Token.map (refill ρ)))
  | [], ⟨m, us⟩, ts, h => by
    cases m <;> simp only [feed_nil, finish, Option.some.injEq, reduceCtorEq] at h <;>
      subst h <;> simp [fill, Mode.map, finish, Token.map]
  | .inl c :: its, st, ts, h => by
    have := feed_fill hρ its (st.step (.inl c)) h
    rwa [fill_step_inl] at this
  | .inr x :: its, ⟨m, us⟩, ts, h => by
    cases m with
    | str v =>
      have := feed_fill hρ its _ h
      rw [refill, inst_inr, List.map_append, feed_append]
      refine Eq.trans ?_ this
      congr 2
      exact (feed_clean (hρ x) _ _).trans (by simp [fill, step, Mode.map, refill])
    | _ => exact absurd ((feed_bad us its).symm.trans h) (by simp)

/-- **The tokens of a text with its holes filled in.** -/
theorem lex_inst (hρ : ∀ h, clean (ρ h)) {its : List (UInt8 ⊕ ι)}
    {ts : List (Token (List (UInt8 ⊕ ι)))} (h : lex its = some ts) :
    lex (refill (κ := κ) ρ its) = some (ts.map (Token.map (refill ρ))) :=
  LexSt.feed_fill ρ hρ its ⟨.start, []⟩ h

/-! ## What prints clean -/

theorem clean_cons {c : UInt8} (hc : c ≠ 92 ∧ c ≠ 39) (b : Bytes) : clean (c :: b) = clean b := by
  rw [clean.eq_def]
  simp [hc.1, hc.2]

theorem clean_of_digits {b : Bytes} (h : ∀ c ∈ b, isDigit c = true ∨ c = 45) : clean b := by
  induction b with
  | nil => rfl
  | cons c b ih =>
    rw [clean_cons ?_ b]
    · exact ih fun d hd => h d (List.mem_cons_of_mem _ hd)
    rcases h c List.mem_cons_self with h | rfl
    · exact ⟨by rintro rfl; simp [isDigit] at h, by rintro rfl; simp [isDigit] at h⟩
    · decide

theorem clean_decimal (n : Int) : clean (decimal n) := clean_of_digits fun _ => mem_decimal

/-- An argument whose text, if it is one, is clean. -/
def cleanArg : Arg → Bool
  | .str b _ => clean b
  | .int _ => true

theorem clean_fill {args : List Arg} (h : args.all cleanArg) (x : Hole) :
    clean (Text.fill args x) := by
  unfold Text.fill
  split
  · next a ha =>
    have := List.all_eq_true.mp h a (List.mem_of_getElem? ha)
    obtain ⟨k, n⟩ := x
    cases a <;> cases k <;> first | exact this | exact clean_decimal _
  · rfl

end Sql
