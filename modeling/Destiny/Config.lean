import Destiny.Text.Scan

/-!
# Configuration files

`ConfigGetString` finds the entry of a key in a configuration file. Its line buffer is unset at
first and keeps what the last line left in it, so a failed read is followed by another look at
that. An entry's value is taken to the end of the line: the loop that removes trailing blanks is
never reached, and a leading quote takes the last character with it whatever that is.
-/

namespace Destiny

open Text

inductive ConfigFault where
  | outsideBuffer
  | outsideValue
  | fuel
  deriving DecidableEq

/-! ## The code -/

/-- `' '` and `'\t'`. -/
def isSpace (c : UInt8) : Bool := c == 32 || c == 9

/-- A character that does not end a name: none of `' '`, `'\t'`, `'#'`, `'='` and NUL. -/
def inName (c : UInt8) : Bool := !isSpace c && c != 35 && c != 61 && c != 0

def isSpaceOrEq (c : UInt8) : Bool := isSpace c || c == 61

def lowerCase (c : UInt8) : UInt8 := if 65 ≤ c.toNat ∧ c.toNat ≤ 90 then c + 32 else c

/-- Whether `_strcmpi` of two strings is 0. -/
def sameName (a b : Bytes) : Bool := a.map lowerCase == b.map lowerCase

/-- What `fgets` takes when at most `n` characters fit: they, what is left, and whether the end
of the file was met. -/
def takeLine : Nat → Bytes → Bytes × Bytes × Bool
  | 0, fh => ([], fh, false)
  | _ + 1, [] => ([], [], true)
  | n + 1, c :: fh =>
    if c = 10 then ([c], fh, false)
    else
      let (l, rest, eof) := takeLine n fh
      (c :: l, rest, eof)

/-- `fgets(pcBuffer, n, fh)`, which leaves the buffer alone when there is nothing to read. -/
def fgets (pcBuffer : Bytes) (n : Nat) (fh : Bytes) : Bytes × Bytes × Bool :=
  let (l, rest, eof) := takeLine (n - 1) fh
  (if l = [] then pcBuffer else l ++ 0 :: pcBuffer.drop (l.length + 1), rest, eof)

/-- `while (blank(*pcPoint)) *pcPoint-- = 0`, from the character before the one given. -/
def trimEnd (pcResult : Bytes) : Nat → Except ConfigFault Bytes
  | 0 => .error .outsideValue
  | i + 1 => do
    let c ← charAt .outsideValue pcResult i
    if isSpace c then
      let pcResult ← putChar .outsideValue pcResult i 0
      trimEnd pcResult i
    else pure pcResult

/-- The copy of the value, with its NUL. -/
def dupValue (pcBuffer : Bytes) (pcPar : Nat) : Except ConfigFault Bytes := do
  let n ← skipWhile .outsideBuffer (· != 0) pcBuffer pcPar
  let pcResult := cstr (pcBuffer.drop pcPar) ++ [0]
  let c ← charAt .outsideValue pcResult (n - pcPar : Nat)
  if c = 0 then pure pcResult else trimEnd pcResult (n - pcPar)

/-- A name from `pcName` on: the value when it is the wanted one, and the buffer. -/
def scanEntry (pcBuffer pcNameMust : Bytes) (pcName : Nat) :
    Except ConfigFault (Option Bytes × Bytes) := do
  let pcPoint ← skipWhile .outsideBuffer inName pcBuffer pcName
  let c ← charAt .outsideBuffer pcBuffer pcPoint
  if c = 0 ∨ c = 35 then pure (none, pcBuffer)
  else
    let pcPar ← skipWhile .outsideBuffer isSpaceOrEq pcBuffer pcPoint
    let pcBuffer ← putChar .outsideBuffer pcBuffer pcPoint 0
    if sameName (cstr (pcBuffer.drop pcName)) (cstr pcNameMust) then
      let pcResult ← dupValue pcBuffer pcPar
      pure (some pcResult, pcBuffer)
    else pure (none, pcBuffer)

/-- A line without its newline, from the blanks before the name on. -/
def scanName (pcBuffer pcNameMust : Bytes) : Except ConfigFault (Option Bytes × Bytes) := do
  let pcName ← skipWhile .outsideBuffer isSpace pcBuffer 0
  let c ← charAt .outsideBuffer pcBuffer pcName
  if c = 0 ∨ c = 35 then pure (none, pcBuffer) else scanEntry pcBuffer pcNameMust pcName

/-- What is done with the buffer after `fgets`. -/
def scanLine (pcBuffer pcNameMust : Bytes) : Except ConfigFault (Option Bytes × Bytes) := do
  let len ← skipWhile .outsideBuffer (· != 0) pcBuffer 0
  let c ← charAt .outsideBuffer pcBuffer (len - 1 : Int)
  let len := if c = 10 then len - 1 else len
  let pcBuffer ← putChar .outsideBuffer pcBuffer len 0
  scanName pcBuffer pcNameMust

/-- The loop over the file. -/
def scanFile (pcNameMust : Bytes) : Nat → Bytes → Bytes → Except ConfigFault (Option Bytes)
  | 0, _, _ => .error .fuel
  | n + 1, pcBuffer, fh => do
    let (pcBuffer, fh, eof) := fgets pcBuffer 510 fh
    let (pcResult, pcBuffer) ← scanLine pcBuffer pcNameMust
    match pcResult with
    | some v => pure (some v)
    | none => if eof then pure none else scanFile pcNameMust n pcBuffer fh

/-- The file is `none` when it cannot be opened. `pcBuffer` is what the stack holds. -/
def configGetEntry (pcBuffer : Bytes) (pcFile : Option Bytes) (pcNameMust : Bytes) :
    Except ConfigFault (Bool × Option Bytes) :=
  match pcFile with
  | none => pure (false, none)
  | some fh => do
    let pcResult ← scanFile pcNameMust (fh.length + 1) pcBuffer fh
    pure (true, pcResult)

/-- The text of a value, without a leading quote and the last character. -/
def dropQuotes (pcRet : Bytes) : Except ConfigFault Bytes := do
  let c ← charAt .outsideValue pcRet 0
  if c = 34 then
    let n ← skipWhile .outsideValue (· != 0) pcRet 1
    let pcRet ← putChar .outsideValue pcRet (n - 1 : Int) 0
    pure (cstr (pcRet.drop 1))
  else pure (cstr pcRet)

def configGetString (pcBuffer : Bytes) (pcFile : Option Bytes) (pcName pcDefault : Bytes) :
    Except ConfigFault Bytes := do
  let (ok, pcRet) ← configGetEntry pcBuffer pcFile pcName
  if ok then
    match pcRet with
    | some pcRet => dropQuotes pcRet
    | none => pure (cstr pcDefault)
  else pure (cstr pcDefault)

/-- An unset line buffer. -/
structure LineBuffer where
  bytes : Bytes
  size : bytes.length = 512

/-! ## What a file says -/

/-- The name and the rest of a line that has an entry. -/
def entryOf (line : Bytes) : Option (Bytes × Bytes) :=
  let name := line.dropWhile isSpace
  let rest := name.dropWhile inName
  if name.head? = some 35 ∨ rest = [] ∨ rest.head? = some 35 then none
  else some (name.takeWhile inName, rest.dropWhile isSpaceOrEq)

/-- The value that a line gives a key. -/
def valueIn (key line : Bytes) : Option Bytes :=
  match entryOf (cstr line) with
  | some (name, value) => if sameName name (cstr key) then some value else none
  | none => none

/-- The value of a key, as it stands in the file. -/
def rawValue (file key : Bytes) : Option Bytes := (lines file).findSome? (valueIn key)

/-- A text without one surrounding pair of quotes. -/
def unquote (v : Bytes) : Bytes :=
  if 2 ≤ v.length ∧ v.head? = some 34 ∧ v.getLast? = some 34 then v.tail.dropLast else v

/-- What a file says about a key. -/
def configured (file key dflt : Bytes) : Bytes :=
  match rawValue file key with
  | some v => unquote (v.rdropWhile isSpace)
  | none => cstr dflt

variable {pcBuffer must key line file fh x v s t : Bytes} {n : Nat}

/-! ## An entry -/

theorem dupValue_apply (x t : Bytes) (h : (0 : UInt8) ∉ v) :
    dupValue (x ++ (v ++ 0 :: t)) x.length = .ok (v ++ [0]) := by
  have hend : (x ++ v).length - x.length = v.length := by
    rw [List.length_append]
    omega
  unfold dupValue
  refine (ok_bind (strlen_string _ h x t) _).trans ?_
  rw [List.drop_left, cstr_string h, hend]
  refine (ok_bind (charAt_append _ v [] 0) _).trans ?_
  exact if_pos rfl

/-- Without a separator after its name a line has no entry. -/
theorem scanEntry_none (must x t : Bytes)
    (hstop : v.dropWhile inName = [] ∨ (v.dropWhile inName).head? = some 35) :
    scanEntry (x ++ (v ++ 0 :: t)) must x.length = .ok (none, x ++ (v ++ 0 :: t)) := by
  have hc : (v.dropWhile inName).headD 0 = 0 ∨ (v.dropWhile inName).headD 0 = 35 := by
    rcases hstop with h | h
    · left
      rw [h]
      rfl
    · right
      rw [List.headD_eq_head?_getD, h]
      rfl
  unfold scanEntry
  refine (ok_bind (skipWhile_string _ rfl x v t) _).trans ?_
  refine (ok_bind (charAt_string _ inName x v t) _).trans ?_
  exact if_pos hc

theorem isSpaceOrEq_of_stop {d : UInt8} (h : inName d = false) (h35 : d ≠ 35) (h0 : d ≠ 0) :
    isSpaceOrEq d = true := by
  unfold inName at h
  unfold isSpaceOrEq
  cases hsp : isSpace d with
  | true => rfl
  | false =>
    rw [hsp] at h
    simpa [h35, h0] using h

/-- A line with an entry gives its value when the name is the wanted one. The name is cut off
from the rest. -/
theorem scanEntry_some (must x t : Bytes) (hv : (0 : UInt8) ∉ v) {d : UInt8} {rest : Bytes}
    (hrest : v.dropWhile inName = d :: rest) (hd : d ≠ 35) :
    scanEntry (x ++ (v ++ 0 :: t)) must x.length =
      .ok (if sameName (v.takeWhile inName) (cstr must) then
          some ((d :: rest).dropWhile isSpaceOrEq ++ [0]) else none,
        x ++ (v.takeWhile inName ++ 0 :: (rest ++ 0 :: t))) := by
  have hsplit : v = v.takeWhile inName ++ d :: rest := by
    rw [← hrest, List.takeWhile_append_dropWhile]
  generalize hw : v.takeWhile inName = w at hsplit ⊢
  have hmem : (0 : UInt8) ∉ w ∧ (0 : UInt8) ≠ d ∧ (0 : UInt8) ∉ rest := by
    rw [hsplit, List.mem_append, List.mem_cons, not_or, not_or] at hv
    exact hv
  obtain ⟨hw0, hd0, hr0⟩ := hmem
  have hsep : isSpaceOrEq d = true := by
    have hstop := List.head?_dropWhile_not inName v
    rw [hrest] at hstop
    exact isSpaceOrEq_of_stop hstop hd (Ne.symm hd0)
  have hval : (d :: rest).dropWhile isSpaceOrEq = rest.dropWhile isSpaceOrEq :=
    List.dropWhile_cons_of_pos hsep
  have hpoint := skipWhile_string ConfigFault.outsideBuffer (p := inName) rfl x v t
  have hc := charAt_string ConfigFault.outsideBuffer inName x v t
  rw [hw] at hpoint hc
  rw [hrest] at hc
  have hbuf : x ++ (v ++ 0 :: t) = (x ++ w) ++ (d :: rest ++ 0 :: t) := by
    rw [hsplit]
    simp only [List.append_assoc]
  have hpar := skipWhile_string ConfigFault.outsideBuffer (p := isSpaceOrEq) rfl (x ++ w) (d :: rest) t
  have hput : putChar ConfigFault.outsideBuffer (x ++ w ++ (d :: rest ++ 0 :: t)) (x ++ w).length 0 =
      .ok (x ++ (w ++ 0 :: (rest ++ 0 :: t))) := by
    rw [List.cons_append, putChar_append, List.append_assoc]
  unfold scanEntry
  refine (ok_bind hpoint _).trans ?_
  refine (ok_bind hc _).trans ?_
  refine (if_neg (not_or.mpr ⟨Ne.symm hd0, hd⟩)).trans ?_
  rw [hbuf]
  refine (ok_bind hpar _).trans ?_
  refine (ok_bind hput _).trans ?_
  rw [List.drop_left, cstr_string hw0]
  by_cases hname : sameName w (cstr must) = true
  · rw [if_pos hname, if_pos hname, hval]
    have hdup := dupValue_apply (x ++ (w ++ 0 :: rest.takeWhile isSpaceOrEq)) t
      (fun h => hr0 ((List.dropWhile_suffix isSpaceOrEq).subset h))
    have hlen : (x ++ w ++ (d :: rest).takeWhile isSpaceOrEq).length =
        (x ++ (w ++ 0 :: rest.takeWhile isSpaceOrEq)).length := by
      rw [List.takeWhile_cons_of_pos hsep]
      simp only [List.length_append, List.length_cons]
      omega
    have hbuf' : x ++ (w ++ 0 :: (rest ++ 0 :: t)) =
        x ++ (w ++ 0 :: rest.takeWhile isSpaceOrEq) ++ (rest.dropWhile isSpaceOrEq ++ 0 :: t) := by
      conv_lhs => rw [← List.takeWhile_append_dropWhile (p := isSpaceOrEq) (l := rest)]
      simp only [List.append_assoc, List.cons_append]
    rw [hlen, hbuf']
    exact ok_bind hdup _
  · rw [if_neg hname, if_neg hname]
    rfl

/-! ## A line -/

/-- A line without its newline. -/
def chomp (s : Bytes) : Bytes := if s.getLast? = some 10 then s.dropLast else s

/-- What a line leaves in the buffer: a name is cut off from what follows. -/
def leftOf (s : Bytes) : Bytes :=
  match entryOf s with
  | some (name, _) => s.takeWhile isSpace ++ name
  | none => s

theorem cstr_of_not_mem (h : (0 : UInt8) ∉ line) : cstr line = line :=
  cstr_eq_self fun _ hc => ne_of_mem_of_not_mem hc h

theorem valueIn_none (h0 : (0 : UInt8) ∉ line) (h : entryOf line = none) : valueIn key line = none := by
  unfold valueIn
  rw [cstr_of_not_mem h0, h]

theorem valueIn_some (h0 : (0 : UInt8) ∉ line) {name value : Bytes}
    (h : entryOf line = some (name, value)) :
    valueIn key line = if sameName name (cstr key) then some value else none := by
  unfold valueIn
  rw [cstr_of_not_mem h0, h]

/-- What is found in a line, and what the buffer is left with. -/
theorem scanName_apply (must t : Bytes) (h0 : (0 : UInt8) ∉ line) :
    ∃ t', scanName (line ++ 0 :: t) must =
      .ok ((valueIn must line).map (· ++ [0]), leftOf line ++ 0 :: t') := by
  have hskip := skipWhile_string ConfigFault.outsideBuffer (p := isSpace) rfl [] line t
  have hc := charAt_string ConfigFault.outsideBuffer isSpace [] line t
  have hbuf : line ++ 0 :: t =
      line.takeWhile isSpace ++ (line.dropWhile isSpace ++ 0 :: t) := by
    rw [← List.append_assoc, List.takeWhile_append_dropWhile]
  have hname0 : (0 : UInt8) ∉ line.dropWhile isSpace :=
    fun h => h0 ((List.dropWhile_suffix isSpace).subset h)
  by_cases hskipped : (line.dropWhile isSpace).headD 0 = 0 ∨ (line.dropWhile isSpace).headD 0 = 35
  · -- A blank line, or a comment.
    have hnone : entryOf line = none := by
      apply if_pos
      cases hname : line.dropWhile isSpace with
      | nil => exact .inr (.inl rfl)
      | cons c name =>
        rw [hname] at hskipped hname0
        rcases hskipped with h | h
        · exact absurd (h ▸ List.mem_cons_self) hname0
        · exact .inl (congrArg some h)
    refine ⟨t, ?_⟩
    unfold scanName
    refine (ok_bind hskip _).trans ?_
    refine (ok_bind hc _).trans ?_
    refine (if_pos hskipped).trans ?_
    unfold leftOf
    rw [valueIn_none h0 hnone, hnone]
    rfl
  · have hname : ¬(line.dropWhile isSpace).head? = some 35 := by
      intro h
      rw [List.headD_eq_head?_getD, h] at hskipped
      exact hskipped (.inr rfl)
    have hstep : scanName (line ++ 0 :: t) must =
        scanEntry (line ++ 0 :: t) must (line.takeWhile isSpace).length := by
      unfold scanName
      refine (ok_bind hskip _).trans ?_
      refine (ok_bind hc _).trans ?_
      exact if_neg hskipped
    rw [hstep, hbuf]
    by_cases hstop : (line.dropWhile isSpace).dropWhile inName = [] ∨
        ((line.dropWhile isSpace).dropWhile inName).head? = some 35
    · -- A name that nothing follows, or a comment.
      have hnone : entryOf line = none := if_pos (.inr hstop)
      refine ⟨t, ?_⟩
      rw [scanEntry_none must _ t hstop, ← hbuf]
      unfold leftOf
      rw [valueIn_none h0 hnone, hnone]
      rfl
    · have hsome : entryOf line = some ((line.dropWhile isSpace).takeWhile inName,
          ((line.dropWhile isSpace).dropWhile inName).dropWhile isSpaceOrEq) :=
        if_neg (not_or.mpr ⟨hname, hstop⟩)
      cases hrest : (line.dropWhile isSpace).dropWhile inName with
      | nil => exact absurd (.inl hrest) hstop
      | cons d rest =>
        have hd : d ≠ 35 := by
          rintro rfl
          rw [hrest] at hstop
          exact hstop (.inr rfl)
        refine ⟨rest ++ 0 :: t, ?_⟩
        rw [scanEntry_some must _ t hname0 hrest hd]
        unfold leftOf
        rw [valueIn_some h0 hsome, hsome, hrest, List.append_assoc]
        split <;> rfl

/-- Nothing before the first NUL: the byte before the buffer is read. -/
theorem scanLine_empty (must t : Bytes) : scanLine (0 :: t) must = .error .outsideBuffer := by
  have hlen := strlen_string ConfigFault.outsideBuffer (v := []) List.not_mem_nil [] t
  exact ok_bind hlen _

/-- The newline at the end of a string is dropped from the buffer. -/
theorem scanLine_apply (must t : Bytes) (h0 : (0 : UInt8) ∉ s) (hs : s ≠ []) :
    ∃ t', scanLine (s ++ 0 :: t) must =
      .ok ((valueIn must (chomp s)).map (· ++ [0]), leftOf (chomp s) ++ 0 :: t') := by
  obtain ⟨l, c, rfl⟩ := (List.eq_nil_or_concat s).resolve_left hs
  rw [List.concat_eq_append] at h0 ⊢
  have hlen := strlen_string ConfigFault.outsideBuffer h0 [] t
  have hlast : charAt ConfigFault.outsideBuffer (l ++ [c] ++ 0 :: t)
      (([] ++ (l ++ [c])).length - 1 : Int) = .ok c := by
    have hidx : (([] ++ (l ++ [c])).length - 1 : Int) = l.length := by
      simp
    rw [hidx, List.append_assoc]
    exact charAt_append _ l (0 :: t) c
  have hl0 : (0 : UInt8) ∉ l := fun h => h0 (List.mem_append_left _ h)
  by_cases hc : c = 10
  · have hchomp : chomp (l ++ [c]) = l := by
      unfold chomp
      rw [if_pos (by rw [List.getLast?_concat, hc]), List.dropLast_concat]
    have hput : putChar ConfigFault.outsideBuffer (l ++ [c] ++ 0 :: t) l.length 0 =
        .ok (l ++ 0 :: 0 :: t) := by
      rw [List.append_assoc]
      exact putChar_append _ l (0 :: t) c 0
    obtain ⟨t', hname⟩ := scanName_apply must (0 :: t) hl0
    rw [hchomp]
    refine ⟨t', ?_⟩
    unfold scanLine
    refine (ok_bind hlen _).trans ?_
    refine (ok_bind hlast _).trans ?_
    rw [if_pos hc]
    refine (ok_bind ?_ _).trans hname
    rw [← hput]
    congr 1
    simp
  · have hchomp : chomp (l ++ [c]) = l ++ [c] := by
      unfold chomp
      rw [if_neg (by rw [List.getLast?_concat]; simpa using hc)]
    have hput := putChar_append ConfigFault.outsideBuffer (l ++ [c]) t 0 0
    obtain ⟨t', hname⟩ := scanName_apply must t h0
    rw [hchomp]
    refine ⟨t', ?_⟩
    unfold scanLine
    refine (ok_bind hlen _).trans ?_
    refine (ok_bind hlast _).trans ?_
    rw [if_neg hc]
    exact (ok_bind hput _).trans hname

/-! ## Reading lines -/

/-- A last line that fits is read up to the end of the file. -/
theorem takeLine_last (h : (10 : UInt8) ∉ fh) (hn : fh.length < n) :
    takeLine n fh = (fh, [], true) := by
  induction fh generalizing n with
  | nil =>
    obtain ⟨n, rfl⟩ := Nat.exists_eq_succ_of_ne_zero (Nat.ne_of_gt hn)
    rfl
  | cons c fh ih =>
    obtain ⟨n, rfl⟩ := Nat.exists_eq_succ_of_ne_zero (Nat.ne_of_gt (Nat.zero_lt_of_lt hn))
    rw [List.mem_cons, not_or] at h
    rw [takeLine, if_neg (Ne.symm h.1), ih h.2 (Nat.lt_of_succ_lt_succ hn)]

/-- Any other line is read with its newline. -/
theorem takeLine_line (h : (10 : UInt8) ∉ line) (hn : line.length < n) (rest : Bytes) :
    takeLine n (line ++ 10 :: rest) = (line ++ [10], rest, false) := by
  induction line generalizing n with
  | nil =>
    obtain ⟨n, rfl⟩ := Nat.exists_eq_succ_of_ne_zero (Nat.ne_of_gt hn)
    rfl
  | cons c line ih =>
    obtain ⟨n, rfl⟩ := Nat.exists_eq_succ_of_ne_zero (Nat.ne_of_gt (Nat.zero_lt_of_lt hn))
    rw [List.mem_cons, not_or] at h
    rw [List.cons_append, takeLine, if_neg (Ne.symm h.1), ih h.2 (Nat.lt_of_succ_lt_succ hn)]
    rfl

theorem fgets_last (pcBuffer : Bytes) (h : (10 : UInt8) ∉ fh) (hne : fh ≠ [])
    (hlen : fh.length < 500) :
    ∃ t, fgets pcBuffer 510 fh = (fh ++ 0 :: t, [], true) := by
  refine ⟨pcBuffer.drop (fh.length + 1), ?_⟩
  unfold fgets
  rw [takeLine_last h (by omega)]
  dsimp only
  rw [if_neg hne]

theorem fgets_line (pcBuffer : Bytes) (h : (10 : UInt8) ∉ line) (hlen : line.length < 500)
    (rest : Bytes) :
    ∃ t, fgets pcBuffer 510 (line ++ 10 :: rest) = (line ++ [10] ++ 0 :: t, rest, false) := by
  refine ⟨pcBuffer.drop ((line ++ [10]).length + 1), ?_⟩
  unfold fgets
  rw [takeLine_line h (by omega)]
  dsimp only
  rw [if_neg (by simp)]

/-! ## What a line leaves -/

theorem cstr_eq_nil : cstr line = [] ↔ line = [] ∨ line.head? = some 0 := by
  unfold cstr
  cases line with
  | nil => simp
  | cons c line =>
    by_cases hc : c = 0
    · simp [hc]
    · simp [hc]

theorem chomp_of_not_mem (h : (10 : UInt8) ∉ s) : chomp s = s := by
  unfold chomp
  apply if_neg
  intro hlast
  exact h (List.mem_of_getLast? hlast)

/-- A line that was read is chomped to its string. -/
theorem chomp_cstr (h : (10 : UInt8) ∉ line) : chomp (cstr (line ++ [10])) = cstr line := by
  by_cases h0 : (0 : UInt8) ∈ line
  · rw [cstr_append_of_mem h0]
    exact chomp_of_not_mem fun hmem => h ((List.takeWhile_prefix _).subset hmem)
  · have hnl : (0 : UInt8) ∉ line ++ [10] := by
      rw [List.mem_append, not_or]
      exact ⟨h0, by decide⟩
    rw [cstr_of_not_mem h0, cstr_of_not_mem hnl]
    unfold chomp
    rw [if_pos List.getLast?_concat, List.dropLast_concat]

theorem valueIn_cstr (key line : Bytes) : valueIn key (cstr line) = valueIn key line := by
  unfold valueIn
  rw [cstr_cstr]

theorem entryOf_nil : entryOf [] = none := rfl

/-- What an entry is made of. -/
theorem entryOf_eq_some {name value : Bytes} (h : entryOf s = some (name, value)) :
    name = (s.dropWhile isSpace).takeWhile inName ∧ (s.dropWhile isSpace).head? ≠ some 35 ∧
      (s.dropWhile isSpace).dropWhile inName ≠ [] := by
  unfold entryOf at h
  dsimp only at h
  split at h
  · cases h
  · rename_i hnot
    rw [not_or, not_or] at hnot
    cases h
    exact ⟨rfl, hnot.1, hnot.2.1⟩

theorem leftOf_initial (s : Bytes) : leftOf s <+: s := by
  unfold leftOf
  cases h : entryOf s with
  | none => exact List.prefix_rfl
  | some e =>
    obtain ⟨name, value⟩ := e
    obtain ⟨rfl, -, -⟩ := entryOf_eq_some h
    conv_rhs => rw [← List.takeWhile_append_dropWhile (p := isSpace) (l := s)]
    exact (List.prefix_append_right_inj _).mpr (List.takeWhile_prefix _)

/-- A name does not start with a blank. -/
theorem dropWhile_name (h : ∀ c ∈ s, inName c = true) : s.dropWhile isSpace = s := by
  cases s with
  | nil => rfl
  | cons c s =>
    have hc := h c List.mem_cons_self
    apply List.dropWhile_cons_of_neg
    intro hsp
    unfold inName at hc
    rw [hsp] at hc
    cases hc

/-- A second look at a line finds no entry. -/
theorem entryOf_leftOf (s : Bytes) : entryOf (leftOf s) = none := by
  unfold leftOf
  cases h : entryOf s with
  | none => exact h
  | some e =>
    obtain ⟨name, value⟩ := e
    obtain ⟨rfl, -, -⟩ := entryOf_eq_some h
    have hname : (s.takeWhile isSpace ++ (s.dropWhile isSpace).takeWhile inName).dropWhile isSpace =
        (s.dropWhile isSpace).takeWhile inName := by
      rw [List.dropWhile_append_of_pos fun _ => List.mem_takeWhile_imp]
      exact dropWhile_name fun _ => List.mem_takeWhile_imp
    have hrest : ((s.dropWhile isSpace).takeWhile inName).dropWhile inName = [] :=
      List.dropWhile_eq_nil_iff.mpr fun _ => List.mem_takeWhile_imp
    apply if_pos
    dsimp only
    rw [hname, hrest]
    exact .inr (.inl rfl)

theorem leftOf_eq_nil (h0 : (0 : UInt8) ∉ s) : leftOf s = [] ↔ s = [] ∨ s.head? = some 61 := by
  cases s with
  | nil => exact iff_of_true rfl (.inl rfl)
  | cons c s =>
    have hc0 : c ≠ 0 := fun h => h0 (h ▸ List.mem_cons_self)
    constructor
    · intro h
      right
      unfold leftOf at h
      split at h
      · rename_i name value he
        obtain ⟨rfl, h35, hrest⟩ := entryOf_eq_some he
        obtain ⟨hblank, hname⟩ := List.append_eq_nil_iff.mp h
        -- The line starts neither with a blank nor with a name.
        have hsp : isSpace c = false := by
          by_contra hsp
          rw [List.takeWhile_cons_of_pos (by simpa using hsp)] at hblank
          cases hblank
        rw [List.dropWhile_cons_of_neg (by simp [hsp])] at hname h35
        have hin : inName c = false := by
          by_contra hin
          rw [List.takeWhile_cons_of_pos (by simpa using hin)] at hname
          cases hname
        have hc35 : c ≠ 35 := fun h => h35 (congrArg some h)
        have hsep := isSpaceOrEq_of_stop hin hc35 hc0
        unfold isSpaceOrEq at hsep
        rw [hsp] at hsep
        simpa using hsep
      · cases h
    · rintro (h | h)
      · cases h
      · cases h
        rfl

/-! ## A file -/

/-- No line up to the one with the value starts with NUL, and when there is none, a newline at the
end of the file does not follow an empty line or one that starts with `=`. -/
structure Legible (file key : Bytes) : Prop where
  starts : ∀ l ∈ (lines file).takeWhile (fun l => (valueIn key l).isNone), l.head? ≠ some 0
  ends : rawValue file key = none → file.getLast? = some 10 →
    ∀ l ∈ (lines file).getLast?, l ≠ [] ∧ l.head? ≠ some 61

/-- The bytes of a line in the buffer. -/
theorem exists_cstr (b t : Bytes) : ∃ t', b ++ 0 :: t = cstr b ++ 0 :: t' := by
  obtain ⟨t', h⟩ := cstr_split (b := b ++ 0 :: t) (List.mem_append_right _ List.mem_cons_self)
  refine ⟨t', h.trans ?_⟩
  have hcstr : cstr (b ++ 0 :: t) = cstr b := takeWhile_string rfl b t
  rw [hcstr]

theorem valueIn_of_starts_zero (h : line.head? = some 0) : valueIn key line = none := by
  rw [← valueIn_cstr, cstr_eq_nil.mpr (.inr h)]
  rfl

/-- A line that starts with NUL cannot be read. -/
theorem not_legible_of_starts_zero {ls : List Bytes} (hlines : lines file = line :: ls)
    (h : line.head? = some 0) : ¬Legible file key := by
  intro hr
  refine hr.starts line ?_ h
  rw [hlines, List.takeWhile_cons_of_pos (by rw [valueIn_of_starts_zero h]; rfl)]
  exact List.mem_cons_self

/-- A line with the value ends the search. -/
theorem legible_of_value {ls : List Bytes} (hlines : lines file = line :: ls)
    (h : valueIn key line = some v) : rawValue file key = some v ∧ Legible file key := by
  have hraw : rawValue file key = some v := by
    unfold rawValue
    rw [hlines, List.findSome?_cons, h]
  refine ⟨hraw, fun l hl => ?_, fun hnone => ?_⟩
  · rw [hlines, List.takeWhile_cons_of_neg (by rw [h]; exact Bool.false_ne_true)] at hl
    cases hl
  · rw [hraw] at hnone
    cases hnone

/-- After a line without the value the rest of the file is read. -/
theorem legible_cons {rest : Bytes} (hlines : lines (line ++ 10 :: rest) = line :: lines rest)
    (hrest : rest ≠ []) (h0 : line.head? ≠ some 0) (h : valueIn key line = none) :
    rawValue (line ++ 10 :: rest) key = rawValue rest key ∧
      (Legible (line ++ 10 :: rest) key ↔ Legible rest key) := by
  have hraw : rawValue (line ++ 10 :: rest) key = rawValue rest key := by
    unfold rawValue
    rw [hlines, List.findSome?_cons, h]
  have hlast : (line ++ 10 :: rest).getLast? = rest.getLast? := by
    obtain ⟨c, r, rfl⟩ := List.exists_cons_of_ne_nil hrest
    rw [List.getLast?_append_of_ne_nil _ (List.cons_ne_nil 10 _), List.getLast?_cons_cons]
  have hlastline : (lines (line ++ 10 :: rest)).getLast? = (lines rest).getLast? := by
    rw [hlines]
    cases hl : lines rest with
    | nil => exact absurd (lines_eq_nil.mp hl) hrest
    | cons c r => exact List.getLast?_cons_cons
  refine ⟨hraw, ?_⟩
  constructor
  · rintro ⟨hstarts, hends⟩
    rw [hraw, hlast, hlastline] at hends
    refine ⟨fun l hl => hstarts l ?_, hends⟩
    rw [hlines, List.takeWhile_cons_of_pos (by rw [h]; rfl)]
    exact List.mem_cons_of_mem _ hl
  · rintro ⟨hstarts, hends⟩
    refine ⟨fun l hl => ?_, ?_⟩
    · rw [hlines, List.takeWhile_cons_of_pos (by rw [h]; rfl)] at hl
      rcases List.mem_cons.mp hl with rfl | hl
      · exact h0
      · exact hstarts l hl
    · rw [hraw, hlast, hlastline]
      exact hends

/-- After the last line its rest is looked at once more. -/
theorem legible_end (hlines : lines (line ++ [10]) = [line]) (h0 : line.head? ≠ some 0)
    (h : valueIn key line = none) :
    rawValue (line ++ [10]) key = none ∧
      (Legible (line ++ [10]) key ↔ leftOf (cstr line) ≠ []) := by
  have hraw : rawValue (line ++ [10]) key = none := by
    unfold rawValue
    rw [hlines, List.findSome?_cons, h]
    rfl
  have hleft : leftOf (cstr line) = [] ↔ line = [] ∨ line.head? = some 61 := by
    rw [leftOf_eq_nil (zero_not_mem_cstr line), cstr_eq_nil]
    cases line with
    | nil => simp
    | cons c line =>
      have hc : (c != 0) = true := by
        simpa using fun hc : c = 0 => h0 (congrArg some hc)
      have hcstr : cstr (c :: line) = c :: cstr line := List.takeWhile_cons_of_pos hc
      rw [hcstr]
      simpa using fun hc : c = 0 => absurd (congrArg some hc) h0
  refine ⟨hraw, ?_⟩
  rw [ne_eq, hleft, not_or]
  constructor
  · intro hleg
    refine hleg.ends hraw List.getLast?_concat line ?_
    rw [hlines]
    rfl
  · rintro hends
    refine ⟨fun l hl => ?_, fun _ _ l hl => ?_⟩
    · have := (List.takeWhile_prefix _).subset hl
      rw [hlines, List.mem_singleton] at this
      rw [this]
      exact h0
    · rw [hlines] at hl
      cases hl
      exact hends

/-- What is found in a buffer that holds some text. -/
theorem scanLine_text (must b t : Bytes) :
    (cstr b = [] → scanLine (b ++ 0 :: t) must = .error .outsideBuffer) ∧
      (cstr b ≠ [] → ∃ t', scanLine (b ++ 0 :: t) must =
        .ok ((valueIn must (chomp (cstr b))).map (· ++ [0]), leftOf (chomp (cstr b)) ++ 0 :: t')) := by
  obtain ⟨t', hb⟩ := exists_cstr b t
  rw [hb]
  constructor
  · intro h
    rw [h]
    exact scanLine_empty must t'
  · intro h
    exact scanLine_apply must t' (zero_not_mem_cstr b) h

/-- The only line of a file, without a newline. -/
theorem scanFile_last (key pcBuffer : Bytes) (n : Nat) (hnl : (10 : UInt8) ∉ fh) (hne : fh ≠ [])
    (hlines : lines fh = [fh]) (hlen : fh.length < 500) :
    (Legible fh key → scanFile key (n + 1) pcBuffer fh = .ok ((rawValue fh key).map (· ++ [0]))) ∧
      (¬Legible fh key → scanFile key (n + 1) pcBuffer fh = .error .outsideBuffer) := by
  obtain ⟨t, hgets⟩ := fgets_last pcBuffer hnl hne hlen
  obtain ⟨hempty, htext⟩ := scanLine_text key fh t
  by_cases hz : fh.head? = some 0
  · refine ⟨fun h => absurd h (not_legible_of_starts_zero hlines hz), fun _ => ?_⟩
    rw [scanFile, hgets]
    dsimp only
    rw [hempty (cstr_eq_nil.mpr (.inr hz))]
    rfl
  · obtain ⟨t', hscan⟩ := htext fun h => (cstr_eq_nil.mp h).elim hne hz
    have hchomp : chomp (cstr fh) = cstr fh :=
      chomp_of_not_mem fun hmem => hnl ((List.takeWhile_prefix _).subset hmem)
    rw [hchomp, valueIn_cstr] at hscan
    have hrun : scanFile key (n + 1) pcBuffer fh = .ok ((valueIn key fh).map (· ++ [0])) := by
      rw [scanFile, hgets]
      dsimp only
      refine (ok_bind hscan _).trans ?_
      cases valueIn key fh <;> rfl
    cases hv : valueIn key fh with
    | some v =>
      obtain ⟨hraw, hleg⟩ := legible_of_value hlines hv
      rw [hrun, hv, hraw]
      exact ⟨fun _ => rfl, fun h => absurd hleg h⟩
    | none =>
      have hraw : rawValue fh key = none := by
        unfold rawValue
        rw [hlines, List.findSome?_cons, hv]
        rfl
      have hleg : Legible fh key := by
        refine ⟨fun l hl => ?_, fun _ hlast => ?_⟩
        · have := (List.takeWhile_prefix _).subset hl
          rw [hlines, List.mem_singleton] at this
          rw [this]
          exact hz
        · exact absurd (List.mem_of_getLast? hlast) hnl
      rw [hrun, hv, hraw]
      exact ⟨fun _ => rfl, fun h => absurd hleg h⟩

/-- A failed read: what the last line left is looked at again. -/
theorem scanFile_end (key t : Bytes) (n : Nat) (hnl : (10 : UInt8) ∉ s) (h0 : (0 : UInt8) ∉ s) :
    (leftOf s = [] → scanFile key (n + 1) (leftOf s ++ 0 :: t) [] = .error .outsideBuffer) ∧
      (leftOf s ≠ [] → scanFile key (n + 1) (leftOf s ++ 0 :: t) [] = .ok none) := by
  have hnl' : (10 : UInt8) ∉ leftOf s := fun h => hnl ((leftOf_initial s).subset h)
  have h0' : (0 : UInt8) ∉ leftOf s := fun h => h0 ((leftOf_initial s).subset h)
  have hstep : scanFile key (n + 1) (leftOf s ++ 0 :: t) [] =
      scanLine (leftOf s ++ 0 :: t) key >>= fun r =>
        match r.1 with
        | some v => pure (some v)
        | none => pure none := rfl
  rw [hstep]
  constructor
  · intro h
    rw [h, List.nil_append, scanLine_empty]
    rfl
  · intro h
    obtain ⟨t', hscan⟩ := scanLine_apply key t h0' h
    rw [chomp_of_not_mem hnl', valueIn_none h0' (entryOf_leftOf s)] at hscan
    exact ok_bind hscan _

/-- What the loop finds in a file. -/
theorem scanFile_apply (key : Bytes) (n : Nat) (fh pcBuffer : Bytes) (hn : fh.length < n)
    (hne : fh ≠ []) (hlen : ∀ l ∈ lines fh, l.length < 500) :
    (Legible fh key → scanFile key n pcBuffer fh = .ok ((rawValue fh key).map (· ++ [0]))) ∧
      (¬Legible fh key → scanFile key n pcBuffer fh = .error .outsideBuffer) := by
  induction n generalizing fh pcBuffer with
  | zero => cases hn
  | succ n ih =>
    rcases lines_cases hne with ⟨hnl, hlines⟩ | ⟨line, rest, rfl, hnl, hlines⟩
    · exact scanFile_last key pcBuffer n hnl hne hlines (hlen fh (hlines ▸ List.mem_cons_self))
    · rw [hlines, List.forall_mem_cons] at hlen
      obtain ⟨t, hgets⟩ := fgets_line pcBuffer hnl hlen.1 rest
      obtain ⟨hempty, htext⟩ := scanLine_text key (line ++ [10]) t
      by_cases hz : line.head? = some 0
      · have hz' : (line ++ [10]).head? = some 0 := by
          rw [List.head?_append, hz]
          rfl
        refine ⟨fun h => absurd h (not_legible_of_starts_zero hlines hz), fun _ => ?_⟩
        rw [scanFile, hgets]
        dsimp only
        rw [hempty (cstr_eq_nil.mpr (.inr hz'))]
        rfl
      · obtain ⟨t', hscan⟩ := htext fun h => by
          rcases cstr_eq_nil.mp h with h | h
          · simp at h
          · cases line with
            | nil => cases h
            | cons c line => exact hz h
        rw [chomp_cstr hnl, valueIn_cstr] at hscan
        have hrun : scanFile key (n + 1) pcBuffer (line ++ 10 :: rest) =
            match valueIn key line with
            | some v => .ok (some (v ++ [0]))
            | none => scanFile key n (leftOf (cstr line) ++ 0 :: t') rest := by
          rw [scanFile, hgets]
          dsimp only
          refine (ok_bind hscan _).trans ?_
          cases valueIn key line <;> rfl
        rw [hrun]
        cases hv : valueIn key line with
        | some v =>
          obtain ⟨hraw, hleg⟩ := legible_of_value hlines hv
          rw [hraw]
          exact ⟨fun _ => rfl, fun h => absurd hleg h⟩
        | none =>
          by_cases hrest : rest = []
          · subst hrest
            obtain ⟨n, rfl⟩ : ∃ m, n = m + 1 := by
              refine Nat.exists_eq_succ_of_ne_zero ?_
              rintro rfl
              simp at hn
            obtain ⟨hraw, hleg⟩ := legible_end hlines hz hv
            obtain ⟨hfault, hdone⟩ := scanFile_end key t' n
              (fun h => hnl ((List.takeWhile_prefix _).subset h)) (zero_not_mem_cstr line)
            rw [hraw, hleg]
            exact ⟨hdone, fun h => hfault (not_not.mp h)⟩
          · obtain ⟨hraw, hleg⟩ := legible_cons hlines hrest hz hv
            rw [hraw, hleg]
            rw [List.length_append, List.length_cons] at hn
            exact ih rest _ (by omega) hrest hlen.2

/-! ## The value -/

/-- A value without trailing blanks that has a quote at its end when it has one at its start. -/
structure Plain (v : Bytes) : Prop where
  last : ∀ c ∈ v.getLast?, isSpace c = false
  quotes : v.head? = some 34 → 2 ≤ v.length ∧ v.getLast? = some 34

/-- What is returned of a value. -/
def dropped (v : Bytes) : Bytes := if v.head? = some 34 then v.tail.dropLast else v

theorem valueIn_suffix (h : valueIn key line = some v) : v <:+ cstr line := by
  unfold valueIn at h
  split at h
  · rename_i name value he
    split at h
    · cases h
      unfold entryOf at he
      dsimp only at he
      split at he
      · cases he
      · cases he
        exact ((List.dropWhile_suffix _).trans (List.dropWhile_suffix _)).trans
          (List.dropWhile_suffix _)
    · cases h
  · cases h

theorem zero_not_mem_rawValue (h : rawValue file key = some v) : (0 : UInt8) ∉ v := by
  obtain ⟨l, -, hl⟩ := List.exists_of_findSome?_eq_some h
  exact fun h0 => zero_not_mem_cstr l ((valueIn_suffix hl).subset h0)

theorem dropQuotes_apply (h0 : (0 : UInt8) ∉ v) : dropQuotes (v ++ [0]) = .ok (dropped v) := by
  rcases v with _ | ⟨c, w⟩
  · rfl
  have hfirst : charAt ConfigFault.outsideValue (c :: w ++ [0]) 0 = .ok c := rfl
  unfold dropQuotes dropped
  refine (ok_bind hfirst _).trans ?_
  by_cases hc : c = 34
  · rw [if_pos hc, if_pos (show (c :: w).head? = some 34 from congrArg some hc)]
    have hw0 : (0 : UInt8) ∉ w := fun h => h0 (List.mem_cons_of_mem c h)
    have hlen := strlen_string ConfigFault.outsideValue hw0 [c] []
    refine (ok_bind hlen _).trans ?_
    rcases List.eq_nil_or_concat w with rfl | ⟨u, d, rfl⟩
    · rfl
    · rw [List.concat_eq_append] at hw0 ⊢
      have hu0 : (0 : UInt8) ∉ u := fun h => hw0 (List.mem_append_left _ h)
      have hput := putChar_append ConfigFault.outsideValue (c :: u) [0] d 0
      have hidx : (([c] ++ (u ++ [d])).length - 1 : Int) = (c :: u).length := by
        simp
      have hbuf : c :: (u ++ [d]) ++ [0] = c :: u ++ d :: [0] := by
        simp
      rw [hidx, hbuf]
      refine (ok_bind hput _).trans ?_
      show Except.ok (cstr (u ++ 0 :: [0])) = _
      rw [cstr_string hu0]
      simp
  · rw [if_neg hc, if_neg (by simpa using hc)]
    show Except.ok (cstr (c :: w ++ 0 :: [])) = _
    rw [cstr_string h0]

theorem unquote_length_le (v : Bytes) : (unquote v).length ≤ v.length := by
  unfold unquote
  split
  · rw [List.length_dropLast, List.length_tail]
    omega
  · exact le_refl _

/-- Between quotes nothing is left of a value whose last two characters are blanks. -/
theorem dropLast_ne_of_blanks {t : Bytes} {b c : UInt8} (hv : (34 : UInt8) :: v = t ++ [b, c])
    (hb : isSpace b = true) : v.dropLast ≠ t := by
  intro h
  have hv' : (34 : UInt8) :: v.dropLast = t ++ [b] := by
    have hne : v ≠ [] := by
      rintro rfl
      have := congrArg List.length hv
      rw [List.length_append] at this
      simp at this
    have hdrop := congrArg List.dropLast hv
    rw [List.dropLast_cons_of_ne_nil hne, List.dropLast_append_of_ne_nil (by simp)] at hdrop
    exact hdrop
  -- One quote more on the left than on the right.
  have hcount := congrArg (List.count 34) hv'
  have hb34 : b ≠ 34 := by
    rintro rfl
    cases hb
  rw [h, List.count_cons_self, List.count_append, List.count_singleton,
    if_neg (by simpa using hb34)] at hcount
  omega

theorem rdropWhile_eq_self {p : UInt8 → Bool} (h : ∀ c ∈ v.getLast?, p c = false) :
    v.rdropWhile p = v := by
  rw [List.rdropWhile_eq_self_iff]
  intro hne hp
  rw [h _ (List.getLast?_eq_getLast_of_ne_nil hne)] at hp
  cases hp

theorem dropped_of_plain (h : Plain v) : dropped v = unquote (v.rdropWhile isSpace) := by
  rw [rdropWhile_eq_self h.last]
  unfold dropped unquote
  by_cases hq : v.head? = some 34
  · obtain ⟨hlen, hlast⟩ := h.quotes hq
    rw [if_pos hq, if_pos ⟨hlen, hq, hlast⟩]
  · rw [if_neg hq, if_neg fun h => hq h.2.1]

theorem plain_of_dropped (h : dropped v = unquote (v.rdropWhile isSpace)) : Plain v := by
  have hprefix : v.rdropWhile isSpace <+: v := List.rdropWhile_prefix isSpace v
  have hle := unquote_length_le (v.rdropWhile isSpace)
  have hlast_of : v.rdropWhile isSpace = v → ∀ c ∈ v.getLast?, isSpace c = false := by
    intro heq c hc
    obtain ⟨hne, rfl⟩ := List.mem_getLast?_eq_getLast hc
    have hlast := List.rdropWhile_eq_self_iff.mp heq hne
    exact eq_false_of_ne_true hlast
  by_cases hq : v.head? = some 34
  · obtain ⟨w, rfl⟩ : ∃ w, v = 34 :: w := by
      cases v with
      | nil => cases hq
      | cons c w =>
        cases hq
        exact ⟨w, rfl⟩
    have hdrop : w.dropLast = unquote (List.rdropWhile isSpace (34 :: w)) := h
    have hw : w ≠ [] := by
      rintro rfl
      cases hdrop
    have hpos := List.length_pos_of_ne_nil hw
    have hlen := congrArg List.length hdrop
    rw [List.length_dropLast] at hlen
    by_cases hpair : 2 ≤ (List.rdropWhile isSpace (34 :: w)).length ∧
        (List.rdropWhile isSpace (34 :: w)).head? = some 34 ∧
        (List.rdropWhile isSpace (34 :: w)).getLast? = some 34
    · -- A pair was dropped on both sides: nothing was trimmed.
      unfold unquote at hlen
      rw [if_pos hpair, List.length_dropLast, List.length_tail] at hlen
      have heq : List.rdropWhile isSpace (34 :: w) = 34 :: w := by
        apply hprefix.eq_of_length_le
        rw [List.length_cons]
        omega
      rw [heq] at hpair
      exact ⟨hlast_of heq, fun _ => ⟨hpair.1, hpair.2.2⟩⟩
    · unfold unquote at hdrop hlen
      rw [if_neg hpair] at hdrop hlen
      have hsplit := List.rdropWhile_append_rtakeWhile (p := isSpace) (l := 34 :: w)
      have hblanks : (List.rtakeWhile isSpace (34 :: w)).length = 2 := by
        have := congrArg List.length hsplit
        rw [List.length_append, List.length_cons] at this
        omega
      obtain ⟨b, c, hbc⟩ := List.length_eq_two.mp hblanks
      have hb : isSpace b = true := by
        apply List.mem_rtakeWhile_imp (l := 34 :: w)
        rw [hbc]
        exact List.mem_cons_self
      rw [hbc] at hsplit
      exact absurd hdrop (dropLast_ne_of_blanks hsplit.symm hb)
  · unfold dropped at h
    rw [if_neg hq] at h
    rw [← h] at hle
    have heq := hprefix.eq_of_length_le hle
    exact ⟨hlast_of heq, fun h => absurd h hq⟩

/-! ## What is returned -/

theorem configGetString_ok (pcBuffer : Bytes) {file key : Bytes} (dflt : Bytes) {r : Option Bytes}
    (h : scanFile key (file.length + 1) pcBuffer file = .ok (r.map (· ++ [0])))
    (h0 : ∀ v ∈ r, (0 : UInt8) ∉ v) :
    configGetString pcBuffer (some file) key dflt = .ok ((r.map dropped).getD (cstr dflt)) := by
  have hentry : configGetEntry pcBuffer (some file) key = .ok (true, r.map (· ++ [0])) := ok_bind h _
  refine (ok_bind hentry _).trans ?_
  cases r with
  | none => rfl
  | some v => exact dropQuotes_apply (h0 v rfl)

theorem configGetString_error (pcBuffer : Bytes) {file key : Bytes} (dflt : Bytes) {e : ConfigFault}
    (h : scanFile key (file.length + 1) pcBuffer file = .error e) :
    configGetString pcBuffer (some file) key dflt = .error e := by
  unfold configGetString configGetEntry
  dsimp only
  rw [h]
  rfl

/-- **`ConfigGetString`** returns what the file says, whatever the line buffer held before, exactly
when the file is not empty, its lines can be read, and the value is plain. -/
theorem configGetString_iff (file key dflt : Bytes) (hlen : ∀ l ∈ lines file, l.length < 500) :
    (∀ b : LineBuffer,
        configGetString b.bytes (some file) key dflt = .ok (configured file key dflt)) ↔
      file ≠ [] ∧ Legible file key ∧ ∀ v ∈ rawValue file key, Plain v := by
  obtain ⟨clear, t, hclear⟩ : ∃ (b : LineBuffer) (t : Bytes), b.bytes = 0 :: t :=
    ⟨⟨0 :: List.replicate 511 0, by rw [List.length_cons, List.length_replicate]⟩, _, rfl⟩
  by_cases hne : file = []
  · -- A clear buffer is looked at as if it had been read.
    subst hne
    refine iff_of_false (fun h => ?_) fun h => h.1 rfl
    have hfault : scanFile key 1 clear.bytes [] = .error .outsideBuffer := by
      rw [hclear]
      exact (scanFile_end (s := []) key t 0 List.not_mem_nil List.not_mem_nil).1 rfl
    have := (configGetString_error clear.bytes dflt hfault).symm.trans (h clear)
    cases this
  have hscan := fun b => scanFile_apply key (file.length + 1) file b (Nat.lt_succ_self _) hne hlen
  by_cases hleg : Legible file key
  · have hrun : ∀ b : Bytes, configGetString b (some file) key dflt =
        .ok (((rawValue file key).map dropped).getD (cstr dflt)) := fun b =>
      configGetString_ok b dflt ((hscan b).1 hleg) fun v hv => zero_not_mem_rawValue hv
    have hsame : ((rawValue file key).map dropped).getD (cstr dflt) = configured file key dflt ↔
        ∀ v ∈ rawValue file key, Plain v := by
      unfold configured
      cases rawValue file key with
      | none => simp
      | some v =>
        constructor
        · intro h v hv
          cases hv
          exact plain_of_dropped h
        · intro h
          exact dropped_of_plain (h v rfl)
    constructor
    · intro h
      have := (hrun clear.bytes).symm.trans (h clear)
      exact ⟨hne, hleg, hsame.mp (Except.ok.inj this)⟩
    · rintro ⟨-, -, hplain⟩ b
      rw [hrun, hsame.mpr hplain]
  · refine iff_of_false (fun h => ?_) fun h => hleg h.2.1
    have hfault := configGetString_error clear.bytes dflt ((hscan clear.bytes).2 hleg)
    rw [h clear] at hfault
    cases hfault

theorem configGetString_iff_quoted :
    (∀ l ∈ lines (ascii "# a\nKey = \"v\"\n"), l.length < 500) ∧
      ∀ b : LineBuffer, configGetString b.bytes (some (ascii "# a\nKey = \"v\"\n")) (ascii "key")
        (ascii "d") = .ok (configured (ascii "# a\nKey = \"v\"\n") (ascii "key") (ascii "d")) := by
  have hlen : ∀ l ∈ lines (ascii "# a\nKey = \"v\"\n"), l.length < 500 := by
    decide
  have hraw : rawValue (ascii "# a\nKey = \"v\"\n") (ascii "key") = some (ascii "\"v\"") := by
    decide
  refine ⟨hlen, (configGetString_iff _ _ (ascii "d") hlen).mpr ⟨by decide, ⟨by decide, ?_⟩, ?_⟩⟩
  · intro hnone
    rw [hraw] at hnone
    cases hnone
  · rintro v hv
    rw [hraw] at hv
    cases hv
    have hlast : (ascii "\"v\"").getLast? = some 34 := by
      decide
    refine ⟨fun c hc => ?_, fun _ => ⟨by decide, hlast⟩⟩
    rw [hlast] at hc
    cases hc
    rfl

/-- A trailing blank is kept, a single quote is lost, and after an empty line at the end of a file
the byte before the buffer is read. -/
theorem configGetString_fails :
    configGetString (List.replicate 512 0) (some (ascii "key=v \n")) (ascii "key") [] =
        .ok (ascii "v ") ∧
      configured (ascii "key=v \n") (ascii "key") [] = ascii "v" ∧
      configGetString (List.replicate 512 0) (some (ascii "key=\"\n")) (ascii "key") [] = .ok [] ∧
      configured (ascii "key=\"\n") (ascii "key") [] = ascii "\"" ∧
      configGetString (List.replicate 512 0) (some (ascii "\n")) (ascii "key") [] =
        .error .outsideBuffer := by
  decide +kernel

end Destiny
