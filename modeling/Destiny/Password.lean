import Destiny.Sql.Literals
import Destiny.Server.Session
import Destiny.Server.Statements

/-!
# The password check

`CheckLogin` prints the two names of a login packet into a statement. The check is for an
account with exactly these names just when both are clean: nothing else is read back as
itself between the quotes of the statement.
-/

namespace Destiny

open Text Sql Prog

/-- The query template with two literal values. -/
def passwordStmt (u p : Bytes) : Stmt Table Col Bytes :=
  .select accountCols .accounts (accountCond u .password p)

/-- The statement the password check sends. -/
def passwordText (u p : Bytes) : Bytes := vsprintf (ascii Query.password) [txt u, txt p]

/-- The check is for the two names, and only an account with them passes it. -/
structure ExactCheck (u p : Bytes) : Prop where
  parses : parseText schema (passwordText u p) = some (passwordStmt u p)
  row : ∀ (E : Env) (s t : Server) (rows : List Fetched),
    doSQL E Query.password [txt u, txt p] s = .ok (some rows) t → rows.length ≠ 0 →
      ∃ r ∈ s.db.rows .accounts, r .username = .text u ∧ r .password = .text p

variable {u p : Bytes}

/-! ## Clean names -/

theorem exactCheck_of_clean (hu : clean u) (hp : clean p) : ExactCheck u p where
  parses := parse_password hu hp
  row E s t rows h hne := by
    obtain ⟨r, hr, hname, hpass⟩ := exists_account (parse_password hu hp) h hne
    have hkind : (r .password).HasKind (.text 12) := s.db.typed _ r hr .password
    exact ⟨r, hr, hname, (hkind.eq_text p).mp hpass⟩

/-! ## Names that are not clean -/

/-- The statement up to the quote before the first name. -/
def passwordHead : Bytes :=
  ascii "SELECT username,password,active,online FROM accounts WHERE username='"

/-- What stands between the quotes around the two names. -/
def passwordMid : Bytes := ascii " AND password="

theorem passwordText_eq (u p : Bytes) : passwordText u p =
    passwordHead ++ (u ++ 39 :: (passwordMid ++ 39 :: (p ++ [39]))) := by
  rfl

def passwordToks (α : Type) : List (Token α) :=
  [.word (ascii "SELECT"), .word (ascii "username"), .sym 44, .word (ascii "password"), .sym 44,
    .word (ascii "active"), .sym 44, .word (ascii "online"), .word (ascii "FROM"),
    .word (ascii "accounts"), .word (ascii "WHERE"), .word (ascii "username"), .sym 61]

theorem feed_passwordHead : LexSt.feed (ι := Empty) ⟨.start, []⟩ (passwordHead.map .inl) =
    ⟨.str [], passwordToks _⟩ := by rfl

/-- Between the names: the first literal ends, and the second begins. -/
theorem feed_passwordMid (v : List (UInt8 ⊕ Empty)) (ts : List (Token (List (UInt8 ⊕ Empty)))) :
    LexSt.feed ⟨.str v, ts⟩ ((39 :: (passwordMid ++ [39])).map .inl) =
      ⟨.str [], ts ++ [.str v] ++ [.word (ascii "AND")] ++ [.word (ascii "password")] ++ [.sym 61]⟩ := by
  rfl

/-- The statement after its fixed beginning is its condition. -/
theorem parse_passwordToks {α : Type} (ts : List (Token α)) :
    parse schema (passwordToks α ++ ts) =
      (cond schema .accounts (.word (ascii "username") :: .sym 61 :: ts)).map
        (.select accountCols .accounts) := by
  have htable : schema.table (ascii "accounts") = some .accounts := by rfl
  have hcols : collect (schema.column .accounts)
      [ascii "username", ascii "password", ascii "active", ascii "online"] =
        some accountCols := by rfl
  simp only [passwordToks, List.cons_append, List.nil_append, parse, isWord, beq_self_eq_true,
    if_true, parseSelect, sepBy, nameOf, isSym]
  simp only [Bool.false_eq_true, if_false, nameOf, beq_self_eq_true, if_true, Option.map_some,
    Option.bind_some, parseFrom, isWord, tableOf, htable, parseWhere]
  cases cond schema Table.accounts (.word (ascii "username") :: .sym 61 :: ts) <;> simp [hcols]

theorem isOperand_column {α : Type} {w : String} {k : Col}
    (h : schema.column .accounts (ascii w) = some k ∧ ascii w ≠ ascii "AND" ∧ ascii w ≠ ascii "OR") :
    IsOperand schema .accounts (.word (ascii w) : Token α) (.col k) := by
  refine ⟨by rw [operand, h.1]; rfl, ?_, ?_⟩
  · simp [isWord, h.2.1]
  · simp [isWord, h.2.2]

section Literals
variable {st : Stmt Table Col (List (UInt8 ⊕ Empty))} {v v' : Bytes}
  {ts toks : List (Token (List (UInt8 ⊕ Empty)))}

theorem isOperand_username {α : Type} :
    IsOperand schema .accounts (.word (ascii "username") : Token α) (.col .username) :=
  isOperand_column (by decide)

theorem isOperand_password {α : Type} :
    IsOperand schema .accounts (.word (ascii "password") : Token α) (.col .password) :=
  isOperand_column (by decide)

/-- The first literal of a statement that is the template is the first name. -/
theorem eq_of_first (hparse : parse schema (passwordToks _ ++ .str (v.map .inl) :: ts) = some st)
    (hmap : st.map (inst nofun) = passwordStmt u p) : v = u := by
  rw [parse_passwordToks] at hparse
  obtain ⟨w, hw, rfl⟩ := Option.map_eq_some_iff.mp hparse
  obtain ⟨g, gs, rfl⟩ := cond_eq isOperand_username (isOperand_str _) hw
  simp only [Stmt.map, Atom.map, Operand.map, passwordStmt, accountCond, List.map_cons,
    inst_map_inl] at hmap
  injection hmap with _ _ hw
  injection hw with hg _
  injection hg with hatom _
  injection hatom with _ hv
  injection hv

theorem eq_of_second (hparse : parse schema (passwordToks _ ++ .str (v.map .inl) ::
      .word (ascii "AND") :: .word (ascii "password") :: .sym 61 :: .str (v'.map .inl) :: ts) = some st)
    (hmap : st.map (inst nofun) = passwordStmt u p) : v' = p := by
  rw [parse_passwordToks] at hparse
  obtain ⟨w, hw, rfl⟩ := Option.map_eq_some_iff.mp hparse
  obtain ⟨g, gs, rfl⟩ := cond_eq_and_eq isOperand_username (isOperand_str _) isOperand_password
    (isOperand_str _) hw
  simp only [Stmt.map, Atom.map, Operand.map, passwordStmt, accountCond, List.map_cons,
    inst_map_inl] at hmap
  injection hmap with _ _ hw
  injection hw with hg _
  injection hg with _ hg
  injection hg with hatom _
  injection hatom with _ hv
  injection hv

end Literals

theorem passwordMid_head (z : Bytes) : (passwordMid ++ z).head? ≠ some 39 := by
  have h : passwordMid = 32 :: passwordMid.tail := by rfl
  rw [h, List.cons_append, List.head?_cons]
  decide

/-- A literal that runs over the quote after the first name is longer than a name. -/
theorem long_of_runOver (z : Bytes) {w r : Bytes} (h : quoted (passwordMid ++ z) = some (w, r)) :
    14 ≤ w.length := by
  have hplain : ∀ c ∈ passwordMid, c ≠ 39 ∧ c ≠ 92 := by decide +kernel
  have hlen : passwordMid.length = 14 := by rfl
  rw [quoted_plain hplain] at h
  obtain ⟨q, -, he⟩ := Option.map_eq_some_iff.mp h
  cases he
  rw [List.length_append]
  omega

/-- Read back as the template, both names are clean. -/
theorem clean_of_parses (hu : u.length ≤ 12)
    (h : parseText schema (passwordText u p) = some (passwordStmt u p)) : clean u ∧ clean p := by
  obtain ⟨st, hst, hmap⟩ := Option.map_eq_some_iff.mp h
  obtain ⟨toks, hlex, hparse⟩ := Option.bind_eq_some_iff.mp hst
  rw [passwordText_eq, lex, List.map_append, LexSt.feed_append, feed_passwordHead] at hlex
  have hclean : clean u := by
    obtain ⟨w, r, hq, ts, rfl⟩ := quoted_of_finish hlex
    rw [List.append_assoc] at hparse
    obtain rfl := eq_of_first hparse hmap
    have hback := quoted_value (passwordMid_head _) (fun _ _ => long_of_runOver _) hq
    rcases hback with ⟨hc, -⟩ | hlt | hlong
    · exact hc
    · omega
    · omega
  refine ⟨hclean, ?_⟩
  have hsplit : u ++ 39 :: (passwordMid ++ 39 :: (p ++ [39])) =
      u ++ ((39 :: (passwordMid ++ [39])) ++ (p ++ [39])) := by simp
  rw [hsplit, List.map_append, LexSt.feed_append, LexSt.feed_clean hclean, List.map_append,
    LexSt.feed_append, feed_passwordMid] at hlex
  obtain ⟨w, r, hq, ts, rfl⟩ := quoted_of_finish hlex
  simp only [List.append_assoc, List.cons_append, List.nil_append] at hparse
  obtain rfl := eq_of_second hparse hmap
  have hback := quoted_value (z := []) (n := w.length + 1) (Option.some_ne_none _).symm
    (fun _ _ h => (Option.some_ne_none _ h.symm).elim) hq
  rcases hback with ⟨hc, -⟩ | hlt | hlong
  · exact hc
  · omega
  · omega

/-! ## The check -/

theorem Field.str_length_le {n : Nat} (f : Field n) : f.str.length ≤ n :=
  (cstr_length_le _).trans_eq f.len

/-- A login with a password that is also a condition. -/
def injection : Packet := loginFrame (ascii "bob") (ascii "' OR '1'='1")

/-- A name with a quote in it is not clean. -/
example : clean (ascii "bob") ∧ ¬clean (ascii "' OR '1'='1") := by decide +kernel

end Destiny
