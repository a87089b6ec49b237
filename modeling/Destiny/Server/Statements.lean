import Destiny.Server.State

/-!
# What the statements mean

A statement whose texts are clean is carried out as its format string says, or refused
without effect. Each format string that a result depends on is parsed here once.
-/

namespace Destiny

open Text Sql Prog

variable {E : Env} {fmt : String} {args : List Arg} {s t : Server} {r : Option (List Fetched)}

theorem doSQL_ok (h : doSQL E fmt args s = .ok r t) :
    r = (E.sql.query s.sqlCalls s.db (vsprintf (ascii fmt) args)).2 ∧
      t = { s with
        db := (E.sql.query s.sqlCalls s.db (vsprintf (ascii fmt) args)).1
        sqlCalls := s.sqlCalls + 1 } := by
  obtain ⟨_, s', hs', h⟩ := of_bind_ok h
  unfold check at hs'
  split at hs' <;> cases hs'
  cases h
  exact ⟨rfl, rfl⟩

theorem doSQL_error {e : Fault} (h : doSQL E fmt args s = .error e t) : e = .sqlBuffer ∧ t = s := by
  rcases of_bind_error h with h | ⟨_, s', -, h⟩
  · unfold check at h
    split at h <;> cases h
    exact ⟨rfl, rfl⟩
  · cases h

theorem doSQL_parsed {st : Stmt Table Col Bytes}
    (hst : parseText schema (vsprintf (ascii fmt) args) = some st) (h : doSQL E fmt args s = .ok r t) :
    (t.db = (Sql.exec s.db st).1 ∧ r = some (Sql.exec s.db st).2) ∨ (t.db = s.db ∧ r = none) := by
  obtain ⟨rfl, rfl⟩ := doSQL_ok h
  rcases E.sql.parsed s.sqlCalls s.db _ st hst with h | h <;> rw [h]
  · exact .inl ⟨rfl, rfl⟩
  · exact .inr ⟨rfl, rfl⟩

/-- A statement that fits the buffer is sent. -/
theorem doSQL_apply (h : (vsprintf (ascii fmt) args).length < 2000) : doSQL E fmt args s =
    .ok (E.sql.query s.sqlCalls s.db (vsprintf (ascii fmt) args)).2 { s with
      db := (E.sql.query s.sqlCalls s.db (vsprintf (ascii fmt) args)).1
      sqlCalls := s.sqlCalls + 1 } := by
  have hcheck : check ((vsprintf (ascii fmt) args).length < 2000) .sqlBuffer s = .ok () s := by
    rw [check, if_pos h]
    rfl
  exact bind_ok hcheck

/-- A statement is answered as it means. -/
theorem doSQL_answer (hE : E.sql.Answers) {st : Stmt Table Col Bytes}
    (hst : parseText schema (vsprintf (ascii fmt) args) = some st)
    (h : (vsprintf (ascii fmt) args).length < 2000) : doSQL E fmt args s =
      .ok (some (Sql.exec s.db st).2)
        { s with db := (Sql.exec s.db st).1, sqlCalls := s.sqlCalls + 1 } := by
  rw [doSQL_apply h, hE _ _ _ _ hst]

/-! ## Texts that fit -/

/-- A text or a number that prints in 16 bytes. -/
def Short (a : Arg) : Prop := ∀ k, (a.print k).length ≤ 16

theorem short_int {n : Int} (hn : -2 ^ 31 ≤ n ∧ n < 2 ^ 31) : Short (.int n) := by
  have hlt : u32 n < 10 ^ 10 := by
    unfold u32 unsigned
    omega
  have hdigits : (digits (u32 n)).length ≤ 10 := by
    unfold digits
    split
    · decide
    · rw [List.length_map, List.length_reverse]
      exact (Nat.digits_length_le_iff (by omega) _).mpr hlt
  intro k
  cases k with
  | s => exact Nat.zero_le _
  | i => exact (length_decimal_le hn).trans (by omega)
  | u =>
    show (decimal (u32 n)).length ≤ 16
    unfold decimal
    rw [if_neg (by omega), Int.natAbs_natCast]
    omega

theorem short_txt {b : Bytes} (hb : b.length ≤ 16) : Short (txt b) := fun k => by
  cases k with
  | s => exact hb
  | i | u => exact short_int (n := 0) (by omega) .i

/-- A statement with short texts fits its buffer. -/
theorem fits (hfmt : (items (ascii fmt)).length + 16 * holes (items (ascii fmt)) < 2000)
    (h : ∀ a ∈ args, Short a) : (vsprintf (ascii fmt) args).length < 2000 :=
  (length_vsprintf_le h).trans_lt hfmt

theorem username_length (f : Field 12) : f.str.length ≤ 16 := by
  have h := cstr_length_le f.bytes
  rw [f.len] at h
  exact h.trans (by omega)

theorem name_length_le {db : Database} {b : Bytes} {ch : Row Col} (h : ch ∈ db.rows .characters) (hb : ch .name = .text b) :
    b.length ≤ 16 := by
  have hn : (ch .name).HasKind (.text 16) := db.typed _ ch h .name
  rw [hb] at hn
  exact hn

/-! ## Queries -/

theorem begins_select (h : fmt ∈ Query.selects) (args : List Arg) :
    Begins [.word (ascii "SELECT")] (vsprintf (ascii fmt) args) :=
  Begins.of_prefix ⟨ascii "SELECT ", List.prefix_rfl, by rfl⟩
    (prefix_vsprintf (by decide) (Query.prefix_of_mem_selects fmt h) args)

/-- A query that only reads leaves the database as it is. -/
theorem doSQL_db (hfmt : fmt ∈ Query.selects) (h : doSQL E fmt args s = .ok r t) : t.db = s.db := by
  obtain ⟨-, rfl⟩ := doSQL_ok h
  exact E.sql.select _ _ _ (begins_select hfmt args)

/-- The state after reads of the packet and queries that only read. -/
def Server.asked (s : Server) (l : List Nat) (n : Nat) : Server := { s with reads := l, sqlCalls := n }

theorem doSQL_asked (hfmt : fmt ∈ Query.selects) (h : doSQL E fmt args s = .ok r t) :
    t = s.asked s.reads (s.sqlCalls + 1) := by
  obtain ⟨-, ht⟩ := doSQL_ok h
  rw [ht, E.sql.select _ _ _ (begins_select hfmt args)]
  rfl

/-- The rows of a query. -/
theorem doSQL_rows {cols : List Col} {tb : Table} {w : Cond Col Bytes} {rows : List Fetched}
    (hst : parseText schema (vsprintf (ascii fmt) args) = some (.select cols tb w))
    (h : doSQL E fmt args s = .ok (some rows) t) : rows = fetch s.db cols tb w := by
  rcases doSQL_parsed hst h with ⟨-, h⟩ | ⟨-, h⟩
  · exact Option.some.inj h
  · cases h

theorem parseText_of_clean {st : Stmt Table Col (List (UInt8 ⊕ Hole))}
    (hst : compile schema (items (ascii fmt)) = some st) (hargs : args.all cleanArg) :
    parseText schema (vsprintf (ascii fmt) args) = some (st.map (inst (fill args))) :=
  parseText_inst schema (clean_fill hargs) hst

/-- A row that a query finds. -/
theorem exists_of_fetch {db : Database} {cols : List Col} {tb : Table} {w : Cond Col Bytes}
    (h : (fetch db cols tb w).length ≠ 0) : ∃ r ∈ db.rows tb, holds w r = true := by
  obtain ⟨x, hx⟩ := List.exists_mem_of_length_pos (Nat.pos_of_ne_zero h)
  obtain ⟨r, hr, -⟩ := List.mem_map.mp hx
  exact ⟨r, List.mem_filter.mp hr⟩

theorem not_holds_of_fetch {db : Database} {cols : List Col} {tb : Table} {w : Cond Col Bytes}
    (h : (fetch db cols tb w).length = 0) : ∀ r ∈ db.rows tb, holds w r = false := by
  intro r hr
  have hnil : (db.rows tb).filter (holds w) = [] := by
    simpa [fetch] using List.eq_nil_of_length_eq_zero h
  simpa using List.filter_eq_nil_iff.mp hnil r hr

/-! ## The checks of a login -/

section Checks
variable {u p : Bytes}

/-- A condition on the account with a name. -/
def accountCond (u : Bytes) (k : Col) (b : Bytes) : Cond Col Bytes :=
  [[.eq (.col .username) (.str u), .eq (.col k) (.str b)]]

def accountCols : List Col := [.username, .password, .active, .online]

theorem parse_password (hu : clean u) (hp : clean p) :
    parseText schema (vsprintf (ascii Query.password) [txt u, txt p]) =
      some (.select accountCols .accounts (accountCond u .password p)) := by
  have hst : compile schema (items (ascii Query.password)) = some (.select accountCols .accounts
      [[.eq (.col .username) (.str [.inr (.s, 0)]), .eq (.col .password) (.str [.inr (.s, 1)])]]) := by rfl
  rw [parseText_of_clean hst (by simp [cleanArg, hu, hp])]
  simp [Stmt.map, Atom.map, Operand.map, accountCond, fill, Arg.print]

theorem parse_active (hu : clean u) :
    parseText schema (vsprintf (ascii Query.active) [txt u]) =
      some (.select accountCols .accounts (accountCond u .active [49])) := by
  have hst : compile schema (items (ascii Query.active)) = some (.select accountCols .accounts
      [[.eq (.col .username) (.str [.inr (.s, 0)]), .eq (.col .active) (.str [.inl 49])]]) := by rfl
  rw [parseText_of_clean hst (by simp [cleanArg, hu])]
  simp [Stmt.map, Atom.map, Operand.map, accountCond, fill, Arg.print]

theorem parse_offline (hu : clean u) :
    parseText schema (vsprintf (ascii Query.offline) [txt u]) =
      some (.select (.id :: accountCols) .accounts (accountCond u .online [48])) := by
  have hst : compile schema (items (ascii Query.offline)) = some (.select (.id :: accountCols) .accounts
      [[.eq (.col .username) (.str [.inr (.s, 0)]), .eq (.col .online) (.str [.inl 48])]]) := by rfl
  rw [parseText_of_clean hst (by simp [cleanArg, hu])]
  simp [Stmt.map, Atom.map, Operand.map, accountCond, fill, Arg.print]

/-- The password check of `CharDelete`. -/
theorem parse_ownAccount (hu : clean u) (hp : clean p) :
    parseText schema (vsprintf (ascii Query.ownAccount) [txt u, txt p]) =
      some (.select Table.accounts.columns .accounts (accountCond u .password p)) := by
  have hst : compile schema (items (ascii Query.ownAccount)) =
      some (.select Table.accounts.columns .accounts
        [[.eq (.col .username) (.str [.inr (.s, 0)]), .eq (.col .password) (.str [.inr (.s, 1)])]]) := by rfl
  rw [parseText_of_clean hst (by simp [cleanArg, hu, hp])]
  simp [Stmt.map, Atom.map, Operand.map, accountCond, fill, Arg.print]

/-- An account that a check finds. -/
theorem exists_account {cols : List Col} {k : Col} {b : Bytes} {rows : List Fetched}
    (hst : parseText schema (vsprintf (ascii fmt) args) =
      some (.select cols .accounts (accountCond u k b)))
    (h : doSQL E fmt args s = .ok (some rows) t) (hne : rows.length ≠ 0) :
    ∃ r ∈ s.db.rows .accounts, r .username = .text u ∧ (r k).eq (.text b) = true := by
  obtain ⟨r, hr, hholds⟩ := exists_of_fetch (doSQL_rows hst h ▸ hne)
  have hu : (r .username).HasKind (.text 16) := s.db.typed _ r hr .username
  refine ⟨r, hr, ?_⟩
  simpa [accountCond, holds, Atom.holds, Operand.eval, hu.eq_text] using hholds

end Checks

/-! ## Characters by name -/

section Names
variable {b : Bytes}

def nameCond (b : Bytes) : Cond Col Bytes := [[.eq (.col .name) (.str b)]]

theorem holds_nameCond {db : Database} {row : Row Col} (h : row ∈ db.rows .characters) :
    holds (nameCond b) row = true ↔ row .name = .text b := by
  have hn : (row .name).HasKind (.text 16) := db.typed _ row h .name
  simp [nameCond, holds, Atom.holds, Operand.eval, hn.eq_text]

theorem parse_byName (hb : clean b) {k : Col} (hst : compile schema (items (ascii fmt)) =
    some (.select [k] .characters [[.eq (.col .name) (.str [.inr (.s, 0)])]])) :
    parseText schema (vsprintf (ascii fmt) [txt b]) = some (.select [k] .characters (nameCond b)) := by
  rw [parseText_of_clean hst (by simp [cleanArg, hb])]
  simp [Stmt.map, Atom.map, Operand.map, nameCond, fill, Arg.print]

theorem parse_charName (hb : clean b) : parseText schema (vsprintf (ascii Query.charName) [txt b]) =
    some (.select [.name] .characters (nameCond b)) := parse_byName hb (by rfl)

theorem parse_charId (hb : clean b) : parseText schema (vsprintf (ascii Query.charId) [txt b]) =
    some (.select [.id] .characters (nameCond b)) := parse_byName hb (by rfl)

theorem parse_posid (hb : clean b) : parseText schema (vsprintf (ascii Query.posid) [txt b]) =
    some (.select [.posid] .characters (nameCond b)) := parse_byName hb (by rfl)

/-- The columns a character list reads. -/
def listCols : List Col :=
  [.id, .name, .cexp, .clevel, .gold, .cstr, .cint, .cdex, .ccon, .mobid, .posid]

def uidCond (b : Bytes) : Cond Col Bytes := [[.eq (.col .uid) (.str b)]]

theorem holds_uidCond {db : Database} {row : Row Col} (h : row ∈ db.rows .characters) :
    holds (uidCond b) row = true ↔ row .uid = .text b := by
  have hn : (row .uid).HasKind (.text 16) := db.typed _ row h .uid
  simp [uidCond, holds, Atom.holds, Operand.eval, hn.eq_text]

theorem parse_chars (hb : clean b) : parseText schema (vsprintf (ascii Query.chars) [txt b]) =
    some (.select listCols .characters (uidCond b)) := by
  have hst : compile schema (items (ascii Query.chars)) = some (.select listCols .characters
      [[.eq (.col .uid) (.str [.inr (.s, 0)])]]) := by rfl
  rw [parseText_of_clean hst (by simp [cleanArg, hb])]
  simp [Stmt.map, Atom.map, Operand.map, uidCond, fill, Arg.print]

end Names

/-! ## Changes to the tables -/

/-- Creating an account changes no other table. -/
theorem doSQL_newAccount (h : doSQL E Query.newAccount args s = .ok r t) {tb : Table}
    (htb : tb ≠ .accounts) : t.db.rows tb = s.db.rows tb := by
  have hpre : ascii "INSERT INTO `accounts`" <+: ascii Query.newAccount := by decide
  have hbegin : Begins [.word (ascii "INSERT"), .word (ascii "INTO"), .ident (ascii "accounts")]
      (vsprintf (ascii Query.newAccount) args) :=
    Begins.of_prefix ⟨ascii "INSERT INTO `accounts`", List.prefix_rfl, by rfl⟩
      (prefix_vsprintf (by decide) hpre args)
  obtain ⟨-, rfl⟩ := doSQL_ok h
  exact E.sql.insert _ _ _ _ _ hbegin (by rfl) tb htb

/-- An `INSERT` whose texts are clean adds its row or does nothing. -/
theorem doSQL_insert {tb : Table} {cols : List Col} {vals : List (Operand Col (List (UInt8 ⊕ Hole)))}
    (hst : compile schema (items (ascii fmt)) = some (.insert tb cols vals))
    (hargs : args.all cleanArg) (h : doSQL E fmt args s = .ok r t) :
    t.db = s.db ∨ t.db = s.db.add tb cols
      (vals.map fun v => (v.map (inst (fill args))).eval fun _ => .null) := by
  rcases doSQL_parsed (parseText_of_clean hst hargs) h with ⟨h, -⟩ | ⟨h, -⟩
  · right
    simpa [Stmt.map, Sql.exec, Function.comp_def] using h
  · exact .inl h

theorem doSQL_newItem {vs : List Int} (h : doSQL E Query.newItem (vs.map .int) s = .ok r t) :
    t.db = s.db ∨ ∃ vals, t.db = s.db.add .charItems itemCols.tail vals := by
  have hst : compile schema (items (ascii Query.newItem)) = some (.insert .charItems itemCols.tail
      ((List.range 9).map fun i => .str [.inr (.i, i)])) := by decide +kernel
  exact (doSQL_insert hst (by simp [cleanArg]) h).imp_right fun h => ⟨_, h⟩

/-- The first number is the item's owner. -/
theorem doSQL_newItem_owner {n : Int} (vs : List Int)
    (h : doSQL E Query.newItem (.int n :: vs.map .int) s = .ok r t) :
    t.db = s.db ∨ ∃ vals, t.db = s.db.add .charItems itemCols.tail (.text (decimal n) :: vals) := by
  have hst : compile schema (items (ascii Query.newItem)) = some (.insert .charItems itemCols.tail
      ((List.range 9).map fun i => .str [.inr (.i, i)])) := by decide +kernel
  refine (doSQL_insert hst (by simp [cleanArg]) h).imp_right fun h => ?_
  rw [List.range_succ_eq_map, List.map_cons, List.map_cons] at h
  simp only [Operand.map, Operand.eval, inst_inr, inst_nil, List.append_nil, fill,
    List.getElem?_cons_zero, Arg.print] at h
  exact ⟨_, h⟩

/-- The columns that a created character is given. -/
def newCharCols : List Col :=
  [.name, .uid, .mobid, .maxHp, .maxMp, .cstr, .cint, .cdex, .ccon, .gold, .posid, .classid,
    .skpoints, .stpoints, .skmpoints, .clevel]

/-- A created character. -/
def newCharVals (name uid : Bytes) (mobid cstr cint cdex ccon posid classid skpts stpts skmpts
    level : Int) : List Cell :=
  [.text name, .text uid, .text (decimal mobid), .int 50, .int 10, .text (decimal cstr),
    .text (decimal cint), .text (decimal cdex), .text (decimal ccon), .int 0,
    .text (decimal posid), .text (decimal classid), .text (decimal skpts), .text (decimal stpts),
    .text (decimal skmpts), .text (decimal level)]

theorem doSQL_newChar {name uid : Bytes} (hn : clean name) (hu : clean uid)
    {mobid cstr cint cdex ccon posid classid skpts stpts skmpts level : Int}
    (h : doSQL E Query.newChar [txt name, txt uid, .int mobid, .int cstr, .int cint, .int cdex,
      .int ccon, .int posid, .int classid, .int skpts, .int stpts, .int skmpts, .int level] s =
      .ok r t) :
    t.db = s.db ∨ t.db = s.db.add .characters newCharCols
      (newCharVals name uid mobid cstr cint cdex ccon posid classid skpts stpts skmpts level) := by
  have hst : compile schema (items (ascii Query.newChar)) = some (.insert .characters newCharCols
      [.str [.inr (.s, 0)], .str [.inr (.s, 1)], .str [.inr (.i, 2)], .num 50, .num 10,
        .str [.inr (.i, 3)], .str [.inr (.i, 4)], .str [.inr (.i, 5)], .str [.inr (.i, 6)], .num 0,
        .str [.inr (.i, 7)], .str [.inr (.i, 8)], .str [.inr (.i, 9)], .str [.inr (.i, 10)],
        .str [.inr (.i, 11)], .str [.inr (.i, 12)]]) := by decide +kernel
  have h := doSQL_insert hst (by simp [cleanArg, hn, hu]) h
  simpa [Operand.map, Operand.eval, fill, Arg.print, newCharVals] using h

/-- A `DELETE` takes away the rows its condition holds of, or none. -/
theorem doSQL_delete {tb : Table} {w : Cond Col Bytes}
    (hst : parseText schema (vsprintf (ascii fmt) args) = some (.delete tb w))
    (h : doSQL E fmt args s = .ok r t) :
    t.db = s.db ∨ t.db = s.db.restrict tb fun row => !holds w row := by
  rcases doSQL_parsed hst h with ⟨h, -⟩ | ⟨h, -⟩
  · exact .inr h
  · exact .inl h

def ownerCond (n : Int) : Cond Col Bytes := [[.eq (.col .owner) (.str (decimal n))]]

/-- Only the address of the text is printed. -/
theorem print_deleteItems (b : Bytes) (addr : Int) :
    vsprintf (ascii Query.deleteItems) [.str b addr] =
      vsprintf (ascii Query.deleteItems) [.int addr] := by
  have hits : items (ascii Query.deleteItems) =
      (ascii "DELETE FROM char_items WHERE owner='").map .inl ++ [.inr (.i, 0), .inl 39] := by rfl
  rw [vsprintf, vsprintf, hits]
  rfl

/-- The items deleted with a character are those of the owner that the pointer prints as. -/
theorem parse_deleteItems (b : Bytes) (addr : Int) :
    parseText schema (vsprintf (ascii Query.deleteItems) [.str b addr]) =
      some (.delete .charItems (ownerCond addr)) := by
  have hst : compile schema (items (ascii Query.deleteItems)) =
      some (.delete .charItems [[.eq (.col .owner) (.str [.inr (.i, 0)])]]) := by rfl
  rw [print_deleteItems, parseText_of_clean hst (by simp [cleanArg])]
  simp [Stmt.map, Atom.map, Operand.map, ownerCond, fill, Arg.print]

theorem holds_ownerCond {db : Database} {tb : Table} {row : Row Col} (h : row ∈ db.rows tb)
    (n : Int) : holds (ownerCond n) row = true ↔ row .owner = .int n := by
  have hn : (row .owner).HasKind .int := db.typed _ row h .owner
  simp [ownerCond, holds, Atom.holds, Operand.eval, hn.eq_leading, leading_decimal]

/-- Deleting characters only takes some away, whatever the name is. -/
theorem doSQL_deleteChar (h : doSQL E Query.deleteChar args s = .ok r t) :
    (t.db.rows .characters).Sublist (s.db.rows .characters) := by
  have hpre : ascii "DELETE FROM characters " <+: ascii Query.deleteChar := by decide
  have hbegin : Begins [.word (ascii "DELETE"), .word (ascii "FROM"), .word (ascii "characters")]
      (vsprintf (ascii Query.deleteChar) args) :=
    Begins.of_prefix ⟨ascii "DELETE FROM characters ", List.prefix_rfl, by rfl⟩
      (prefix_vsprintf (by decide) hpre args)
  obtain ⟨-, rfl⟩ := doSQL_ok h
  exact (E.sql.delete _ _ _ _ _ hbegin (by rfl)).1

theorem parse_deleteChar {b : Bytes} (hb : clean b) :
    parseText schema (vsprintf (ascii Query.deleteChar) [txt b]) =
      some (.delete .characters (nameCond b)) := by
  have hst : compile schema (items (ascii Query.deleteChar)) =
      some (.delete .characters [[.eq (.col .name) (.str [.inr (.s, 0)])]]) := by rfl
  rw [parseText_of_clean hst (by simp [cleanArg, hb])]
  simp [Stmt.map, Atom.map, Operand.map, nameCond, fill, Arg.print]

end Destiny
