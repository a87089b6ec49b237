import Destiny.Owners
import Destiny.Refused

/-!
# Created accounts

With `autoacc` on, a login with a name no account has creates the account. The session gets its
rows on a path of its own: it gets an id 40000 above the account's, and neither a client id nor
`isLoggedIn`.
-/

namespace Destiny

open Text Sql Prog

/-- Two sessions of one player who is logged in, each with a client id. -/
structure CAccount.SameLogin (a a' : CAccount) : Prop where
  userid : a.userid = a'.userid
  accesslevel : a.accesslevel = a'.accesslevel
  loggedIn : a.isLoggedIn = true ∧ a'.isLoggedIn = true
  clientid : a.clientid ≠ 0 ∧ a'.clientid ≠ 0

/-- A login packet with a name that no account has, where accounts are created, that is answered
with a list of characters; the session before and after it. -/
structure AutoCreates (E : Env) (J : Junk) (c : Ptr) (P : Packet) (s t : Server) (a b : CAccount) :
    Prop where
  version : (P.cliver : Int) ≥ E.cliversion
  auto : E.autoacc = 1
  new : s.answer E 0 Query.account [txt P.username.str] = some []
  run : ∃ r, checkLogin E J c P s = .ok r t
  listed : .listing c ∈ s.since t
  before : s.session c = some a
  after : t.session c = some b

/-- A login packet that passes the checks; the session before and after it. -/
structure Admitted (E : Env) (J : Junk) (c : Ptr) (P : Packet) (s t : Server) (a b : CAccount) :
    Prop where
  admits : (s.admitsPacket E P).isSome
  run : ∃ r, checkLogin E J c P s = .ok r t
  before : s.session c = some a
  after : t.session c = some b

/-- A session that has taken the row of a created account. -/
def CAccount.created (a : CAccount) (row : Fetched) : CAccount :=
  { a with userid := u32 (40000 + numberAt row 0), accesslevel := u32 (numberAt row 6) }

variable {E : Env} {J J' : Junk} {c c' : Ptr} {s s' t t' u : Server} {P P' : Packet}
  {a a' : CAccount} {b b' : Bool} {rows : List Fetched} {row : Fetched}

/-! ## The last row -/

/-- The last row of a created account is the one that stays. -/
theorem takeNewAccount_last {y : Unit} (ha : s.session c = some a)
    (h : takeNewAccount c rows s = .ok y t) :
    t.session c = some ((rows.getLast?.map a.created).getD a) := by
  induction rows generalizing s a with
  | nil =>
    cases h
    exact ha
  | cons row rows ih =>
    obtain ⟨id, s1, h1, h⟩ := of_bind_ok h
    obtain ⟨hs1, hid⟩ := colInt_number h1
    obtain ⟨_, s2, h2, h⟩ := of_bind_ok h
    obtain ⟨lev, s3, h3, h⟩ := of_bind_ok h
    obtain ⟨hs3, hlev⟩ := colInt_number h3
    obtain ⟨_, s4, h4, h⟩ := of_bind_ok h
    rw [hs1] at h2
    cases h2
    rw [hs3] at h4
    cases h4
    have ha2 := session_modify ha fun a => { a with userid := u32 (40000 + id) }
    have ha4 := session_modify ha2 fun a => { a with accesslevel := u32 lev }
    rw [hid, hlev] at ha4
    have hlast := ih (a := a.created row) (by rw [hid, hlev]; exact ha4) h
    rw [hlast, List.getLast?_cons]
    cases rows.getLast? with
    | none => rfl
    | some r => rfl

/-- A session that an account was let into has taken its last row and an id. -/
theorem takeAccount_last (ha : s.session c = some a) (h : takeAccount J c rows s = .ok true t)
    (hlast : rows.getLast? = some row) : ∃ j, t.session c = some (a.letIn row j) := by
  induction rows generalizing s a with
  | nil => cases hlast
  | cons first rows ih =>
    rcases takeAccount_cons ha h with ⟨j, -, v, hv, hav, -⟩ | ⟨-, hfalse, -⟩
    swap
    · cases hfalse
    rw [List.getLast?_cons] at hlast
    rcases hrest : rows.getLast? with _ | r
    · rw [hrest] at hlast
      cases hlast
      rw [List.getLast?_eq_none_iff] at hrest
      subst hrest
      cases hv
      exact ⟨j, hav⟩
    · rw [hrest] at hlast
      cases hlast
      exact ih (a := a.letIn first j) hav hv hrest

/-! ## Rows of an account -/

def userCond (u : Bytes) : Cond Col Bytes := [[.eq (.col .username) (.str u)]]

theorem parse_byUser {fmt : String} {cols : List Col} {x : Bytes} (hx : clean x)
    (hst : compile schema (items (ascii fmt)) =
      some (.select cols .accounts [[.eq (.col .username) (.str [.inr (.s, 0)])]])) :
    parseText schema (vsprintf (ascii fmt) [txt x]) = some (.select cols .accounts (userCond x)) := by
  rw [parseText_of_clean hst (by simp [cleanArg, hx])]
  simp [Stmt.map, Atom.map, Operand.map, userCond, fill, Arg.print]

theorem parse_account {x : Bytes} (hx : clean x) :
    parseText schema (vsprintf (ascii Query.account) [txt x]) =
      some (.select accountCols .accounts (userCond x)) := parse_byUser hx (by rfl)

theorem parse_accountRow {x : Bytes} (hx : clean x) :
    parseText schema (vsprintf (ascii Query.accountRow) [txt x]) =
      some (.select Table.accounts.columns .accounts (userCond x)) := parse_byUser hx (by rfl)

theorem parse_level {x : Bytes} (hx : clean x) :
    parseText schema (vsprintf (ascii Query.level) [txt x]) =
      some (.select [.id, .acesslevel] .accounts (userCond x)) := parse_byUser hx (by rfl)

theorem answer_rows {k : Nat} {fmt : String} {args : List Arg} {cols : List Col} {tb : Table}
    {w : Cond Col Bytes}
    (hst : parseText schema (vsprintf (ascii fmt) args) = some (.select cols tb w))
    (h : s.answer E k fmt args = some rows) : rows = fetch s.db cols tb w := by
  rw [Server.answer] at h
  rcases E.sql.parsed (s.sqlCalls + k) s.db _ _ hst with hq | hq <;> rw [hq] at h
  · exact (Option.some.inj h).symm
  · cases h

theorem fetch_congr {db db' : Database} {cols : List Col} {tb : Table} {w : Cond Col Bytes}
    (h : db'.rows tb = db.rows tb) : fetch db' cols tb w = fetch db cols tb w := by
  rw [fetch, fetch, h]

theorem takeNewAccount_db {y : Unit} (h : takeNewAccount c rows s = .ok y t) : t.db = s.db := by
  have hB := (ofDb_sameDb.ordinary c).toBasic
  have hkeep : Keeps sameDb (takeNewAccount c rows) := keeps_takeNewAccount (u := []) hB
    ⟨fun _ => rfl, fun _ _ => rfl, fun _ _ => rfl⟩ rows
  exact hkeep.rel_ok h

theorem sendCharList_db (h : sendCharList E J c s = .ok b t) : t.db = s.db := by
  have hO := ofDb_sameDb.ordinary c
  exact (keeps_sendCharList hO.toBasic hO.derefs (ofDb_sameDb.lists c)).rel_ok h

theorem u32_add_ne (n : Int) : u32 (40000 + n) ≠ u32 n := by
  unfold u32 unsigned
  omega

/-! ## Two logins -/

/-- A created account's session has the id of no login into the account that finds the same rows. -/
theorem userid_ne {y : Unit} {w v w' v' : Server} {n : Field 12} {rows rows' : List Fetched}
    (hclean : clean n.str) (hq : doSQL E Query.accountRow [txt n.str] u = .ok (some rows) w)
    (hw : w.session c = some a) (htake : takeNewAccount c rows w = .ok y v)
    (hlist : sendCharList E J c v = .ok b t) (hsame : s'.db.rows .accounts = t.db.rows .accounts)
    (hfound : s'.finds E 0 Query.account [txt n.str])
    (hrows : s'.answer E 4 Query.level [txt n.str] = some rows')
    (hw' : w'.session c' = some a') (htake' : takeAccount J' c' rows' w' = .ok true v') :
    ∃ r r', v.session c = some r ∧ v'.session c' = some r' ∧ r.userid ≠ r'.userid := by
  have hdb : t.db = u.db := by
    rw [sendCharList_db hlist, takeNewAccount_db htake, doSQL_db (by simp [Query.selects]) hq]
  obtain ⟨rs, hrs⟩ : ∃ rs, rs = (u.db.rows .accounts).filter (holds (userCond n.str)) := ⟨_, rfl⟩
  have hcols : ∀ cols, fetch s'.db cols .accounts (userCond n.str) = rs.map (printed cols) :=
    fun cols => by
      rw [fetch_congr hsame, hdb, hrs]
      rfl
  have hnew : rows = rs.map (printed Table.accounts.columns) := by
    rw [doSQL_rows (parse_accountRow hclean) hq, hrs]
    rfl
  have hold : rows' = rs.map (printed [.id, .acesslevel]) :=
    (answer_rows (parse_level hclean) hrows).trans (hcols _)
  have hne : rs ≠ [] := by
    rintro rfl
    rcases hacc : s'.answer E 0 Query.account [txt n.str] with _ | rows0 <;>
      rw [Server.finds, hacc] at hfound
    · cases hfound
    · rw [answer_rows (parse_account hclean) hacc, hcols] at hfound
      cases hfound
  obtain ⟨x, hx⟩ := Option.isSome_iff_exists.mp (List.getLast?_isSome.mpr hne)
  have hlast : rows.getLast? = some (printed Table.accounts.columns x) := by
    rw [hnew, List.getLast?_map, hx]
    rfl
  have hlast' : rows'.getLast? = some (printed [.id, .acesslevel] x) := by
    rw [hold, List.getLast?_map, hx]
    rfl
  have hv := takeNewAccount_last hw htake
  rw [hlast] at hv
  obtain ⟨j, hv'⟩ := takeAccount_last hw' htake' hlast'
  exact ⟨_, _, hv, hv', u32_add_ne _⟩

theorem admits_found {x p : Bytes} {v : Nat} (h : (s.admits E x p v).isSome) :
    (v : Int) ≥ E.cliversion ∧ s.finds E 0 Query.account [txt x] = true ∧
      s.admits E x p v = s.answer E 4 Query.level [txt x] := by
  by_cases hall : (v : Int) ≥ E.cliversion ∧ s.finds E 0 Query.account [txt x] ∧
    s.finds E 1 Query.password [txt x, txt p] ∧ s.finds E 2 Query.active [txt x] ∧
    s.finds E 3 Query.offline [txt x]
  · exact ⟨hall.1, hall.2.1, if_pos hall⟩
  · rw [Server.admits, if_neg hall] at h
    cases h

/-- A session that logs in is left without an id, or an id was found for every row. -/
theorem Admitted.ends {a₁ : CAccount} (h : Admitted E J c P s t a a₁) : a₁.clientid = 0 ∨
    ∃ rows w v, s.finds E 0 Query.account [txt P.username.str] = true ∧
      s.answer E 4 Query.level [txt P.username.str] = some rows ∧
      w.session c = some (a.named P) ∧ takeAccount J c rows w = .ok true v ∧
      v.session c = some a₁ := by
  obtain ⟨r, hrun⟩ := h.run
  obtain ⟨u, hnamed, -, hanswer, hrun⟩ := checkLogin_checks hrun
  have hadmits := h.admits
  have hau := hnamed.session_self h.before
  rw [← admits_of_answer hanswer] at hadmits
  obtain ⟨hv, hfound, hlevel⟩ := admits_found hadmits
  rcases checkAccount_known hv hfound hrun with ⟨hnone, -⟩ |
    ⟨rows, w, taken, v, hrows, hw, -, -, htake, hend⟩
  · rw [hnone] at hadmits
    cases hadmits
  rw [← hw] at hau
  cases taken with
  | false =>
    obtain rfl : t = v := hend
    obtain ⟨row, -, ht⟩ := takeAccount_refused hau htake
    refine .inl ?_
    rw [Option.some.inj (h.after.symm.trans ht)]
    rfl
  | true =>
    have hsession : v.session = t.session := (sendCharList_listed hend).1.session.symm
    refine .inr ⟨rows, w, v, ?_, ?_, hau, htake, by rw [hsession]; exact h.after⟩
    · rw [Server.finds, ← hanswer]
      exact hfound
    · rw [← hanswer, ← hlevel]
      exact hrows

/-- A session for which an account is created has taken the rows of the account as it is then. -/
theorem AutoCreates.ends {a₁ : CAccount} (h : AutoCreates E J c P s t a a₁) : ∃ rows u w v y r,
    doSQL E Query.accountRow [txt P.username.str] u = .ok (some rows) w ∧
      w.session c = some (a.named P) ∧ takeNewAccount c rows w = .ok y v ∧
      sendCharList E J c v = .ok r t ∧ v.session c = some a₁ := by
  obtain ⟨r, hrun⟩ := h.run
  obtain ⟨u, hnamed, -, hanswer, hrun⟩ := checkLogin_checks hrun
  have hau := hnamed.session_self h.before
  rcases checkAccount_creates h.version h.auto (by rw [hanswer]; exact h.new) hrun with
    ⟨-, es, hes, hno⟩ | ⟨rows, u', w, v, y, hw, -, hq, htake, hlist⟩
  · have htrace : t.trace = (es ++ [.loginTry c P.username.str]) ++ s.trace := by
      rw [hes, hnamed.trace]
      simp
    refine absurd h.listed ?_
    rw [since_eq htrace]
    simp [hno]
  · have hsession : v.session = t.session := (sendCharList_listed hlist).1.session.symm
    have hafter : v.session c = some a₁ := by
      rw [hsession]
      exact h.after
    exact ⟨rows, u', w, v, y, r, hq, by rw [hw]; exact hau, htake, hlist, hafter⟩

/-! ## The two paths -/

/-- A login that creates an account leaves no session like the one that a login into the account
leaves. -/
theorem autoCreate_unlike {a₀ a₁ : CAccount} (h : AutoCreates E J c P s t a a₁)
    (h' : Admitted E J' c' P' s' t' a₀ a') (hname : P'.username = P.username)
    (hsame : s'.db.rows .accounts = t.db.rows .accounts)
    (hfresh : a.isLoggedIn = false ∨ clean P.username.str) : ¬ a₁.SameLogin a' := by
  intro hlike
  obtain ⟨rows, u, w, v, y, r, hq, hw, htake, hlist, ha₁⟩ := h.ends
  rcases hfresh with hout | hclean
  · have hlast := takeNewAccount_last hw htake
    have hin := hlike.loggedIn.1
    rw [Option.some.inj (ha₁.symm.trans hlast)] at hin
    cases hrow : rows.getLast? with
    | none =>
      rw [hrow] at hin
      exact Bool.false_ne_true (hout.symm.trans hin)
    | some row =>
      rw [hrow] at hin
      exact Bool.false_ne_true (hout.symm.trans hin)
  · rcases h'.ends with hzero | ⟨rows', w', v', hfound, hrows, hw', htake', ha'⟩
    · exact hlike.clientid.2 hzero
    · rw [hname] at hfound hrows
      obtain ⟨b, b', hb, hb', hne⟩ := userid_ne hclean hq hw htake hlist hsame hfound hrows hw' htake'
      cases ha₁.symm.trans hb
      cases ha'.symm.trans hb'
      exact hne hlike.userid

/-- A server that creates accounts. -/
def Env.creating : Env := { Env.plain with autoacc := 1 }

/-- Two connections to a server without accounts. -/
def waiting : Server :=
  fin (run (exec Env.creating) [.addUser {}, .addUser {}] (Server.start (Db.empty schema)))

def newName : Packet := loginFrame (ascii "eve") (ascii "pw")

/-- The first has an account created. -/
def created : Server := fin (checkLogin Env.creating { now := 20 } 0 newName waiting)

/-- The second logs in to it. -/
def joined : Server := fin (checkLogin Env.creating { now := 20 } 1 newName created)

theorem autoCreate_unlike_waiting : ∃ a₁ a', created.session 0 = some a₁ ∧
    joined.session 1 = some a' ∧ ¬ a₁.SameLogin a' := by
  have hstate : (newName.cliver : Int) ≥ Env.creating.cliversion ∧
      waiting.answer Env.creating 0 Query.account [txt newName.username.str] = some [] ∧
      returned (checkLogin Env.creating { now := 20 } 0 newName waiting) = some true ∧
      .listing 0 ∈ waiting.since created ∧ (waiting.session 0).map (·.isLoggedIn) = some false ∧
      (created.session 0).isSome ∧ (created.admitsPacket Env.creating newName).isSome ∧
      returned (checkLogin Env.creating { now := 20 } 1 newName created) = some true ∧
      (created.session 1).isSome ∧ (joined.session 1).isSome := by
    decide +kernel
  obtain ⟨hv, hnew, hrun, hlisted, hout, h₁, hadmits, hrun', h₀, h'⟩ := hstate
  obtain ⟨a, ha, hout⟩ := Option.map_eq_some_iff.mp hout
  obtain ⟨a₁, ha₁⟩ := Option.isSome_iff_exists.mp h₁
  obtain ⟨a₀, ha₀⟩ := Option.isSome_iff_exists.mp h₀
  obtain ⟨a', ha'⟩ := Option.isSome_iff_exists.mp h'
  have hcreates : AutoCreates Env.creating { now := 20 } 0 newName waiting created a a₁ :=
    ⟨hv, rfl, hnew, ⟨true, ok_of_returned hrun⟩, hlisted, ha, ha₁⟩
  have hadmitted : Admitted Env.creating { now := 20 } 1 newName created joined a₀ a' :=
    ⟨hadmits, ⟨true, ok_of_returned hrun'⟩, ha₀, ha'⟩
  exact ⟨a₁, a', ha₁, ha', autoCreate_unlike hcreates hadmitted rfl rfl (.inl hout)⟩

/-- The created account's player is not logged in, has no id, and is not the user that the account's
next player is. -/
theorem created_differs :
    (created.session 0).map (fun a => (a.userid, a.accesslevel, a.isLoggedIn, a.clientid)) =
        some (40001, 1, false, 0) ∧
      (joined.session 1).map (fun a => (a.userid, a.accesslevel, a.isLoggedIn, a.clientid)) =
        some (1, 1, true, 1) := by
  decide +kernel

end Destiny
