import Destiny.Entry
import Destiny.Framing
import Destiny.Ids
import Destiny.Loading
import Destiny.Server.Listing
import Mathlib.Data.Set.Card

/-!
# Refused logins

`CheckLogin` copies the names in the packet into the session before its first check, so a refusal
leaves the session with a name nobody let in. A refusal for want of an id leaves more: it is
found row by row, after the rows before it were let in.
-/

namespace Destiny

open Text Sql Prog

/-! ## Definitions -/

/-- What the session says about who is playing. -/
def CAccount.identity (a : CAccount) : Field 12 × Nat × Nat × Nat × Bool × Bool :=
  (a.username, a.userid, a.clientid, a.accesslevel, a.isLoggedIn, a.inGame)

/-- `atoi(row[i])` of a column that is not `NULL`. -/
def numberAt (row : Fetched) (i : Nat) : Int :=
  match row[i]? with
  | some (some b) => atoi (cstr b)
  | _ => 0

/-- The query that comes after `k` others finds a row. -/
def Server.finds (s : Server) (E : Env) (k : Nat) (fmt : String) (args : List Arg) : Bool :=
  match s.answer E k fmt args with
  | some (_ :: _) => true
  | _ => false

/-- The rows of the account that a login is let into, if every check finds one and every query is
answered. -/
def Server.admits (s : Server) (E : Env) (u p : Bytes) (cliver : Nat) : Option (List Fetched) :=
  if (cliver : Int) ≥ E.cliversion ∧ s.finds E 0 Query.account [txt u] ∧
    s.finds E 1 Query.password [txt u, txt p] ∧ s.finds E 2 Query.active [txt u] ∧
    s.finds E 3 Query.offline [txt u]
  then s.answer E 4 Query.level [txt u]
  else none

/-- The rows of the account that a login packet is let into. -/
def Server.admitsPacket (s : Server) (E : Env) (P : Packet) : Option (List Fetched) :=
  s.admits E P.username.str P.password.str P.cliver

/-- The number of ids that players can still be given. -/
noncomputable def Server.idsLeft (s : Server) (now : Int) : Nat := (s.freeIDs now 1).ncard

/-- A session refused at a row for want of an id, after a last row that was let in, if any. -/
def CAccount.refusedAt (a : CAccount) (last : Option Fetched) (row : Fetched) : CAccount :=
  { a with
    userid := u32 (numberAt row 0)
    clientid := 0
    isLoggedIn := a.isLoggedIn || last.isSome
    accesslevel := (last.map fun r => u32 (numberAt r 1)).getD a.accesslevel }

/-- What a refusal at a row leaves in the session is what the session has. -/
def CAccount.HasRefusal (a : CAccount) (last : Option Fetched) (row : Fetched) : Prop :=
  a.userid = u32 (numberAt row 0) ∧ a.clientid = 0 ∧
    ∀ r, last = some r → a.isLoggedIn = true ∧ a.accesslevel = u32 (numberAt r 1)

variable {E : Env} {J : Junk} {c : Ptr} {s t u : Server} {P : Packet} {a : CAccount} {b : Bool}
  {rows : List Fetched} {row : Fetched} {now : Int} {j n : Nat}

/-! ## Ids -/

theorem freeIDs_finite : (s.freeIDs now 1).Finite :=
  (Set.finite_Iic 0xffff).subset fun _ hj => hj.2.1

theorem freeIDs_take : (s.take j).freeIDs now 1 = s.freeIDs now 1 \ {j} := by
  ext k
  rw [Set.mem_sdiff, Set.mem_singleton_iff]
  show (1 ≤ k ∧ k ≤ 0xffff ∧ (if k = j then 0 else s.clientIDList k) ≠ 0 ∧
    now - (if k = j then 0 else s.clientIDList k : Nat) > 10) ↔ _
  by_cases hk : k = j
  · rw [if_pos hk]
    exact ⟨fun h => absurd rfl h.2.2.1, fun h => absurd hk h.2⟩
  · rw [if_neg hk]
    exact ⟨fun h => ⟨h, hk⟩, fun h => h.1⟩

theorem idsLeft_take (hj : j ∈ s.freeIDs now 1) : s.idsLeft now = (s.take j).idsLeft now + 1 := by
  rw [Server.idsLeft, Server.idsLeft, freeIDs_take]
  exact (Set.ncard_sdiff_singleton_add_one hj freeIDs_finite).symm

/-! ## Rows -/

theorem colInt_number {m : Int} (h : colInt row n s = .ok m t) : t = s ∧ m = numberAt row n := by
  obtain ⟨ht, d, hd, hm⟩ := colInt_ok h
  refine ⟨ht, ?_⟩
  rw [numberAt, hd]
  exact hm

theorem session_modify (ha : s.session c = some a) (f : CAccount → CAccount) :
    (s.setSession c f).session c = some (f a) := by
  rw [session_setSession, if_pos rfl, ha]
  rfl

/-- A session that an account's row is let into. -/
def CAccount.letIn (a : CAccount) (row : Fetched) (j : Nat) : CAccount :=
  { a with
    userid := u32 (numberAt row 0), clientid := j, isLoggedIn := true
    accesslevel := u32 (numberAt row 1) }

/-- A row takes an id, or there is none left for it. -/
theorem takeAccount_cons (ha : s.session c = some a)
    (h : takeAccount J c (row :: rows) s = .ok b t) :
    (∃ j ∈ s.freeIDs J.now 1, ∃ v, takeAccount J c rows v = .ok b t ∧
      v.session c = some (a.letIn row j) ∧ v.clientIDList = (s.take j).clientIDList ∧
        v.trace = .granted c (numberAt row 1) :: s.trace) ∨
    s.freeIDs J.now 1 = ∅ ∧ b = false ∧ t.session c = some (a.refusedAt none row) := by
  obtain ⟨id, s1, h1, h⟩ := of_bind_ok h
  obtain ⟨hs1, hid⟩ := colInt_number h1
  obtain ⟨_, s2, h2, h⟩ := of_bind_ok h
  obtain ⟨i, s3, h3, h⟩ := of_bind_ok h
  obtain ⟨_, s4, h4, h⟩ := of_bind_ok h
  rw [hs1] at h2
  cases h2
  cases h4
  let f : CAccount → CAccount := fun a => { a with userid := u32 id }
  have ha2 : (s.setSession c f).session c = some (f a) := session_modify ha f
  rcases getNewID_cases J (s.setSession c f) 1 with ⟨j, hj, hnew⟩ | ⟨hnone, hnew⟩
  · have hpos : j ≠ 0 := Nat.pos_iff_ne_zero.mp hj.1.1
    cases hnew.symm.trans h3
    rw [if_neg hpos] at h
    obtain ⟨_, s5, h5, h⟩ := of_bind_ok h
    obtain ⟨lev, s6, h6, h⟩ := of_bind_ok h
    obtain ⟨hs6, hlev⟩ := colInt_number h6
    obtain ⟨_, s7, h7, h⟩ := of_bind_ok h
    cases h5
    rw [hs6] at h7
    cases h7
    refine .inl ⟨i, hj.1, _, h, ?_, rfl, by rw [hlev]; rfl⟩
    have ha3 := session_modify ha2 fun a => { a with clientid := i }
    have ha4 := session_modify ha3 fun a => { a with isLoggedIn := true }
    have ha5 := session_modify ha4 fun a => { a with accesslevel := u32 lev }
    rw [CAccount.letIn, ← hid, ← hlev]
    exact ha5
  · cases hnew.symm.trans h3
    rw [if_pos rfl] at h
    cases h
    refine .inr ⟨hnone, rfl, ?_⟩
    have ha3 := session_modify ha2 fun a => { a with clientid := 0 }
    rw [CAccount.refusedAt, Option.isSome_none, Bool.or_false, ← hid]
    exact ha3

theorem refusedAt_letIn (a : CAccount) (first : Fetched) (last : Option Fetched) :
    (a.letIn first j).refusedAt last row = a.refusedAt (some (last.getD first)) row := by
  cases last with
  | none => simp [CAccount.refusedAt, CAccount.letIn]
  | some r => simp [CAccount.refusedAt, CAccount.letIn]

/-- The rows let in take the ids that are left; the next one is refused. -/
theorem takeAccount_refused (ha : s.session c = some a)
    (h : takeAccount J c rows s = .ok false t) : ∃ row, rows[s.idsLeft J.now]? = some row ∧
      t.session c = some (a.refusedAt (rows.take (s.idsLeft J.now)).getLast? row) := by
  induction rows generalizing s a with
  | nil => cases h
  | cons row rows ih =>
    rcases takeAccount_cons ha h with ⟨j, hj, v, hv, hav, hlist, -⟩ | ⟨hnone, -, ht⟩
    · obtain ⟨row', hrow', ht⟩ := ih hav hv
      have hleft : s.idsLeft J.now = v.idsLeft J.now + 1 := by
        rw [idsLeft_take hj, Server.idsLeft, Server.idsLeft, Server.freeIDs, Server.freeIDs, hlist]
      refine ⟨row', by rw [hleft]; exact hrow', ?_⟩
      rw [ht, refusedAt_letIn, hleft, List.take_succ_cons, List.getLast?_cons]
    · have hzero : s.idsLeft J.now = 0 := by
        rw [Server.idsLeft, hnone, Set.ncard_empty]
      exact ⟨row, by rw [hzero]; rfl, by rw [hzero]; exact ht⟩

/-! ## Quiet steps -/

/-- Nothing but quiet changes. -/
def quietly : Frame Fault Server where
  rel := Quiet
  err _ _ := True
  refl _ := quiet_of_eq rfl rfl rfl
  trans := by
    rintro s t u ⟨hs1, hl1, es1, ht1, hq1⟩ ⟨hs2, hl2, es2, ht2, hq2⟩
    refine ⟨hs2.trans hs1, hl2.trans hl1, es2 ++ es1, by rw [ht2, ht1, List.append_assoc], ?_⟩
    exact fun e he => (List.mem_append.mp he).elim (hq2 e) (hq1 e)
  err_trans _ h := h

theorem silent_quietly : Silent quietly := ⟨fun h => h, fun _ _ => trivial⟩

theorem quiet_sendServerMsg {format : Bytes} {args : List Arg}
    (h : sendServerMsg J c format args s = .ok b t) : Quiet s t :=
  (keeps_sendServerMsg (silent_quietly.open c).toBasic (silent_quietly.open c).derefs _ _).rel_ok h

/-- A list is logged, and otherwise all is quiet. -/
theorem sendCharList_listed (h : sendCharList E J c s = .ok b t) :
    Quiet s t ∧ .listing c ∈ s.since t := by
  have hO := silent_quietly.open c
  have hquiet : Quiet s t := (keeps_sendCharList hO.toBasic hO.derefs hO.lists).rel_ok h
  refine ⟨hquiet, ?_⟩
  rw [sendCharList] at h
  obtain ⟨_, s1, h1, h⟩ := of_bind_ok h
  obtain ⟨cl, s2, h2, h⟩ := of_bind_ok h
  obtain ⟨_, s3, h3, h⟩ := of_bind_ok h
  obtain ⟨_, s4, h4, h⟩ := of_bind_ok h
  have htrace : s4.trace = .listing c :: s.trace := by
    cases h4
    rw [(writes_stores h3).1, (client_ok h2).2]
    cases h1
    rfl
  have hrest : Quiet s4 t := by
    refine Keeps.rel_ok (F := quietly) (keeps_bind (keeps_selectChars hO.toBasic hO.derefs)
      fun r => ?_) h
    rcases r with _ | rows
    · exact keeps_pure _
    refine keeps_bind (keeps_fetchChars hO.toBasic hO.lists.chars _ _) fun r => ?_
    rcases r with _ | chars
    · exact keeps_pure _
    refine keeps_bind (keeps_select hO.toBasic (by simp [Query.selects]) _) fun r => ?_
    rcases r with _ | rows
    · exact keeps_pure _
    refine keeps_bind (keeps_fetchItems hO.toBasic (fun _ => trivial) _ _ _) fun _ =>
      keeps_bind (keeps_writeChars hO.toBasic hO.lists _ _) fun written => ?_
    cases written with
    | false => exact keeps_pure _
    | true =>
      exact keeps_bind (keeps_writes hO.toBasic _) fun _ => keeps_bind (keeps_writes hO.toBasic _)
        fun _ => keeps_bind (keeps_sendPacket hO.toBasic hO.derefs _) fun _ => keeps_pure _
  obtain ⟨es, hes, -⟩ := hrest.trace
  have hsince : s.since t = es ++ [.listing c] := since_eq (by rw [hes, htrace]; simp)
  rw [hsince]
  simp

/-! ## Checks -/

/-- The trace has grown. -/
def Server.Grown (s t : Server) : Prop := ∃ es, t.trace = es ++ s.trace

theorem Server.Grown.since {e : Event} (h : s.Grown u) (he : e ∈ u.since t) : e ∈ s.since t := by
  obtain ⟨es, hes⟩ := h
  have hlen : s.trace.length ≤ u.trace.length := by
    rw [hes, List.length_append]
    omega
  exact List.take_subset_take_left _ (Nat.sub_le_sub_left hlen _) he

theorem Server.Grown.trans (h : s.Grown u) (ht : u.Grown t) : s.Grown t := by
  obtain ⟨es, hes⟩ := h
  obtain ⟨es', hes'⟩ := ht
  exact ⟨es' ++ es, by rw [hes', hes, List.append_assoc]⟩

theorem grown_takeAccount (h : takeAccount J c rows s = .ok b t) : s.Grown t := by
  have hcalm : Keeps (sending fun _ => True) (takeAccount J c rows) := calm_sending.takeAccount rows
  obtain ⟨es, hes, -⟩ := hcalm.rel_ok h
  exact ⟨es, hes⟩

theorem grown_takeNewAccount {x : Unit} (h : takeNewAccount c rows s = .ok x t) : s.Grown t := by
  have hcalm : Keeps (sending fun _ => True) (takeNewAccount c rows) :=
    calm_sending.takeNewAccount rows
  obtain ⟨es, hes, -⟩ := hcalm.rel_ok h
  exact ⟨es, hes⟩

theorem Server.Grown.listed (h : s.Grown u) (hlist : sendCharList E J c u = .ok b t) :
    .listing c ∈ s.since t := h.since (sendCharList_listed hlist).2

/-- A check that finds a row lets the login go on; after any other all is quiet. -/
theorem check_quiet {fmt : String} {args args' : List Arg} {format : Bytes} {next : M Bool}
    (hfmt : fmt ∈ Query.selects) (hlen : (vsprintf (ascii fmt) args).length < 2000)
    (h : (doSQL E fmt args >>= fun r => match r with
      | none => pure false
      | some rows => if rows.length = 0 then sendServerMsg J c format args' else next) s = .ok b t) :
    (s.finds E 0 fmt args = false ∧ Quiet s t) ∨
      s.finds E 0 fmt args = true ∧ next (s.asked s.reads (s.sqlCalls + 1)) = .ok b t := by
  have hasked : Quiet s (s.asked s.reads (s.sqlCalls + 1)) := quiet_of_eq rfl rfl rfl
  rw [bind_ok (doSQL_select hfmt hlen)] at h
  rw [Server.finds]
  rcases hrows : s.answer E 0 fmt args with _ | _ | ⟨row, rows⟩ <;> rw [hrows] at h <;> dsimp only at h
  · cases h
    exact .inl ⟨rfl, hasked⟩
  · rw [if_pos List.length_nil] at h
    exact .inl ⟨rfl, quietly.trans hasked (quiet_sendServerMsg h)⟩
  · rw [if_neg (show ¬ (row :: rows).length = 0 from Nat.succ_ne_zero _)] at h
    exact .inr ⟨rfl, h⟩

/-- A check that finds a row lets the login go on; any other leaves the session as it is. -/
theorem check_refused {fmt : String} {args args' : List Arg} {format : Bytes} {next : M Bool}
    (hfmt : fmt ∈ Query.selects) (hlen : (vsprintf (ascii fmt) args).length < 2000)
    (h : (doSQL E fmt args >>= fun r => match r with
      | none => pure false
      | some rows => if rows.length = 0 then sendServerMsg J c format args' else next) s = .ok b t) :
    (s.finds E 0 fmt args = false ∧ t.session = s.session) ∨
      s.finds E 0 fmt args = true ∧ next (s.asked s.reads (s.sqlCalls + 1)) = .ok b t :=
  (check_quiet hfmt hlen h).imp_left fun hquiet => ⟨hquiet.1, hquiet.2.session⟩

/-- A name that no account has: the account is created and its characters are listed, or the
session stays as it is and nothing is listed. -/
theorem checkAccount_creates {x p : Field 12} {v : Nat} (hv : (v : Int) ≥ E.cliversion)
    (hauto : E.autoacc = 1) (hnew : s.answer E 0 Query.account [txt x.str] = some [])
    (h : checkAccount E J c x.str p.str v s = .ok b t) :
    (t.session = s.session ∧ ∃ es, t.trace = es ++ s.trace ∧ .listing c ∉ es) ∨
      ∃ rows u w v y, w.session = s.session ∧ s.Grown w ∧
        doSQL E Query.accountRow [txt x.str] u = .ok (some rows) w ∧
        takeNewAccount c rows w = .ok y v ∧ sendCharList E J c v = .ok b t := by
  have hx := short_txt (username_length x)
  rw [checkAccount, if_pos hv, bind_ok (doSQL_select (by simp [Query.selects])
    (fits (by decide +kernel) (by simpa using hx))), hnew] at h
  dsimp only at h
  rw [if_pos List.length_nil, if_pos hauto] at h
  obtain ⟨r, s1, hs1, h⟩ := of_bind_ok h
  have hsession : s1.session = s.session := by
    rw [(doSQL_ok hs1).2]
    rfl
  have htrace : s1.trace = s.trace := by
    rw [(doSQL_ok hs1).2]
    rfl
  rcases r with _ | inserted
  · cases h
    exact .inl ⟨hsession, [], htrace, List.not_mem_nil⟩
  obtain ⟨_, s2, hs2, h⟩ := of_bind_ok h
  cases hs2
  obtain ⟨r, s3, hs3, h⟩ := of_bind_ok h
  have hsession3 : s3.session = s.session := by
    rw [(doSQL_ok hs3).2]
    exact hsession
  have htrace3 : s3.trace = [.loginOk c x.str] ++ s.trace := by
    rw [(doSQL_ok hs3).2]
    exact congrArg (Event.loginOk c x.str :: ·) htrace
  rcases r with _ | rows
  · cases h
    exact .inl ⟨hsession3, _, htrace3, by simp⟩
  obtain ⟨y, s4, hs4, h⟩ := of_bind_ok h
  exact .inr ⟨rows, _, s3, s4, y, hsession3, ⟨_, htrace3⟩, hs3, hs4, h⟩

/-- A name that an account has: a check stops the login and leaves the session as it is, or the
account's rows are let in and, unless an id is wanting, its characters are listed. -/
theorem checkAccount_known {x p : Field 12} {v : Nat} (hv : (v : Int) ≥ E.cliversion)
    (hfound : s.finds E 0 Query.account [txt x.str])
    (h : checkAccount E J c x.str p.str v s = .ok b t) :
    (s.admits E x.str p.str v = none ∧ t.session = s.session) ∨
      ∃ rows w taken v', s.admits E x.str p.str v = some rows ∧ w.session = s.session ∧
        w.clientIDList = s.clientIDList ∧ s.Grown w ∧ takeAccount J c rows w = .ok taken v' ∧
        if taken then sendCharList E J c v' = .ok b t else t = v' := by
  have hx := short_txt (username_length x)
  have hp := short_txt (username_length p)
  obtain ⟨row, rows, h1⟩ : ∃ row rows, s.answer E 0 Query.account [txt x.str] = some (row :: rows) := by
    rcases h1 : s.answer E 0 Query.account [txt x.str] with _ | _ | ⟨row, rows⟩
    · simp [Server.finds, h1] at hfound
    · simp [Server.finds, h1] at hfound
    · exact ⟨row, rows, rfl⟩
  rw [checkAccount, if_pos hv, bind_ok (doSQL_select (by simp [Query.selects])
    (fits (by decide +kernel) (by simpa using hx))), h1] at h
  dsimp only at h
  rw [if_neg (show ¬ (row :: rows).length = 0 from Nat.succ_ne_zero _)] at h
  rcases check_refused (by simp [Query.selects])
    (fits (by decide +kernel) (by simpa using ⟨hx, hp⟩)) h with ⟨h2, hsame⟩ | ⟨h2, h⟩
  · exact .inl ⟨if_neg fun hall => Bool.false_ne_true (h2.symm.trans hall.2.2.1), hsame⟩
  rcases check_refused (by simp [Query.selects])
    (fits (by decide +kernel) (by simpa using hx)) h with ⟨h3, hsame⟩ | ⟨h3, h⟩
  · exact .inl ⟨if_neg fun hall => Bool.false_ne_true (h3.symm.trans hall.2.2.2.1), hsame⟩
  rcases check_refused (by simp [Query.selects])
    (fits (by decide +kernel) (by simpa using hx)) h with ⟨h4, hsame⟩ | ⟨h4, h⟩
  · exact .inl ⟨if_neg fun hall => Bool.false_ne_true (h4.symm.trans hall.2.2.2.2), hsame⟩
  have hadmits : s.admits E x.str p.str v = s.answer E 4 Query.level [txt x.str] :=
    if_pos ⟨hv, hfound, h2, h3, h4⟩
  obtain ⟨_, s2, hs2, h⟩ := of_bind_ok h
  cases hs2
  obtain ⟨r, s3, hs3, h⟩ := of_bind_ok h
  obtain rfl : r = s.admits E x.str p.str v := hadmits ▸ (doSQL_ok hs3).1
  have hs3 := doSQL_asked (by simp [Query.selects]) hs3
  rcases hrows : s.admits E x.str p.str v with _ | rows <;> rw [hrows] at h <;> dsimp only at h
  · cases h
    exact .inl ⟨rfl, by rw [hs3]; rfl⟩
  obtain ⟨taken, s4, hs4, h⟩ := of_bind_ok h
  have hgrown : s.Grown s3 := ⟨[.loginOk c x.str], by rw [hs3]; rfl⟩
  refine .inr ⟨rows, s3, taken, s4, rfl, by rw [hs3]; rfl, by rw [hs3]; rfl, hgrown, hs4, ?_⟩
  cases taken with
  | false =>
    cases h
    rfl
  | true => exact h

/-- A login that is refused stops at a check, and leaves the session as it is, or is let in and
stops for want of an id. -/
theorem checkAccount_refused {x p : Field 12} {v : Nat}
    (h : checkAccount E J c x.str p.str v s = .ok b t) (hno : .listing c ∉ s.since t) :
    (s.admits E x.str p.str v = none ∧ t.session = s.session) ∨
      ∃ rows w, s.admits E x.str p.str v = some rows ∧ takeAccount J c rows w = .ok false t ∧
        w.session = s.session ∧ w.clientIDList = s.clientIDList := by
  by_cases hv : (v : Int) ≥ E.cliversion
  swap
  · refine .inl ⟨if_neg fun hall => hv hall.1, ?_⟩
    rw [checkAccount, if_neg hv] at h
    obtain ⟨_, s1, h1, h⟩ := of_bind_ok h
    cases h
    exact (quiet_sendServerMsg h1).session
  by_cases hfound : s.finds E 0 Query.account [txt x.str] = true
  · rcases checkAccount_known hv hfound h with hnone | ⟨rows, w, taken, v', hsome, hw, hlist, hgrown,
      htake, hend⟩
    · exact .inl hnone
    refine .inr ⟨rows, w, hsome, ?_, hw, hlist⟩
    cases taken with
    | false =>
      obtain rfl : t = v' := hend
      exact htake
    | true => exact absurd ((hgrown.trans (grown_takeAccount htake)).listed hend) hno
  refine .inl ⟨if_neg fun hall => hfound hall.2.1, ?_⟩
  have hx := short_txt (username_length x)
  rcases h1 : s.answer E 0 Query.account [txt x.str] with _ | _ | ⟨row, rows⟩
  · rw [checkAccount, if_pos hv, bind_ok (doSQL_select (by simp [Query.selects])
      (fits (by decide +kernel) (by simpa using hx))), h1] at h
    cases h
    rfl
  · by_cases hauto : E.autoacc = 1
    · rcases checkAccount_creates hv hauto h1 h with ⟨hsame, -⟩ | ⟨rows, u, w, v', y, -, hgrown, -,
        htake, hlist⟩
      · exact hsame
      · exact absurd ((hgrown.trans (grown_takeNewAccount htake)).listed hlist) hno
    · rw [checkAccount, if_pos hv, bind_ok (doSQL_select (by simp [Query.selects])
        (fits (by decide +kernel) (by simpa using hx))), h1] at h
      dsimp only at h
      rw [if_pos List.length_nil, if_neg hauto] at h
      exact (quiet_sendServerMsg h).session
  · rw [Server.finds, h1] at hfound
    exact absurd rfl hfound

/-! ## Logins -/

theorem readLogin_rest {r : Bytes × Bytes × Nat} (h : readLogin E c P s = .ok r t) :
    t.sqlCalls = s.sqlCalls ∧ t.clientIDList = s.clientIDList := by
  obtain ⟨keys, s1, h1, h⟩ := of_bind_ok h
  obtain ⟨pass, s2, h2, h⟩ := of_bind_ok h
  obtain ⟨user, s3, h3, h⟩ := of_bind_ok h
  obtain ⟨ver, s4, h4, h⟩ := of_bind_ok h
  obtain ⟨cl, s5, h5, h⟩ := of_bind_ok h
  obtain ⟨-, rfl⟩ := rd_ok h1
  obtain ⟨-, rfl⟩ := rd_ok h2
  obtain ⟨-, rfl⟩ := rd_ok h3
  obtain ⟨-, rfl⟩ := rdInt_ok h4
  obtain ⟨-, rfl⟩ := client_ok h5
  cases h
  exact ⟨rfl, rfl⟩

/-- The checks of a login packet begin in a state that answers as the one before it. -/
theorem checkLogin_checks (h : checkLogin E J c P s = .ok b t) : ∃ u, Named c P s u ∧
    u.clientIDList = s.clientIDList ∧ u.answer = s.answer ∧
      checkAccount E J c P.username.str P.password.str P.cliver u = .ok b t := by
  obtain ⟨r, u, hu, h⟩ := of_bind_ok h
  obtain ⟨rfl, hnamed⟩ := readLogin_ok hu
  obtain ⟨hcalls, hlist⟩ := readLogin_rest hu
  refine ⟨u, hnamed, hlist, ?_, h⟩
  funext E k fmt args
  rw [Server.answer, Server.answer, hcalls, hnamed.db]

theorem admits_of_answer (h : u.answer = s.answer) :
    u.admits E P.username.str P.password.str P.cliver = s.admitsPacket E P := by
  have hfinds : u.finds = s.finds := by
    funext E k fmt args
    rw [Server.finds, Server.finds, h]
  rw [Server.admitsPacket, Server.admits, Server.admits, hfinds, h]

theorem Named.session_self (h : Named c P s t) (ha : s.session c = some a) :
    t.session c = some (a.named P) := by
  rw [h.session]
  exact session_modify ha fun a => a.named P

theorem Named.grown (h : Named c P s t) : s.Grown t := ⟨[.loginTry c P.username.str], h.trace⟩

theorem identity_named : (a.named P).identity = a.identity ↔ P.username = a.username := by
  constructor
  · intro h
    exact congrArg (·.1) h
  · intro h
    rw [CAccount.identity, CAccount.identity, ← h]
    rfl

theorem identity_refusedAt (last : Option Fetched) :
    ((a.named P).refusedAt last row).identity = a.identity ↔
      P.username = a.username ∧ a.HasRefusal last row := by
  simp only [CAccount.identity, CAccount.refusedAt, CAccount.named, Prod.mk.injEq]
  cases last with
  | none =>
    simp only [Option.isSome_none, Bool.or_false, Option.map_none, Option.getD_none, and_true]
    constructor
    · rintro ⟨hname, hid, hclient⟩
      exact ⟨hname, hid.symm, hclient.symm, nofun⟩
    · rintro ⟨hname, hid, hclient, -⟩
      exact ⟨hname, hid.symm, hclient.symm⟩
  | some r =>
    simp only [Option.isSome_some, Bool.or_true, Option.map_some, Option.getD_some, and_true]
    constructor
    · rintro ⟨hname, hid, hclient, hlevel, hlogged⟩
      refine ⟨hname, hid.symm, hclient.symm, fun r' hr => ?_⟩
      cases hr
      exact ⟨hlogged.symm, hlevel.symm⟩
    · rintro ⟨hname, hid, hclient, hlast⟩
      obtain ⟨hlogged, hlevel⟩ := hlast r rfl
      exact ⟨hname, hid.symm, hclient.symm, hlevel.symm, hlogged.symm⟩

/-- A refused login keeps who is playing just when the packet names the account that the session
already has and, if it is for want of an id, the session already has the id of the row that is
refused, no client id, and what the row before it gives. -/
theorem checkLogin_identity_iff (ha : s.session c = some a)
    (h : checkLogin E J c P s = .ok b t) (hrefused : .listing c ∉ s.since t) :
    (t.session c).map CAccount.identity = some a.identity ↔ P.username = a.username ∧
      ∀ rows row, s.admitsPacket E P = some rows → rows[s.idsLeft J.now]? = some row →
        a.HasRefusal (rows.take (s.idsLeft J.now)).getLast? row := by
  obtain ⟨u, hnamed, hlist, hanswer, h⟩ := checkLogin_checks h
  have hau := hnamed.session_self ha
  have hids : ∀ w : Server, w.clientIDList = u.clientIDList → w.idsLeft J.now = s.idsLeft J.now :=
    fun w hw => by
      rw [Server.idsLeft, Server.freeIDs, hw, hlist]
      rfl
  rcases checkAccount_refused h fun hmem => hrefused (hnamed.grown.since hmem) with
    ⟨hnone, hsame⟩ | ⟨rows, w, hsome, htake, hw, hwlist⟩
  · rw [admits_of_answer hanswer] at hnone
    rw [hsame, hau, hnone, Option.map_some, Option.some_inj, identity_named]
    exact ⟨fun hname => ⟨hname, nofun⟩, fun hname => hname.1⟩
  · rw [admits_of_answer hanswer] at hsome
    rw [← hw] at hau
    obtain ⟨row, hrow, ht⟩ := takeAccount_refused hau htake
    rw [hids w hwlist] at hrow ht
    rw [ht, hsome, Option.map_some, Option.some_inj, identity_refusedAt]
    constructor
    · rintro ⟨hname, hleft⟩
      refine ⟨hname, fun rows' row' hrows hrow' => ?_⟩
      cases hrows
      cases hrow.symm.trans hrow'
      exact hleft
    · rintro ⟨hname, hleft⟩
      exact ⟨hname, hleft rows row rfl hrow⟩

def wrongPassword : Packet := loginFrame (ascii "bob") (ascii "no")

theorem checkLogin_identity_iff_retry : ∃ a, selecting.session 0 = some a ∧
    ((fin (checkLogin Env.plain {} 0 wrongPassword selecting)).session 0).map CAccount.identity =
      some a.identity := by
  have hrun : returned (checkLogin Env.plain {} 0 wrongPassword selecting) = some true ∧
      .listing 0 ∉ selecting.since (fin (checkLogin Env.plain {} 0 wrongPassword selecting)) ∧
      (selecting.session 0).map (fun a => a.username.bytes) = some wrongPassword.username.bytes ∧
      selecting.admitsPacket Env.plain wrongPassword = none := by
    decide +kernel
  obtain ⟨hok, hno, hname, hnone⟩ := hrun
  obtain ⟨a, ha, hbytes⟩ := Option.map_eq_some_iff.mp hname
  have hsame : wrongPassword.username = a.username := by
    generalize wrongPassword.username = x at hbytes ⊢
    obtain ⟨bytes, hlen⟩ := x
    obtain rfl : a.username.bytes = bytes := hbytes
    rfl
  refine ⟨a, ha, (checkLogin_identity_iff ha (ok_of_returned hok) hno).mpr ⟨hsame, ?_⟩⟩
  rw [hnone]
  exact nofun

def wrongName : Packet := loginFrame (ascii "eve") (ascii "pw")

/-- A player who is logged in and tries an account that does not exist has its name afterwards. -/
theorem wrongName_changes :
    returned (checkLogin Env.plain {} 0 wrongName selecting) = some true ∧
      .listing 0 ∉ selecting.since (fin (checkLogin Env.plain {} 0 wrongName selecting)) ∧
      ((fin (checkLogin Env.plain {} 0 wrongName selecting)).session 0).map CAccount.identity ≠
        (selecting.session 0).map CAccount.identity := by
  have hrun : returned (checkLogin Env.plain {} 0 wrongName selecting) = some true ∧
      .listing 0 ∉ selecting.since (fin (checkLogin Env.plain {} 0 wrongName selecting)) ∧
      ((fin (checkLogin Env.plain {} 0 wrongName selecting)).session 0).map (·.username.str) ≠
        (selecting.session 0).map (·.username.str) := by
    decide +kernel
  obtain ⟨hok, hno, hname⟩ := hrun
  refine ⟨hok, hno, fun h => hname ?_⟩
  have hstr := congrArg (Option.map fun x => x.1.str) h
  rw [Option.map_map, Option.map_map] at hstr
  exact hstr

/-- A column that is not there counts as zero. -/
example : numberAt [some (ascii "12"), none] 0 = 12 ∧ numberAt [some (ascii "12"), none] 1 = 0 := by
  decide +kernel

end Destiny
