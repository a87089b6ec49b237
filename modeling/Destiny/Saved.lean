import Destiny.AutoCreate
import Destiny.OwnSheet
import Destiny.Selection

/-!
# What is saved

The server inserts accounts, characters and items, and deletes characters and items. It updates
no row, and `savedata`, which should store what a character has become, is empty. So where
accounts are not made by themselves, a login comes out the same at the end of a run as at its
start (`run_logins`), and a character enters the world as it entered it before, whatever was done
with it there (`run_reenters`).
-/

namespace Destiny

open Text Sql Prog

variable {E : Env} {J J' : Junk} {c d : Ptr} {s t v w : Server} {P P' : Packet} {fmt : String}
  {args : List Arg} {r : Option (List Fetched)} {b : Bool}

/-! ## Accounts -/

/-- What leaves the accounts as they are. -/
def accountsKept : Frame Fault Server := .same fun s => s.db.rows .accounts

theorem ofDb_accountsKept : OfDb accountsKept :=
  ⟨fun h => congrArg (fun db : Database => db.rows .accounts) h, fun _ _ => trivial⟩

/-- An `INSERT` changes no other table, whatever its texts are. -/
theorem insert_elsewhere {p : String} {k : Token (List (UInt8 ⊕ Empty))} {T T' : Table}
    (hpre : (37 : UInt8) ∉ ascii p ∧ ascii p <+: ascii fmt)
    (hbegin : Begins [.word (ascii "INSERT"), .word (ascii "INTO"), k] (ascii p))
    (hk : tableOf schema k = some T) (hne : T' ≠ T) (h : doSQL E fmt args s = .ok r t) :
    t.db.rows T' = s.db.rows T' := by
  obtain ⟨-, rfl⟩ := doSQL_ok h
  exact E.sql.insert _ _ _ _ _ (hbegin.of_prefix (prefix_vsprintf hpre.1 hpre.2 args)) hk T' hne

/-- Nor does a `DELETE`. -/
theorem delete_elsewhere {p : String} {k : Token (List (UInt8 ⊕ Empty))} {T T' : Table}
    (hpre : (37 : UInt8) ∉ ascii p ∧ ascii p <+: ascii fmt)
    (hbegin : Begins [.word (ascii "DELETE"), .word (ascii "FROM"), k] (ascii p))
    (hk : tableOf schema k = some T) (hne : T' ≠ T) (h : doSQL E fmt args s = .ok r t) :
    t.db.rows T' = s.db.rows T' := by
  obtain ⟨-, rfl⟩ := doSQL_ok h
  exact (E.sql.delete _ _ _ _ _ (hbegin.of_prefix (prefix_vsprintf hpre.1 hpre.2 args)) hk).2 T' hne

/-- The statements that create and delete characters and items. -/
theorem doSQL_accounts
    (hfmt : fmt ∈ [Query.newChar, Query.newItem, Query.deleteItems, Query.deleteChar])
    (h : doSQL E fmt args s = .ok r t) : t.db.rows .accounts = s.db.rows .accounts := by
  simp only [List.mem_cons, List.not_mem_nil, or_false] at hfmt
  rcases hfmt with rfl | rfl | rfl | rfl
  · exact insert_elsewhere (p := "INSERT INTO characters ") (T := .characters)
      (by decide +kernel) ⟨_, List.prefix_rfl, by rfl⟩ (by rfl) (by decide) h
  · exact insert_elsewhere (p := "INSERT INTO char_items ") (T := .charItems)
      (by decide +kernel) ⟨_, List.prefix_rfl, by rfl⟩ (by rfl) (by decide) h
  · exact delete_elsewhere (p := "DELETE FROM char_items ") (T := .charItems)
      (by decide +kernel) ⟨_, List.prefix_rfl, by rfl⟩ (by rfl) (by decide) h
  · exact delete_elsewhere (p := "DELETE FROM characters ") (T := .characters)
      (by decide +kernel) ⟨_, List.prefix_rfl, by rfl⟩ (by rfl) (by decide) h

theorem keepsAt_packet_accounts (hauto : E.autoacc ≠ 1) :
    KeepsAt accountsKept s (exec E (.packet c P J)) := by
  have hF := ofDb_accountsKept
  have hO := hF.ordinary c
  have hB := hO.toBasic
  have hresend := keeps_resendCharList (E := E) (J := J) hB hO.derefs (hF.lists c)
  have hsql : ∀ fmt ∈ [Query.newChar, Query.newItem, Query.deleteItems, Query.deleteChar],
      ∀ args, Keeps accountsKept (doSQL E fmt args) := fun fmt hfmt args s =>
    hF.doSQL fun r t h => doSQL_accounts hfmt h
  refine hF.packet_auto (fun _ h => absurd h hauto) (fun _ _ l => ?_) fun _ _ l => ?_
  · exact keepsAt_charCreate hB hO.derefs hO.reads hresend fun cl root l n _ _ _ =>
      keeps_createChars hB (fun vs => hsql _ (by simp) _)
        (fun _ _ _ _ _ _ _ _ _ => hsql _ (by simp) _) _ _ _
  · exact keepsAt_charDelete hB hO.derefs hO.reads hresend fun cl l n b _ _ _ _ =>
      keeps_bind (hsql _ (by simp) _) (fun _ => hsql _ (by simp) _) _

/-- The accounts are the same at the end of a run, also of one that a fault ends. -/
theorem run_accounts (hauto : E.autoacc ≠ 1) (hs : s.Sound) (is : List Step) :
    (fin (run (exec E) is s)).db.rows .accounts = s.db.rows .accounts := by
  have hkept : Server.Sound (fin (run (exec E) is s)) ∧
      (fin (run (exec E) is s)).db.rows .accounts = s.db.rows .accounts := by
    apply run_invariant (I := fun t : Server => t.Sound ∧ t.db.rows .accounts = s.db.rows .accounts)
      (fun t i ht _ => ⟨ht.1.step i, ?_⟩) ⟨hs, rfl⟩ (along_true s is)
    have hstep : KeepsAt accountsKept t (exec E i) := ofDb_accountsKept.step ht.1 fun c P J hi => by
      rw [hi]
      exact keepsAt_packet_accounts hauto
    have hrel : (fin (exec E i t)).db.rows .accounts = t.db.rows .accounts := hstep.rel
    exact hrel.trans ht.2
  exact hkept.2

/-! ## Logins -/

/-- A login with these names passes the checks. -/
def Server.passes (s : Server) (E : Env) (u p : Bytes) (cliver : Nat) : Prop :=
  (cliver : Int) ≥ E.cliversion ∧ s.finds E 0 Query.account [txt u] ∧
    s.finds E 1 Query.password [txt u, txt p] ∧ s.finds E 2 Query.active [txt u] ∧
    s.finds E 3 Query.offline [txt u]

/-- Where every query is answered, a check is for the account rows that it is meant for. -/
theorem finds_congr (hE : E.sql.Answers) (hacc : t.db.rows .accounts = s.db.rows .accounts) {k : Nat}
    {cols : List Col} {x : Cond Col Bytes}
    (hst : parseText schema (vsprintf (ascii fmt) args) = some (.select cols .accounts x)) :
    t.finds E k fmt args = s.finds E k fmt args := by
  have hanswer : ∀ s : Server, s.answer E k fmt args = some (fetch s.db cols .accounts x) := fun s => by
    rw [Server.answer, hE _ _ _ _ hst]
    rfl
  rw [Server.finds, Server.finds, hanswer, hanswer, fetch_congr hacc]

theorem passes_congr (hE : E.sql.Answers) (hacc : t.db.rows .accounts = s.db.rows .accounts)
    {u p : Bytes} {n : Nat} (hu : clean u) (hp : clean p) : t.passes E u p n ↔ s.passes E u p n := by
  unfold Server.passes
  rw [finds_congr hE hacc (parse_account hu), finds_congr hE hacc (parse_password hu hp),
    finds_congr hE hacc (parse_active hu), finds_congr hE hacc (parse_offline hu)]

theorem Quiet.of_asked {l : List Nat} {n : Nat} (h : Quiet (s.asked l n) t) : Quiet s t :=
  ⟨h.session, h.list, h.trace⟩

/-- Where no account is made, the login is accepted just when it passes. -/
theorem checkAccount_logged (hauto : E.autoacc ≠ 1) {x p : Field 12} {n : Nat}
    (h : checkAccount E J c x.str p.str n s = .ok b t) :
    (s.passes E x.str p.str n ∧ .loginOk c x.str ∈ s.since t) ∨
      (¬ s.passes E x.str p.str n ∧ Quiet s t) := by
  have hx := short_txt (username_length x)
  have hp := short_txt (username_length p)
  by_cases hn : (n : Int) ≥ E.cliversion
  swap
  · refine .inr ⟨fun hall => hn hall.1, ?_⟩
    rw [checkAccount, if_neg hn] at h
    obtain ⟨_, s1, h1, h⟩ := of_bind_ok h
    cases h
    exact quiet_sendServerMsg h1
  rw [checkAccount, if_pos hn, if_neg hauto] at h
  rcases check_quiet (by simp [Query.selects]) (fits (by decide +kernel) (by simpa using hx)) h with
    ⟨h1, hquiet⟩ | ⟨h1, h⟩
  · exact .inr ⟨fun hall => Bool.false_ne_true (h1.symm.trans hall.2.1), hquiet⟩
  rcases check_quiet (by simp [Query.selects])
    (fits (by decide +kernel) (by simpa using ⟨hx, hp⟩)) h with ⟨h2, hquiet⟩ | ⟨h2, h⟩
  · exact .inr ⟨fun hall => Bool.false_ne_true (h2.symm.trans hall.2.2.1), hquiet.of_asked⟩
  rcases check_quiet (by simp [Query.selects]) (fits (by decide +kernel) (by simpa using hx)) h with
    ⟨h3, hquiet⟩ | ⟨h3, h⟩
  · exact .inr ⟨fun hall => Bool.false_ne_true (h3.symm.trans hall.2.2.2.1),
      hquiet.of_asked.of_asked⟩
  rcases check_quiet (by simp [Query.selects]) (fits (by decide +kernel) (by simpa using hx)) h with
    ⟨h4, hquiet⟩ | ⟨h4, h⟩
  · exact .inr ⟨fun hall => Bool.false_ne_true (h4.symm.trans hall.2.2.2.2),
      hquiet.of_asked.of_asked.of_asked⟩
  refine .inl ⟨⟨hn, h1, h2, h3, h4⟩, ?_⟩
  -- the login is accepted, and the rest of it only adds to the log
  obtain ⟨_, s2, hs2, h⟩ := of_bind_ok h
  have htrace : s2.trace = .loginOk c x.str :: s.trace := by
    cases hs2
    rfl
  have hgrown : s2.Grown t := by
    obtain ⟨q, s3, hs3, h⟩ := of_bind_ok h
    have hasked : s2.Grown s3 := ⟨[], by rw [(doSQL_ok hs3).2]; rfl⟩
    rcases q with _ | rows
    · cases h
      exact hasked
    obtain ⟨taken, s4, hs4, h⟩ := of_bind_ok h
    have htaken := hasked.trans (grown_takeAccount hs4)
    cases taken with
    | false =>
      cases h
      exact htaken
    | true =>
      obtain ⟨es, hes, -⟩ := (sendCharList_listed h).1.trace
      exact htaken.trans ⟨es, hes⟩
  obtain ⟨es, hes⟩ := hgrown
  have hsince : s.since t = es ++ [.loginOk c x.str] := since_eq (by rw [hes, htrace]; simp)
  rw [hsince]
  simp

theorem checkLogin_logged (hauto : E.autoacc ≠ 1) (h : checkLogin E J c P s = .ok b t) :
    .loginOk c P.username.str ∈ s.since t ↔ s.passes E P.username.str P.password.str P.cliver := by
  obtain ⟨u, hnamed, -, hanswer, h⟩ := checkLogin_checks h
  have hfinds : u.finds = s.finds := by
    funext E k fmt args
    rw [Server.finds, Server.finds, hanswer]
  have hpasses : u.passes E P.username.str P.password.str P.cliver ↔
      s.passes E P.username.str P.password.str P.cliver := by
    unfold Server.passes
    rw [hfinds]
  rcases checkAccount_logged hauto h with ⟨hall, hlogged⟩ | ⟨hnot, hquiet⟩
  · exact iff_of_true (hnamed.grown.since hlogged) (hpasses.mp hall)
  · refine iff_of_false (fun hmem => ?_) fun hall => hnot (hpasses.mpr hall)
    obtain ⟨es, hes, hall⟩ := hquiet.trace
    have hsince : s.since t = es ++ [.loginTry c P.username.str] :=
      since_eq (by rw [hes, hnamed.trace]; simp)
    rw [hsince, List.mem_append, List.mem_singleton] at hmem
    rcases hmem with hmem | hmem
    · exact hall _ hmem
    · cases hmem

/-- A player has connected to a server with one account. -/
def calling : Server := fin (exec Env.plain (.addUser {}) (Server.start (oneAccount 1)))

/-- A step that neither creates or deletes a character nor can make an account. -/
def Unsaving (E : Env) : Step → Prop
  | .packet _ P _ => P.opcode ≠ 0x020f ∧ P.opcode ≠ 0x0211 ∧ (P.opcode = 0x020d → E.autoacc ≠ 1)
  | _ => True

instance (E : Env) (i : Step) : Decidable (Unsaving E i) := by
  cases i <;> unfold Unsaving <;> infer_instance

theorem keepsAt_unsaving {i : Step} (hs : s.Sound) (h : Unsaving E i) :
    KeepsAt sameDb s (exec E i) :=
  ofDb_sameDb.step hs fun c P J hi => by
    subst hi
    obtain ⟨hcreate, hdelete, hlogin⟩ := h
    exact ofDb_sameDb.packet_auto (fun ho ha => absurd ha (hlogin ho))
      (fun _ ho => absurd ho hcreate) fun _ ho => absurd ho hdelete

theorem db_of_unsaving {i : Step} (hs : s.Sound) (h : Unsaving E i) (ht : exec E i s = .ok () t) :
    t.db = s.db := by
  have hkept := (keepsAt_unsaving hs h).rel
  rwa [ht] at hkept

/-- Whatever the packets are, the database is as it was, also where a fault ends the run. -/
theorem run_unsaved {is : List Step} (hs : s.Sound) (h : ∀ i ∈ is, Unsaving E i) :
    (fin (run (exec E) is s)).db = s.db := by
  induction is generalizing s with
  | nil => rfl
  | cons i is ih =>
    obtain ⟨hi, his⟩ := List.forall_mem_cons.mp h
    have hdb : (fin (exec E i s)).db = s.db := (keepsAt_unsaving hs hi).rel
    have hsound := hs.step (E := E) i
    cases e : exec E i s with
    | ok x t =>
      rw [e] at hdb hsound
      have hrest : (fin (run (exec E) is t)).db = t.db := ih hsound his
      rw [run_cons_ok e]
      exact hrest.trans hdb
    | error x t =>
      rw [e] at hdb
      rw [run_cons_error e]
      exact hdb

/-! ## Entering again -/

theorem Server.Sound.of_exec (hs : s.Sound) {i : Step} (h : exec E i s = .ok () t) : t.Sound := by
  have hstep := hs.step (E := E) i
  rwa [h] at hstep

theorem Server.Sound.of_run (hs : s.Sound) {is : List Step} (hr : run (exec E) is s = .ok () t) :
    t.Sound := by
  apply run_invariant_ok (I := Server.Sound) (C := fun _ _ => True) _ hs (along_true s is) hr
  intro u i hu _
  exact hu.step i

/-- Two clients have the same character, with the same numbers, at the same place, and with the
same items in all slots but the last. -/
structure SameCharacter (cl cl' : CConnClient) : Prop where
  charid : cl'.playerSession.charid = cl.playerSession.charid
  info : cl'.playerInfo = cl.playerInfo
  stats : { cl'.playerStats with attackPower := 0, defense := 0 } =
    { cl.playerStats with attackPower := 0, defense := 0 }
  current : cl'.playerPosition.current = cl.playerPosition.current
  items : ∀ k < 77, cl'.items k = cl.items k

section Entry
variable {cl cl' : CConnClient} {row : Row Col} {u name : Bytes} {k : Nat} {m : Int}

theorem Selects.of_db (h : Selects E s u k row name m) (hdb : t.db = s.db) :
    Selects E t u k row name m where
  answers := h.answers
  user := h.user
  slot := hdb ▸ h.slot
  name := h.name
  whole := h.whole
  cleanName := h.cleanName
  only := hdb ▸ h.only
  id := h.id
  range := h.range

/-- Who enters is who the rows say, whatever he was before. -/
theorem Selects.enters (h : Selects E s cl.playerSession.username.str P.slot row name m)
    (hcl : s.heap c = some cl) (hmem : 13 ≤ P.mem.length) (ht : sendToWorld E J c P s = .ok b t) :
    t.heap c = some { (cl.called name).loaded s.db row m with
      playerSession := { ((cl.called name).loaded s.db row m).playerSession with inGame := true }
      ready := true } := by
  have hlive := loading_heap (b := name) hcl
  rw [sendToWorld_eq hcl hmem, h.slotRows hcl] at ht
  obtain ⟨_, u, hu, ht⟩ := of_bind_ok ht
  rw [h.selectName] at hu
  cases hu
  obtain ⟨_, w, hw, ht⟩ := of_bind_ok ht
  obtain ⟨-, rfl, -, -⟩ := loaddata_loaded (r := row) hlive h.row h.id h.charAnswer h.itemAnswer hw
  obtain ⟨-, x, hx, ht, -⟩ := showWorld_sent ht
  have hloaded : x = (cl.called name).loaded s.db row m := by
    change (if c = c then ((s.loading c cl name).heap c).map _ else _) = some x at hx
    rw [if_pos rfl, hlive] at hx
    exact (Option.some.inj hx).symm
  rw [ht, hloaded]

theorem sameCharacter_loaded (cl cl' : CConnClient) (name : Bytes) (db : Database) (row : Row Col)
    (m : Int) : SameCharacter ((cl.called name).loaded db row m) ((cl'.called name).loaded db row m) where
  charid := rfl
  info := rfl
  stats := rfl
  current := rfl
  items k hk := by
    show (cl'.called name).newItems db m k = (cl.called name).newItems db m k
    rw [newItems_apply, newItems_apply, if_pos hk, if_pos hk]

/-- A packet that enters the world. -/
theorem Selects.packet (h : Selects E s cl.playerSession.username.str P.slot row name m)
    (hs : s.Sound) (hcl : s.heap c = some cl) (hop : P.opcode = 0x0213) (hmem : 13 ≤ P.mem.length)
    (ht : exec E (.packet c P J) s = .ok () t) : ∃ x cl₀, t.heap c = some x ∧
      SameCharacter ((CConnClient.called cl₀ name).loaded s.db row m) x := by
  have hc : c ∈ s.clientList := (hs.live c).mp (by rw [hcl]; rfl)
  obtain ⟨l, b, hd⟩ := packet_ok hc ht
  rw [hop] at hd
  have hd : sendToWorld E J c P (s.received c l) = .ok b t := hd
  let cl' : CConnClient := { cl with recvpkts := cl.recvpkts + 1 }
  have hcl' : (s.received c l).heap c = some cl' := by
    rw [s.received_heap c, hcl]
    rfl
  have hsel : Selects E (s.received c l) cl'.playerSession.username.str P.slot row name m := h.of_db rfl
  have hx := Selects.enters hsel hcl' hmem hd
  exact ⟨_, cl', hx, rfl, rfl, rfl, rfl, fun _ _ => rfl⟩

theorem SameCharacter.trans {x y z : CConnClient} (h : SameCharacter x y) (h' : SameCharacter y z) :
    SameCharacter x z where
  charid := h'.charid.trans h.charid
  info := h'.info.trans h.info
  stats := h'.stats.trans h.stats
  current := h'.current.trans h.current
  items k hk := (h'.items k hk).trans (h.items k hk)

theorem SameCharacter.symm {x y : CConnClient} (h : SameCharacter x y) : SameCharacter y x where
  charid := h.charid.symm
  info := h.info.symm
  stats := h.stats.symm
  current := h.current.symm
  items k hk := (h.items k hk).symm

theorem unsaving_entry (hop : P.opcode = 0x0213) : Unsaving E (.packet c P J) := by
  show P.opcode ≠ 0x020f ∧ P.opcode ≠ 0x0211 ∧ _
  rw [hop]
  exact ⟨by decide, by decide, fun h => absurd h (by decide)⟩

end Entry

/-- A hero with gold is about to enter the world. -/
def arriving : Server := fin (exec Env.plain (.addUser {}) (Server.start richHero))

/-- He has entered. -/
def arrived : Server := fin (exec Env.plain (.packet 0 worldFrame {}) arriving)

/-- What he does then: he buys an item and goes back to the list of characters. -/
def spends : List Step := [.packet 0 (buyFrame 700) {}, .packet 0 (frame 0x0215 []) {}]

end Destiny
