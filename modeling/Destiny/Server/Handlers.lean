import Destiny.Server.Effects

/-!
# What the handlers do

Each handler keeps every frame that meets the conditions its lemma lists. `Ordinary F c`
collects what every packet of `c` may do, and `keepsAt_dispatch` leaves of a packet only what
its opcode does beyond that. Where the database is free as well (`Open F c`), only logins,
world entries and commands are left.
-/

namespace Destiny

open Text Sql Prog

section Handlers
variable {F : Frame Fault Server} (hF : Basic F) {E : Env} {J : Junk} {c : Ptr} (hc : Derefs F c)

theorem keeps_getNewID (hi : Ids F) (i : Nat) : Keeps F (getNewID J i) := by
  intro s
  cases h : s.freeID J.now i with
  | none => exact keepsAt_ok (a := 0) (by rw [getNewID, h]) (F.refl s)
  | some j => exact keepsAt_ok (a := j) (by rw [getNewID, h]) (hi s _ i j h)

section
include hF

theorem keeps_spawnChar {o : Ptr} (hc : Derefs F c) (ho : Derefs F o) (hs : Spawns F c) :
    Keeps F (spawnChar J c o) := by
  unfold spawnChar
  refine keeps_bind (keeps_client ho) fun o => ?_
  refine keeps_bind (keeps_packetFree hF) fun _ => ?_
  refine keeps_bind (keeps_writes hF _) fun _ => ?_
  exact keeps_bind (keeps_sendPacket hF hc _) fun _ =>
    keeps_bind (keeps_note (hs.char _)) fun _ => keeps_pure _

theorem keeps_spawnNPC (hc : Derefs F c) (hi : Ids F) (hn : Npcs F) (hs : Spawns F c) (i : Nat) :
    Keeps F (spawnNPC J c i) := by
  unfold spawnNPC
  refine keeps_bind (keeps_getNewID hi _) fun _ => ?_
  refine keeps_bind (keeps_modify fun s => hn s _) fun _ => ?_
  refine keeps_bind (keeps_packetFree hF) fun _ => keeps_bind keeps_get fun s => ?_
  split
  · exact keeps_throw_nullPtr hF
  · refine keeps_bind (keeps_writes hF _) fun _ => ?_
    exact keeps_bind (keeps_sendPacket hF hc _) fun _ =>
      keeps_bind (keeps_note (hs.npc _ _)) fun _ => keeps_pure _

/-! ### Character lists -/

theorem keeps_fetchChars (hx : ∀ s, F.err s .charsIndex) (rows : List Fetched) (chars : List CCharacter) :
    Keeps F (fetchChars E J rows chars) := by
  induction rows generalizing chars with
  | nil => exact keeps_pure _
  | cons row rows ih =>
    unfold fetchChars
    refine keeps_bind (keeps_check hx) fun _ => keeps_bind (keeps_colName hF _ _) fun _ => ?_
    iterate 8 refine keeps_bind (keeps_colInt hF _ _) fun _ => ?_
    refine keeps_bind (keeps_col hF _ _) fun _ =>
      keeps_bind (keeps_select hF (by simp [Query.selects]) _) fun r => ?_
    cases r with
    | none => exact keeps_pure _
    | some rows2 =>
      exact keeps_bind (keeps_fetchItems hF (fun s => hF.fault s _ (by decide) (by decide)) _ _ _)
        fun _ => ih _

theorem keeps_lastPosid (rows : List Fetched) (charpos : Int) :
    Keeps F (lastPosid rows charpos) := by
  induction rows generalizing charpos with
  | nil => exact keeps_pure _
  | cons row rows ih => exact keeps_bind (keeps_colInt hF _ _) fun _ => ih _

theorem keeps_writeChars (hl : Lists F c) (k : Nat) (chars : List CCharacter) :
    Keeps F (writeChars E J c k chars) := by
  induction chars generalizing k with
  | nil => exact keeps_pure _
  | cons ch chars ih =>
    refine keeps_bind (keeps_select hF (by simp [Query.selects]) _) fun r => ?_
    cases r with
    | none => exact keeps_pure _
    | some rows =>
      exact keeps_bind (keeps_lastPosid hF _ _) fun _ => keeps_bind (keeps_note (hl.slot _))
        fun _ => keeps_bind (keeps_writes hF _) fun _ => ih _

end

include hF hc

theorem keeps_selectChars : Keeps F (selectChars E c) :=
  keeps_bind (keeps_client hc) fun _ => keeps_select hF (by simp [Query.selects]) _

theorem keeps_resendCharList (hl : Lists F c) : Keeps F (resendCharList E J c) := by
  refine keeps_bind (keeps_packetFree hF) fun _ => keeps_bind (keeps_writes hF _) fun _ =>
    keeps_bind (keeps_note hl.listing) fun _ => keeps_bind (keeps_selectChars hF hc) fun r => ?_
  cases r with
  | none => exact keeps_pure _
  | some rows =>
    refine keeps_bind (keeps_fetchChars hF hl.chars _ _) fun r => ?_
    cases r with
    | none => exact keeps_pure _
    | some chars =>
      refine keeps_bind (keeps_writeChars hF hl _ _) fun b => ?_
      cases b with
      | false => exact keeps_pure _
      | true => exact keeps_bind (keeps_sendPacket hF hc _) fun _ => keeps_pure _

theorem keeps_sendCharList (hl : Lists F c) : Keeps F (sendCharList E J c) := by
  unfold sendCharList
  refine keeps_bind (keeps_packetFree hF) fun _ => keeps_bind (keeps_client hc) fun _ => ?_
  refine keeps_bind (keeps_writes hF _) fun _ => ?_
  refine keeps_bind (keeps_note hl.listing) fun _ => ?_
  refine keeps_bind (keeps_selectChars hF hc) fun r => ?_
  cases r with
  | none => exact keeps_pure _
  | some rows =>
    refine keeps_bind (keeps_fetchChars hF hl.chars _ _) fun r => ?_
    cases r with
    | none => exact keeps_pure _
    | some chars =>
      refine keeps_bind (keeps_select hF (by simp [Query.selects]) _) fun r => ?_
      cases r with
      | none => exact keeps_pure _
      | some rows =>
        refine keeps_bind
          (keeps_fetchItems hF (fun s => hF.fault s _ (by decide) (by decide)) _ _ _) fun _ =>
          keeps_bind (keeps_writeChars hF hl _ _) fun b => ?_
        cases b with
        | false => exact keeps_pure _
        | true =>
          exact keeps_bind (keeps_writes hF _) fun _ => keeps_bind (keeps_writes hF _) fun _ =>
            keeps_bind (keeps_sendPacket hF hc _) fun _ => keeps_pure _

/-! ### Login -/

omit hc in
theorem keepsAt_grant (hg : ∀ s b, F.rel s (s.grant c (atoi b))) (row : Fetched) (i : Nat)
    {α : Type} {f : Int → M α} (hf : ∀ lvl, Keeps F (f lvl)) :
    Keeps F (colInt row i >>= fun lvl => modify (fun s => s.grant c lvl) >>= fun _ => f lvl) := by
  unfold colInt col
  split
  · next b _ =>
    exact keeps_bind (f := fun _ => f (atoi (cstr b))) (keeps_modify fun s => hg s (cstr b))
      fun _ => hf _
  · exact keeps_throw_nullPtr hF

omit hc in
theorem keeps_takeNewAccount {u : Bytes} (hl : Creates F c u) (rows : List Fetched) :
    Keeps F (takeNewAccount c rows) := by
  induction rows with
  | nil => exact keeps_pure _
  | cons row rows ih =>
    exact keeps_bind (keeps_colInt hF _ _) fun _ =>
      keeps_bind (keeps_modifySession (hl.userid _)) fun _ =>
        keepsAt_grant hF hl.grant _ _ fun _ => ih

omit hc in
theorem keeps_takeAccount {u : Bytes} (hl : Logins F c u) (hi : Ids F) (rows : List Fetched) :
    Keeps F (takeAccount J c rows) := by
  induction rows with
  | nil => exact keeps_pure _
  | cons row rows ih =>
    refine keeps_bind (keeps_colInt hF _ _) fun _ =>
      keeps_bind (keeps_modifySession (hl.userid _)) fun _ =>
        keeps_bind (keeps_getNewID hi _) fun _ =>
          keeps_bind (keeps_modifySession (hl.clientid _)) fun _ =>
            keeps_ite (fun _ => keeps_pure _) fun _ => ?_
    exact keeps_bind (keeps_modifySession hl.loggedIn) fun _ =>
      keepsAt_grant hF hl.grant _ _ fun _ => ih

theorem keeps_readLogin (hr : Reads F) (ht : Tries F c) (P : Packet) :
    Keeps F (readLogin E c P) := by
  have hu : ∀ s, F.err s .unmapped := fun s => hF.fault s _ (by decide) (by decide)
  refine keeps_bind (keeps_rd hr hu _ _ _) fun _ => keeps_bind (keeps_rd hr hu _ _ _) fun _ =>
    keeps_bind (keeps_rd hr hu _ _ _) fun _ => keeps_bind (keeps_rdInt hF hr _ _ _) fun _ =>
      keeps_bind (keeps_client hc) fun _ => ?_
  exact keeps_bind (keeps_modifySession (ht.names _ _)) fun _ =>
    keeps_bind (keeps_modify fun s => ht.keys s _ _) fun _ =>
      keeps_bind (keeps_note (ht.logs _)) fun _ => keeps_pure _

/-- The checks of a login, with what the branch of an account that passes them does. -/
theorem keepsAt_checkAccount_take {u p : Bytes} {s : Server}
    (hnew : E.autoacc = 1 → Keeps F (doSQL E Query.newAccount [txt u, txt p]))
    (hsend : Keeps F (sendCharList E J c)) (hu : Creates F c u) (cliver : Nat)
    (htake : ∀ m rows, (E.sql.query m s.db (vsprintf (ascii Query.level) [txt u])).2 = some rows →
      KeepsAt F { s with sqlCalls := m + 1, trace := .loginOk c u :: s.trace }
        (takeAccount J c rows)) :
    KeepsAt F s (checkAccount E J c u p cliver) := by
  have hmsg := fun f a => keeps_sendServerMsg (J := J) hF hc f a
  unfold checkAccount
  split
  case isFalse => exact keeps_bind (hmsg _ _) (fun _ => keeps_pure _) s
  case isTrue =>
  refine keepsAt_bind (keeps_select hF (by simp [Query.selects]) _ s) fun r s1 h1 => ?_
  have hs1 := doSQL_asked (by simp [Query.selects]) h1
  rcases r with _ | rows
  · exact keeps_pure _ s1
  dsimp only
  split
  · refine keeps_ite (fun hauto => ?_) (fun _ => hmsg _ _) s1
    -- the account is created
    refine keeps_bind (hnew hauto) fun r => ?_
    rcases r with _ | _
    · exact keeps_pure _
    refine keeps_bind (keeps_note hu.ok) fun _ => ?_
    refine keeps_bind (keeps_select hF (by simp [Query.selects]) _) fun r => ?_
    rcases r with _ | rows
    · exact keeps_pure _
    exact keeps_bind (keeps_takeNewAccount hF hu _) fun _ => hsend
  refine keepsAt_bind (keeps_select hF (by simp [Query.selects]) _ s1) fun r s2 h2 => ?_
  have hs2 := doSQL_asked (by simp [Query.selects]) h2
  rcases r with _ | rows
  · exact keeps_pure _ s2
  dsimp only
  split
  · exact hmsg _ _ s2
  refine keepsAt_bind (keeps_select hF (by simp [Query.selects]) _ s2) fun r s3 h3 => ?_
  have hs3 := doSQL_asked (by simp [Query.selects]) h3
  rcases r with _ | rows
  · exact keeps_pure _ s3
  dsimp only
  split
  · exact hmsg _ _ s3
  refine keepsAt_bind (keeps_select hF (by simp [Query.selects]) _ s3) fun r s4 h4 => ?_
  have hs4 := doSQL_asked (by simp [Query.selects]) h4
  rcases r with _ | rows
  · exact keeps_pure _ s4
  dsimp only
  split
  · exact hmsg _ _ s4
  refine keepsAt_bind (keeps_note hu.ok s4) fun _ s5 h5 => ?_
  cases h5
  refine keepsAt_bind (keeps_select hF (by simp [Query.selects]) _ _) fun r s6 h6 => ?_
  have hanswer := (doSQL_ok h6).1
  have hs6 := doSQL_asked (by simp [Query.selects]) h6
  rcases r with _ | rows
  · exact keeps_pure _ s6
  refine keepsAt_bind ?_ fun b s7 _ => ?_
  · rw [hs4, hs3, hs2, hs1] at hanswer hs6
    rw [hs6]
    exact htake _ rows hanswer.symm
  · cases b with
    | false => exact keeps_pure _ s7
    | true => exact hsend s7

theorem keeps_checkAccount_take {u p : Bytes}
    (hnew : Keeps F (doSQL E Query.newAccount [txt u, txt p]))
    (htake : ∀ rows, Keeps F (takeAccount J c rows)) (hsend : Keeps F (sendCharList E J c))
    (hu : Creates F c u) (cliver : Nat) : Keeps F (checkAccount E J c u p cliver) := fun _ =>
  keepsAt_checkAccount_take hF hc (fun _ => hnew) hsend hu cliver fun _ rows _ => htake rows _

theorem keeps_checkAccount {u p : Bytes} (hnew : Keeps F (doSQL E Query.newAccount [txt u, txt p]))
    (hi : Ids F) (hsend : Keeps F (sendCharList E J c)) (hu : Logins F c u) (cliver : Nat) :
    Keeps F (checkAccount E J c u p cliver) :=
  keeps_checkAccount_take hF hc hnew (keeps_takeAccount hF hu hi) hsend hu.toCreates cliver

/-! ### Creating and deleting characters -/

omit hF hc in
theorem keeps_createItems (hitem : ∀ vs : List Int, Keeps F (doSQL E Query.newItem (vs.map .int)))
    (charid : Int) (nodes : List Xml) : Keeps F (createItems E charid nodes) := by
  induction nodes with
  | nil => exact keeps_pure _
  | cons subp rest ih =>
    refine keeps_ite (fun _ => ?_) fun _ => ih
    split
    · next slotid itemid add1 add2 add3 val1 val2 val3 _ =>
      exact keeps_bind (hitem [charid, slotid, itemid, add1, val1, add2, val2, add3, val3])
        fun _ => ih
    · exact ih

omit hc in
theorem keeps_createChars (hitem : ∀ vs : List Int, Keeps F (doSQL E Query.newItem (vs.map .int)))
    {username charname : Bytes} {charclass destpos : Nat}
    (hchar : ∀ mobid cstr cint cdex ccon skpts stpts skmpts level : Int, Keeps F (doSQL E
      Query.newChar [txt charname, txt username, .int mobid, .int cstr, .int cint, .int cdex,
        .int ccon, .int destpos, .int charclass, .int skpts, .int stpts, .int skmpts, .int level]))
    (charid : Int) (nodes : List Xml) :
    Keeps F (createChars E J username charname charclass destpos charid nodes) := by
  induction nodes generalizing charid with
  | nil => exact keeps_pure _
  | cons p rest ih =>
    refine keeps_ite (fun _ => ?_) fun _ => ih _
    split
    · next mobid level cstr cint cdex ccon skpts stpts skmpts _ =>
      refine keeps_bind (hchar mobid cstr cint cdex ccon skpts stpts skmpts level) fun _ =>
        keeps_bind (keeps_select hF (by simp [Query.selects]) _) fun r => ?_
      rcases r with _ | _ | ⟨row, _⟩
      · exact keeps_pure _
      · exact keeps_throw_nullPtr hF
      · exact keeps_bind (keeps_colInt hF _ _) fun _ =>
          keeps_bind (keeps_createItems hitem _ _) fun _ => ih _
    · exact keeps_bind (keeps_createItems hitem _ _) fun _ => ih _

/-- The class, slot and name in a packet that creates a character are taken from it; a name
that is taken is refused. -/
theorem keepsAt_charCreate (hr : Reads F) (hresend : Keeps F (resendCharList E J c)) {s : Server}
    {P : Packet} (hload : ∀ cl root l n, s.heap c = some cl → E.startChar = some root →
      (clean (P.charName J) → ∀ r ∈ s.db.rows .characters, r .name ≠ .text (P.charName J)) →
      KeepsAt F (s.asked l n) (createChars E J cl.playerSession.username.str (P.charName J)
        (P.byteAt 32) (P.byteAt 12) J.charid root.children)) :
    KeepsAt F s (charCreate E J c P) := by
  have hu : ∀ s, F.err s .unmapped := fun s => hF.fault s _ (by decide) (by decide)
  refine keepsAt_bind (keeps_rd hr hu _ _ _ s) fun field t ht => ?_
  obtain ⟨rfl, rfl⟩ := rd_ok ht
  refine keepsAt_bind (keeps_select hF (by simp [Query.selects]) _ _) fun r t ht => ?_
  have hrows : ∀ _ : clean (P.charName J), ∀ rows, r = some rows → _ := fun hclean rows h =>
    doSQL_rows (parse_charName hclean) (h ▸ ht)
  obtain rfl := doSQL_asked (by simp [Query.selects]) ht
  rcases r with _ | rows
  · exact keeps_pure _ _
  refine keepsAt_ite (fun hnone => ?_) fun _ => keeps_sendServerMsg hF hc _ _ _
  refine keepsAt_bind (keeps_rdInt hF hr _ _ _ _) fun charclass t ht => ?_
  obtain ⟨rfl, rfl⟩ := rdInt_ok ht
  refine keepsAt_bind (keeps_rdInt hF hr _ _ _ _) fun destpos t ht => ?_
  obtain ⟨rfl, rfl⟩ := rdInt_ok ht
  refine keepsAt_bind ?_ fun _ t _ => hresend t
  refine keepsAt_bind (keeps_client hc _) fun cl t ht => ?_
  obtain ⟨hcl, rfl⟩ := client_ok ht
  cases hroot : E.startChar with
  | none => exact keeps_pure _ _
  | some root =>
    refine keepsAt_ite (fun _ => keeps_pure _ _) fun _ => hload cl root _ _ hcl hroot fun hclean => ?_
    have hfetch := hrows hclean rows rfl
    intro row hrow
    have hno := not_holds_of_fetch (hfetch ▸ hnone) row hrow
    exact fun hname => absurd ((holds_nameCond hrow).mpr hname) (by rw [hno]; decide)

/-- Exactly one account has a name and a password. -/
def OneAccount (db : Database) (u p : Bytes) : Prop :=
  ((db.rows .accounts).filter (holds (accountCond u .password p))).length = 1

/-- The character in a packet is deleted if there is one and the password is right. -/
theorem keepsAt_charDelete (hr : Reads F) (hresend : Keeps F (resendCharList E J c)) {s : Server}
    {P : Packet} (hdelete : ∀ cl l n b, s.heap c = some cl → 44 ≤ P.mem.length →
      (clean cl.playerSession.username.str → clean (P.charPass J) →
        OneAccount s.db cl.playerSession.username.str (P.charPass J)) →
      (clean (P.charName J) → ∃ r ∈ s.db.rows .characters, r .name = .text (P.charName J)) →
      KeepsAt F (s.asked l n) (doSQL E Query.deleteItems [.str b J.rowAddr] >>= fun _ =>
        doSQL E Query.deleteChar [txt (P.charName J)])) :
    KeepsAt F s (charDelete E J c P) := by
  have hun : ∀ s, F.err s .unmapped := fun s => hF.fault s _ (by decide) (by decide)
  refine keepsAt_bind (keeps_rd hr hun _ _ _ s) fun nameField t ht => ?_
  obtain ⟨rfl, rfl⟩ := rd_ok ht
  refine keepsAt_bind (keeps_rd hr hun _ _ _ _) fun passField t ht => ?_
  have hmapped := rd_mapped ht
  obtain ⟨rfl, rfl⟩ := rd_ok ht
  refine keepsAt_bind (keeps_client hc _) fun cl t ht => ?_
  obtain ⟨hcl, rfl⟩ := client_ok ht
  refine keepsAt_bind (keeps_select hF (by simp [Query.selects]) _ _) fun r t ht => ?_
  have hacc : ∀ _ : clean cl.playerSession.username.str, ∀ _ : clean (P.charPass J), ∀ rows,
      r = some rows → _ := fun hu hp rows h => doSQL_rows (parse_ownAccount hu hp) (h ▸ ht)
  obtain rfl := doSQL_asked (by simp [Query.selects]) ht
  rcases r with _ | rows
  · exact keeps_pure _ _
  refine keepsAt_ite (fun hone => ?_) fun _ => keeps_sendServerMsg hF hc _ _ _
  refine keepsAt_bind (keeps_select hF (by simp [Query.selects]) _ _) fun r t ht => ?_
  have hnamed : ∀ _ : clean (P.charName J), ∀ rows, r = some rows → _ := fun hb rows h =>
    doSQL_rows (parse_charId hb) (h ▸ ht)
  obtain rfl := doSQL_asked (by simp [Query.selects]) ht
  rcases r with _ | _ | ⟨row2, rows2⟩
  · exact keeps_pure _ _
  · exact keeps_throw_nullPtr hF _
  have hfound : clean (P.charName J) →
      ∃ r ∈ s.db.rows .characters, r .name = .text (P.charName J) := by
    intro hb
    have hfetch := hnamed hb _ rfl
    have hne : (fetch s.db [.id] .characters (nameCond (P.charName J))).length ≠ 0 := by
      have hlen := congrArg List.length hfetch
      rw [List.length_cons] at hlen
      exact fun h => Nat.succ_ne_zero _ (hlen.trans h)
    obtain ⟨row, hrow, hholds⟩ := exists_of_fetch hne
    exact ⟨row, hrow, (holds_nameCond hrow).mp hholds⟩
  have hdel := hdelete cl (s.reads ++ List.range' 16 15 ++ List.range' 32 12) (s.sqlCalls + 1 + 1)
    ((row2[0]?).join.getD []) hcl hmapped (fun hu hp => by
      have hlen := hacc hu hp rows rfl ▸ hone
      simpa [fetch, OneAccount] using hlen) hfound
  have hboth := keepsAt_bind hdel fun _ t _ => hresend t
  rw [bind_assoc] at hboth
  exact hboth

/-! ### World entry -/

theorem keeps_loaddata (hb : Body F c) (hm : Moves F c) (he : Enters F c) : Keeps F (loaddata E c) := by
  refine keeps_bind (keeps_client hc) fun _ =>
    keeps_bind (keeps_select hF (by simp [Query.selects]) _) fun r => ?_
  rcases r with _ | _ | ⟨row, _⟩
  · exact keeps_pure _
  · exact keeps_throw_nullPtr hF
  iterate 16 refine keeps_bind (keeps_colInt hF _ _) fun _ => ?_
  refine keeps_bind (keeps_modifySession (he.charid _)) fun _ => ?_
  refine keeps_bind (keeps_moveClient hm fun _ => rfl) fun _ => ?_
  refine keeps_bind (keeps_col hF _ _) fun _ =>
    keeps_bind (keeps_select hF (by simp [Query.selects]) _) fun r => ?_
  rcases r with _ | rows
  · exact keeps_pure _
  refine keeps_bind (keeps_fetchItems hF (fun s => hF.fault s _ (by decide) (by decide)) _ _ _)
    fun _ => ?_
  refine keeps_bind (keeps_modifyClient hb fun _ => ⟨rfl, rfl⟩) fun _ => ?_
  exact keeps_bind (keeps_modifySession he.loggedIn) fun _ => keeps_pure _

omit hc in
theorem keeps_selectName (hb : Body F c) (rows : List Fetched) : Keeps F (selectName c rows) := by
  induction rows with
  | nil => exact keeps_pure _
  | cons row rows ih =>
    refine keeps_bind (keeps_colName hF _ _) fun _ => ?_
    exact keeps_bind (keeps_modifyClient hb fun _ => ⟨rfl, rfl⟩) fun _ => ih

theorem keeps_sendToWorld (hr : Reads F) (hb : Body F c) (hm : Moves F c) (he : Enters F c)
    (P : Packet) :
    Keeps F (sendToWorld E J c P) := by
  refine keeps_bind (keeps_packetFree hF) fun _ => keeps_bind (keeps_client hc) fun _ =>
    keeps_bind (keeps_rdInt hF hr _ _ _) fun _ =>
      keeps_bind (keeps_select hF (by simp [Query.selects]) _) fun r => ?_
  rcases r with _ | rows
  · exact keeps_pure _
  refine keeps_bind (keeps_writes hF _) fun _ => keeps_bind (keeps_selectName hF hb _) fun _ => ?_
  refine keeps_bind (keeps_loaddata hF hc hb hm he) fun _ => keeps_bind (keeps_client hc) fun _ => ?_
  refine keeps_bind (keeps_writes hF _) fun _ => keeps_bind (keeps_sendPacket hF hc _) fun _ => ?_
  refine keeps_bind (keeps_modifySession he.inGame) fun _ => ?_
  refine keeps_bind (keeps_modifyClient hb fun _ => ⟨rfl, rfl⟩) fun _ => ?_
  refine keeps_bind (keeps_packetFree hF) fun _ => keeps_bind (keeps_writes hF _) fun _ => ?_
  exact keeps_bind (keeps_sendPacket hF hc _) fun _ => keeps_pure _

/-! ### In the world -/

theorem keeps_relay (hr : Reads F) (hv : DerefsVisible F c) (P : Packet) (copied sent : Nat) :
    Keeps F (relay c P copied sent) := by
  refine keeps_bind (keeps_packetFree hF) fun _ =>
    keeps_bind (keeps_rd hr (fun s => hF.fault s _ (by decide) (by decide)) _ _ _) fun _ => ?_
  exact keeps_bind (keeps_writes hF _) fun _ =>
    keeps_bind (keeps_sendToVisible hF hc hv _ _) fun _ => keeps_pure _

theorem keeps_objectMove (hr : Reads F) (hv : DerefsVisible F c) (hm : Moves F c) (P : Packet) :
    Keeps F (objectMove c P) := by
  unfold objectMove
  iterate 5 refine keeps_bind (keeps_rdInt hF hr _ _ _) fun _ => ?_
  refine keeps_bind (keeps_relay hF hc hr hv _ _ _) fun _ => ?_
  exact keeps_bind (keeps_moveClient hm fun _ => rfl) fun _ => keeps_pure _

theorem keeps_changeInventory (hr : Reads F) (P : Packet) : Keeps F (changeInventory c P) := by
  refine keeps_bind (keeps_packetFree hF) fun _ =>
    keeps_bind (keeps_rd hr (fun s => hF.fault s _ (by decide) (by decide)) _ _ _) fun _ => ?_
  exact keeps_bind (keeps_writes hF _) fun _ =>
    keeps_bind (keeps_sendPacket hF hc _) fun _ => keeps_pure _

theorem keeps_shopItemBuy (hr : Reads F) (hb : Body F c) (P : Packet) :
    Keeps F (shopItemBuy J c P) := by
  have hu : ∀ s, F.err s .unmapped := fun s => hF.fault s _ (by decide) (by decide)
  refine keeps_bind (keeps_client hc) fun _ => keeps_ite (fun _ => ?_) fun _ => ?_
  · exact keeps_bind (keeps_sendServerMsg hF hc _ _) fun _ => keeps_pure _
  refine keeps_bind (keeps_packetFree hF) fun _ => keeps_bind (keeps_rd hr hu _ _ _) fun _ => ?_
  refine keeps_bind (keeps_writes hF _) fun _ => keeps_bind (keeps_sendPacket hF hc _) fun _ => ?_
  refine keeps_bind (keeps_modifyClient hb fun _ => ⟨rfl, rfl⟩) fun _ => ?_
  refine keeps_bind (keeps_packetFree hF) fun _ => keeps_bind (keeps_writes hF _) fun _ => ?_
  refine keeps_bind (keeps_sendPacket hF hc _) fun _ => keeps_bind (keeps_rdInt hF hr _ _ _)
    fun _ => ?_
  refine keeps_bind (keeps_packetFree hF) fun _ => keeps_bind (keeps_rd hr hu _ _ _) fun _ => ?_
  exact keeps_bind (keeps_writes hF _) fun _ => keeps_bind (keeps_sendPacket hF hc _) fun _ =>
    keeps_pure _

theorem keeps_sendNPCSellItems (hr : Reads F) (P : Packet) : Keeps F (sendNPCSellItems c P) := by
  refine keeps_bind (keeps_rdInt hF hr _ _ _) fun _ => keeps_bind keeps_get fun _ =>
    keeps_bind (keeps_packetFree hF) fun _ => keeps_bind (keeps_writes hF _) fun _ => ?_
  split
  · exact keeps_throw_nullPtr hF
  refine keeps_bind (keeps_writes hF _) fun _ => keeps_bind (keeps_writes hF _) fun _ => ?_
  exact keeps_bind (keeps_sendPacket hF hc _) fun _ => keeps_pure _

theorem keeps_gameToCharList : Keeps F (gameToCharList c) := by
  refine keeps_bind (keeps_client hc) fun _ => keeps_bind (keeps_writes hF _) fun _ => ?_
  exact keeps_bind (keeps_sendPacket hF hc _) fun _ => keeps_pure _

/-! ### Commands -/

/-- The commands that need a level. -/
def gmNames : List Bytes := [ascii "notice", ascii "telexy", ascii "spawn", ascii "item"]

/-- The packet names one of them. -/
def Packet.namesGm (P : Packet) : Prop :=
  ∃ name ∈ gmNames, (scan P.mem 12).bind Scan.token = some name

instance (P : Packet) : Decidable P.namesGm :=
  inferInstanceAs (Decidable (∃ name ∈ gmNames, _ = some name))

omit hc in
theorem keeps_strtok (hr : Reads F) (mem : Bytes) (i : Nat) : Keeps F (strtok mem i) := by
  unfold strtok
  split
  · exact keeps_bind (keeps_modify fun s => hr s _) fun _ =>
      keeps_throw fun s => hF.fault s _ (by decide) (by decide)
  · exact keeps_bind (keeps_modify fun s => hr s _) fun _ => keeps_pure _

omit hc in
theorem keeps_strtokMany (hr : Reads F) (n : Nat) (mem : Bytes) (i : Nat) :
    Keeps F (strtokMany n mem i) := by
  induction n generalizing mem i with
  | zero => exact keeps_pure _
  | succ n ih =>
    refine keeps_bind (keeps_strtok hF hr _ _) fun ⟨token, next, mem⟩ => ?_
    cases token with
    | none => exact keeps_pure _
    | some t =>
      refine keeps_bind (ih _ _) fun r => ?_
      cases r <;> exact keeps_pure _

omit hc in
theorem keeps_arguments (hr : Reads F) (n : Nat) (mem : Bytes) : Keeps F (arguments n mem) := by
  refine keeps_bind (keeps_strtok hF hr _ _) fun ⟨token, next, mem⟩ => ?_
  cases token with
  | none => exact keeps_throw_nullPtr hF
  | some t =>
    refine keeps_bind (keeps_strtokMany hF hr _ _ _) fun r => ?_
    cases r <;> exact keeps_pure _

theorem keeps_pakGMTele (hv : DerefsVisible F c) (x y : Int) : Keeps F (pakGMTele c x y) := by
  refine keeps_bind (keeps_packetFree hF) fun _ => keeps_bind (keeps_client hc) fun _ => ?_
  refine keeps_bind (keeps_writes hF _) fun _ => ?_
  exact keeps_bind (keeps_sendToVisible hF hc hv _ _) fun _ => keeps_pure _

theorem keeps_pakGMNotice (hr : Reads F) (hl : DerefsListed F) (hg : Logs F (.gm c .notice))
    (mem : Bytes) : Keeps F (pakGMNotice J c mem) := by
  refine keeps_bind (keeps_strtok hF hr _ _) fun ⟨token, _, _⟩ => ?_
  cases token with
  | none => exact keeps_bind (keeps_sendServerMsg hF hc _ _) fun _ => keeps_pure _
  | some tmp =>
    refine keeps_bind (keeps_packetFree hF) fun _ => keeps_bind (keeps_writes hF _) fun _ => ?_
    exact keeps_bind (keeps_note hg) fun _ => keeps_bind (keeps_sendToAll hF hl _) fun _ =>
      keeps_pure _

theorem keeps_pakGMSpawn (hv : DerefsVisible F c) (hn : NpcId F) (hg : Logs F (.gm c .spawn))
    (mobcode mobid : Int) (name : Bytes) : Keeps F (pakGMSpawn J c mobcode mobid name) := by
  refine keeps_bind (keeps_packetFree hF) fun _ => keeps_bind (keeps_client hc) fun _ =>
    keeps_bind keeps_get fun _ => ?_
  refine keeps_bind (keeps_writes hF _) fun _ => keeps_bind (keeps_note hg) fun _ => ?_
  exact keeps_bind (keeps_sendToVisible hF hc hv _ _) fun _ =>
    keeps_bind (keeps_modify fun s => hn s _) fun _ => keeps_pure _

theorem keeps_pakGMItem (hv : DerefsVisible F c) (hg : Logs F (.gm c .item))
    (slotnum itemid add1 val1 add2 val2 add3 val3 : Int) :
    Keeps F (pakGMItem c slotnum itemid add1 val1 add2 val2 add3 val3) := by
  refine keeps_bind (keeps_packetFree hF) fun _ => keeps_bind (keeps_client hc) fun _ => ?_
  refine keeps_bind (keeps_writes hF _) fun _ => keeps_bind (keeps_note hg) fun _ => ?_
  exact keeps_bind (keeps_sendToVisible hF hc hv _ _) fun _ => keeps_pure _

omit hF hc in
theorem strtok_token {mem : Bytes} {i : Nat} {r : Option Bytes × Nat × Bytes} {s t : Server}
    (h : strtok mem i s = .ok r t) : ∃ sc, scan mem i = some sc ∧ sc.token = r.1 := by
  unfold strtok at h
  cases hsc : scan mem i with
  | none =>
    rw [hsc] at h
    obtain ⟨_, u, -, h⟩ := of_bind_ok h
    cases h
  | some sc =>
    rw [hsc] at h
    obtain ⟨_, u, -, h⟩ := of_bind_ok h
    cases h
    exact ⟨sc, rfl, rfl⟩

/-- A command logs an action only under a name and at a level that allow it. -/
theorem keeps_command (hr : Reads F) (hv : DerefsVisible F c) (hl : DerefsListed F)
    {accesslevel : Nat} {name : Bytes}
    (hg : name ∈ gmNames → 90 ≤ accesslevel → ∀ a ≠ .spawn, Logs F (.gm c a))
    (hspawn : name = ascii "spawn" → 90 ≤ accesslevel → ∀ mobcode mobid name,
      Keeps F (pakGMSpawn J c mobcode mobid name)) (mem : Bytes) :
    Keeps F (command J c accesslevel mem name) := by
  have hmsg := fun f a => keeps_bind (keeps_sendServerMsg (J := J) hF hc f a) fun _ =>
    keeps_pure true
  have hlow : Keeps F (pure true : M Bool) := keeps_pure _
  refine keeps_ite (fun h => keeps_ite (fun _ => hlow) fun hlvl => ?_) fun _ => ?_
  · exact keeps_pakGMNotice hF hc hr hl (hg (by simp [h, gmNames]) (by omega) _ (by decide)) _
  refine keeps_ite (fun h => keeps_ite (fun _ => hlow) fun hlvl => ?_) fun _ => ?_
  · have hlog := hg (by simp [h, gmNames]) (by omega) .telexy (by decide)
    refine keeps_bind (keeps_arguments hF hr _ _) fun r => ?_
    split
    · exact keeps_bind (keeps_note hlog) fun _ => keeps_pakGMTele hF hc hv _ _
    · exact hmsg _ _
  refine keeps_ite (fun h => keeps_ite (fun _ => hlow) fun hlvl => ?_) fun _ => ?_
  · refine keeps_bind (keeps_arguments hF hr _ _) fun r => ?_
    split
    · exact hspawn h (by omega) _ _ _
    · exact hmsg _ _
  refine keeps_ite (fun _ => hmsg _ _) fun _ => keeps_ite (fun _ => ?_) fun _ => ?_
  · exact keeps_bind (keeps_strtokMany hF hr _ _ _) fun _ => hlow
  refine keeps_ite (fun h => keeps_ite (fun _ => hlow) fun hlvl => ?_) fun _ => hlow
  have hlog := hg (by simp [h, gmNames]) (by omega) .item (by decide)
  refine keeps_bind (keeps_arguments hF hr _ _) fun r => ?_
  split
  · exact keeps_pakGMItem hF hc hv hlog _ _ _ _ _ _ _ _
  · exact hmsg _ _

theorem keepsAt_packetCommand (hr : Reads F) (hv : DerefsVisible F c) (hl : DerefsListed F)
    (hn : NpcId F) {s : Server} {P : Packet} (hg : ∀ cl, s.heap c = some cl → P.namesGm →
      90 ≤ cl.playerSession.accesslevel → ∀ a, Logs F (.gm c a)) :
    KeepsAt F s (packetCommand J c P) := by
  refine keepsAt_bind (keeps_client hc s) fun cl t ht => ?_
  obtain ⟨h, rfl⟩ := client_ok ht
  refine keepsAt_bind (keeps_strtok hF hr _ _ t) fun ⟨token, next, mem⟩ u hu => ?_
  cases token with
  | none => exact keeps_pure _ u
  | some name =>
    obtain ⟨sc, hsc, htoken⟩ := strtok_token hu
    have hgm : name ∈ gmNames → 90 ≤ cl.playerSession.accesslevel → ∀ a, Logs F (.gm c a) :=
      fun hname => hg cl h ⟨name, hname, by rw [hsc]; exact htoken⟩
    refine keeps_command hF hc hr hv hl (fun hname hlevel a _ => hgm hname hlevel a)
      (fun hname hlevel => ?_) _ u
    exact keeps_pakGMSpawn hF hc hv hn (hgm (by simp [hname, gmNames]) hlevel _)

/-! ### Visibility -/

theorem keeps_visiblityClients (hs : Spawns F c) (seen : List Ptr) {ps : List Ptr}
    (hd : ∀ p ∈ ps, Derefs F p) :
    Keeps F (visiblityClients J c seen ps) := by
  induction ps with
  | nil => exact keeps_pure _
  | cons p ps ih =>
    have hp := hd p List.mem_cons_self
    have ih := ih fun q hq => hd q (List.mem_cons_of_mem _ hq)
    have hadd : Keeps F (visiblityClients J c seen ps >>= fun new => pure (p :: new)) :=
      keeps_bind ih fun _ => keeps_pure _
    refine keeps_bind (keeps_client hc) fun _ => keeps_bind (keeps_client hp) fun _ => ?_
    refine keeps_ite (fun _ => ih) fun _ => keeps_ite (fun _ => ?_) fun _ => ?_
    · exact keeps_ite (fun _ => hadd) fun _ => keeps_bind (keeps_pure _) fun _ => ih
    · exact keeps_ite (fun _ => keeps_bind (keeps_spawnChar hF hc hp hs) fun _ => hadd)
        fun _ => ih

theorem keeps_visiblityNPCs (hs : Spawns F c) (hi : Ids F) (hn : Npcs F) (seen is : List Nat) :
    Keeps F (visiblityNPCs J c seen is) := by
  induction is with
  | nil => exact keeps_pure _
  | cons i is ih =>
    have hadd : Keeps F (visiblityNPCs J c seen is >>= fun new => pure (i :: new)) :=
      keeps_bind ih fun _ => keeps_pure _
    refine keeps_bind (keeps_client hc) fun _ => keeps_bind keeps_get fun _ => ?_
    split
    · exact keeps_throw_nullPtr hF
    refine keeps_ite (fun _ => keeps_ite (fun _ => hadd) fun _ =>
      keeps_bind (keeps_pure _) fun _ => ih) fun _ => ?_
    exact keeps_ite (fun _ => keeps_bind (keeps_spawnNPC hF hc hi hn hs i) fun _ => hadd)
      fun _ => ih

end Handlers

/-! ## Packets -/

/-- What every packet may do but for a spawn command. -/
structure Common (F : Frame Fault Server) (c : Ptr) : Prop extends Basic F where
  derefs : Derefs F c
  visible : DerefsVisible F c
  listed : DerefsListed F
  reads : Reads F
  body : Body F c

/-- What every packet may do. -/
structure Ordinary (F : Frame Fault Server) (c : Ptr) : Prop extends Common F c where
  npcId : NpcId F

/-- What a handler may do that works on the tables. -/
structure Tabular (F : Frame Fault Server) (c : Ptr) : Prop extends Common F c where
  data : Data F
  ids : Ids F
  lists : Lists F c

/-- What every packet may do that neither logs in, enters the world, nor uses a command: the
database, the ids and the character lists are free. -/
structure Open (F : Frame Fault Server) (c : Ptr) : Prop extends Ordinary F c where
  data : Data F
  ids : Ids F
  moves : Moves F c
  lists : Lists F c

/-- The same of a client that stays where it is. -/
structure Free (F : Frame Fault Server) (c : Ptr) : Prop extends Ordinary F c, Tabular F c

section Packets
variable {F : Frame Fault Server} {E : Env} {J : Junk} {c : Ptr} {s : Server}

/-- What a packet does follows from what its opcode selects. -/
theorem keepsAt_packetControl (hF : Basic F) (hr : Reads F) (P : Packet)
    (h : ∀ l, KeepsAt F { s with reads := l } (dispatch E J c P P.opcode)) :
    KeepsAt F s (packetControl E J c P) := by
  refine keepsAt_bind (keeps_rdInt hF hr P 4 2 s) fun op t ht => ?_
  obtain ⟨rfl, rfl⟩ := rdInt_ok ht
  refine keepsAt_bind (keeps_rdInt hF hr P 6 2 _) fun _ t ht => ?_
  obtain ⟨-, rfl⟩ := rdInt_ok ht
  exact h _

/-- What packets do beyond what every packet may but for a spawn command. -/
theorem keepsAt_dispatch_command (hF : Common F c) (P : Packet) (opcode : Nat)
    (hlogin : opcode = 0x020d → KeepsAt F s (checkLogin E J c P))
    (hcreate : opcode = 0x020f → KeepsAt F s (charCreate E J c P))
    (hdelete : opcode = 0x0211 → KeepsAt F s (charDelete E J c P))
    (hmove : opcode = 0x0213 ∨ opcode = 0x0366 → Moves F c)
    (hworld : opcode = 0x0213 → Enters F c)
    (hcommand : opcode = 0x0334 → KeepsAt F s (packetCommand J c P)) :
    KeepsAt F s (dispatch E J c P opcode) := by
  have hB := hF.toBasic
  have hc := hF.derefs
  have hr := hF.reads
  unfold dispatch
  split
  · exact hlogin rfl
  · exact hcreate rfl
  · exact hdelete rfl
  · exact keeps_sendToWorld hB hc hr hF.body (hmove (.inl rfl)) (hworld rfl) P s
  · exact keeps_objectMove hB hc hr hF.visible (hmove (.inr rfl)) P s
  · exact keeps_pure _ s
  · exact keeps_relay hB hc hr hF.visible P _ _ s
  · exact hcommand rfl
  · exact keeps_pakGMTele hB hc hF.visible _ _ s
  · exact keeps_changeInventory hB hc hr P s
  · exact keeps_pure _ s
  · exact keeps_sendNPCSellItems hB hc hr P s
  · exact keeps_relay hB hc hr hF.visible P _ _ s
  · exact keeps_gameToCharList hB hc s
  · exact keeps_shopItemBuy hB hc hr hF.body P s
  · exact keeps_pure _ s
  · refine keeps_ite (fun _ => keeps_bind ?_ fun _ => keeps_pure _) (fun _ => keeps_pure _) s
    exact keeps_rd hr (fun s => hB.fault s _ (by decide) (by decide)) _ _ _

/-- What packets do beyond what every packet may. -/
theorem keepsAt_dispatch (hF : Ordinary F c) (P : Packet) (opcode : Nat)
    (hlogin : opcode = 0x020d → KeepsAt F s (checkLogin E J c P))
    (hcreate : opcode = 0x020f → KeepsAt F s (charCreate E J c P))
    (hdelete : opcode = 0x0211 → KeepsAt F s (charDelete E J c P))
    (hmove : opcode = 0x0213 ∨ opcode = 0x0366 → Moves F c)
    (hworld : opcode = 0x0213 → Enters F c)
    (hgm : opcode = 0x0334 → ∀ cl, s.heap c = some cl → P.namesGm →
      90 ≤ cl.playerSession.accesslevel → ∀ a, Logs F (.gm c a)) :
    KeepsAt F s (dispatch E J c P opcode) :=
  keepsAt_dispatch_command hF.toCommon P opcode hlogin hcreate hdelete hmove hworld fun ho =>
    keepsAt_packetCommand hF.toBasic hF.derefs hF.reads hF.visible hF.listed hF.npcId (hgm ho)

section Common
variable (hF : Common F c)
include hF

theorem Common.charCreate (hd : Data F) (hl : Lists F c) (P : Packet) :
    KeepsAt F s (charCreate E J c P) := by
  have hB := hF.toBasic
  refine keepsAt_charCreate hB hF.derefs hF.reads (keeps_resendCharList hB hF.derefs hl)
    fun _ _ _ _ _ _ _ => ?_
  exact keeps_createChars hB (fun _ => keeps_doSQL hB hd _ _)
    (fun _ _ _ _ _ _ _ _ _ => keeps_doSQL hB hd _ _) _ _ _

theorem Common.charDelete (hd : Data F) (hl : Lists F c) (P : Packet) :
    KeepsAt F s (charDelete E J c P) := by
  have hB := hF.toBasic
  refine keepsAt_charDelete hB hF.derefs hF.reads (keeps_resendCharList hB hF.derefs hl)
    fun _ _ _ _ _ _ _ _ => ?_
  exact keeps_bind (keeps_doSQL hB hd _ _) (fun _ => keeps_doSQL hB hd _ _) _

end Common

section Tabular
variable (hF : Tabular F c)
include hF

theorem Tabular.checkAccount {u p : Bytes} (hu : Logins F c u) (cliver : Nat) :
    Keeps F (checkAccount E J c u p cliver) :=
  keeps_checkAccount hF.toBasic hF.derefs (keeps_doSQL hF.toBasic hF.data _ _) hF.ids
    (keeps_sendCharList hF.toBasic hF.derefs hF.lists) hu cliver

theorem Tabular.charCreate (P : Packet) : KeepsAt F s (charCreate E J c P) :=
  hF.toCommon.charCreate hF.data hF.lists P

theorem Tabular.charDelete (P : Packet) : KeepsAt F s (charDelete E J c P) :=
  hF.toCommon.charDelete hF.data hF.lists P

end Tabular

/-- Of a packet only a login, a world entry and a command need a look, where the ids are not free. -/
theorem keepsAt_dispatch_rest (hF : Ordinary F c) (hd : Data F) (hl : Lists F c) (hm : Moves F c)
    (P : Packet) (opcode : Nat) (hlogin : opcode = 0x020d → KeepsAt F s (checkLogin E J c P))
    (hworld : opcode = 0x0213 → Enters F c)
    (hgm : opcode = 0x0334 → ∀ cl, s.heap c = some cl → P.namesGm →
      90 ≤ cl.playerSession.accesslevel → ∀ a, Logs F (.gm c a)) :
    KeepsAt F s (dispatch E J c P opcode) :=
  keepsAt_dispatch hF P opcode hlogin (fun _ => hF.toCommon.charCreate hd hl P)
    (fun _ => hF.toCommon.charDelete hd hl P) (fun _ => hm) hworld hgm

section Open
variable (hF : Open F c)
include hF

theorem Open.free : Free F c := ⟨hF.toOrdinary, hF.data, hF.ids, hF.lists⟩

theorem Open.checkAccount {u p : Bytes} (hu : Logins F c u) (cliver : Nat) :
    Keeps F (checkAccount E J c u p cliver) := hF.free.checkAccount hu cliver

/-- Of a packet only a login, a world entry and a command need a look. -/
theorem Open.dispatch (P : Packet) (opcode : Nat)
    (hlogin : opcode = 0x020d → KeepsAt F s (checkLogin E J c P))
    (hworld : opcode = 0x0213 → Enters F c)
    (hgm : opcode = 0x0334 → ∀ cl, s.heap c = some cl → P.namesGm →
      90 ≤ cl.playerSession.accesslevel → ∀ a, Logs F (.gm c a)) :
    KeepsAt F s (dispatch E J c P opcode) :=
  keepsAt_dispatch_rest hF.toOrdinary hF.data hF.lists hF.moves P opcode hlogin hworld hgm

end Open

/-- The state in which a received packet is handled. -/
def Server.received (s : Server) (c : Ptr) (l : List Nat) : Server :=
  { s.update c (fun cl => { cl with recvpkts := cl.recvpkts + 1 }) with reads := l }

theorem Server.received_heap (s : Server) (c : Ptr) (l : List Nat) :
    (s.received c l).heap c =
      (s.heap c).map fun cl => { cl with recvpkts := cl.recvpkts + 1 } := if_pos rfl

/-- A step in which a packet is received. -/
theorem keepsAt_packet (hF : Common F c) (P : Packet)
    (h : c ∈ s.clientList → ∀ l, KeepsAt F (s.received c l) (dispatch E J c P P.opcode)) :
    KeepsAt F s (exec E (.packet c P J)) := by
  refine keepsAt_bind (keeps_get s) fun _ t ht => ?_
  cases ht
  split
  · next hc =>
    have hcount : Keeps F (modifyClient c fun cl => { cl with recvpkts := cl.recvpkts + 1 }) :=
      keeps_modifyClient hF.body fun _ => ⟨rfl, rfl⟩
    refine keepsAt_bind (hcount s) fun _ t ht => ?_
    cases ht
    exact keepsAt_bind (keepsAt_packetControl hF.toBasic hF.reads P (h hc)) fun _ t _ =>
      keeps_pure _ t
  · exact keeps_pure _ s

/-- A packet that is handled. -/
theorem packet_ok {P : Packet} {t : Server} (hc : c ∈ s.clientList)
    (h : exec E (.packet c P J) s = .ok () t) :
    ∃ l b, dispatch E J c P P.opcode (s.received c l) = .ok b t := by
  rw [exec, connected_apply, if_pos hc] at h
  obtain ⟨_, u, hu, h⟩ := of_bind_ok h
  cases hu
  obtain ⟨b, u, hu, h⟩ := of_bind_ok h
  cases h
  obtain ⟨op, s1, h1, h⟩ := of_bind_ok hu
  obtain ⟨rfl, rfl⟩ := rdInt_ok h1
  obtain ⟨_, s2, h2, h⟩ := of_bind_ok h
  obtain ⟨-, rfl⟩ := rdInt_ok h2
  exact ⟨_, b, h⟩

/-- A packet keeps a frame that allows all changes to its client's session, all that is logged
and, where the packet may move the client, all changes of its place. -/
theorem Free.exec_packet (hF : Free F c) (hs : ∀ f, Session F c f)
    (hlog : ∀ e : Event, e.isSpawn = false → Logs F e)
    (hkeys : ∀ s k h, F.rel s { s with keysLogin := k, hash1 := h }) (P : Packet)
    (hmove : P.opcode = 0x0213 ∨ P.opcode = 0x0366 → Moves F c) :
    KeepsAt F s (exec E (.packet c P J)) := by
  have hgrant : ∀ s b, F.rel s (s.grant c (atoi b)) := fun s b =>
    F.trans (hs (fun a => { a with accesslevel := u32 (atoi b) }) s) (hlog (.granted c (atoi b)) rfl _)
  have hlogin : Keeps F (checkLogin E J c P) := by
    refine keeps_bind (keeps_readLogin hF.toBasic hF.derefs hF.reads ?_ P)
      fun ⟨u, p, cliver⟩ => hF.checkAccount ?_ cliver
    · exact ⟨fun _ _ => hs _, hkeys, fun _ => hlog _ rfl⟩
    · exact ⟨⟨hlog _ rfl, fun _ => hs _, hgrant⟩, fun _ => hs _, hs _⟩
  exact keepsAt_packet hF.toCommon P fun _ _ => keepsAt_dispatch hF.toOrdinary P _
    (fun _ => hlogin _) (fun _ => hF.charCreate P) (fun _ => hF.charDelete P) hmove
    (fun _ => ⟨fun _ => hs _, hs _, hs _⟩) fun _ _ _ _ _ _ => hlog _ rfl

/-- A frame about the tables alone. -/
structure OfDb (F : Frame Fault Server) : Prop where
  rel : ∀ {s t : Server}, t.db = s.db → F.rel s t
  err : ∀ s e, F.err s e

theorem OfDb.ordinary (hF : OfDb F) (c : Ptr) : Ordinary F c where
  packet _ _ := hF.rel rfl
  calls _ := hF.rel rfl
  send _ _ _ _ := hF.rel rfl
  fault _ _ _ _ := hF.err _ _
  derefs _ _ := hF.err _ _
  visible _ _ _ _ _ _ := hF.err _ _
  listed _ _ _ _ := hF.err _ _
  reads _ _ := hF.rel rfl
  npcId _ _ := hF.rel rfl
  body _ _ _ := hF.rel rfl

theorem OfDb.lists (hF : OfDb F) (c : Ptr) : Lists F c :=
  ⟨fun _ => hF.rel rfl, fun _ _ => hF.rel rfl, fun _ => hF.err _ _⟩

/-- A statement whose effect is known. -/
theorem OfDb.doSQL (hF : OfDb F) {fmt : String} {args : List Arg}
    (h : ∀ r t, doSQL E fmt args s = .ok r t → F.rel s t) : KeepsAt F s (doSQL E fmt args) := by
  cases e : Destiny.doSQL E fmt args s with
  | ok r t => exact keepsAt_ok e (h r t e)
  | error x t => exact keepsAt_error e (hF.rel (by rw [(doSQL_error e).2])) (hF.err _ _)

/-- A login that creates an account only where the server is set to. -/
theorem OfDb.checkLogin_auto (hF : OfDb F)
    (hnew : E.autoacc = 1 → ∀ args s r t, Destiny.doSQL E Query.newAccount args s = .ok r t → F.rel s t)
    (P : Packet) : Keeps F (checkLogin E J c P) := by
  have hO := hF.ordinary c
  have hB := hO.toBasic
  refine keeps_bind (keeps_readLogin hB hO.derefs hO.reads ?_ P) fun ⟨u, p, cliver⟩ => ?_
  · exact ⟨fun _ _ _ => hF.rel rfl, fun _ _ _ => hF.rel rfl, fun _ _ => hF.rel rfl⟩
  have hlogin : Logins F c u :=
    ⟨⟨fun _ => hF.rel rfl, fun _ _ => hF.rel rfl, fun _ _ => hF.rel rfl⟩,
      fun _ _ => hF.rel rfl, fun _ => hF.rel rfl⟩
  exact fun s => keepsAt_checkAccount_take hB hO.derefs (fun hauto s => hF.doSQL (hnew hauto _ s))
    (keeps_sendCharList hB hO.derefs (hF.lists c)) hlogin.toCreates cliver fun _ rows _ =>
      keeps_takeAccount hB hlogin (fun _ _ _ _ _ => hF.rel rfl) rows _

theorem OfDb.checkLogin (hF : OfDb F)
    (hnew : ∀ args s r t, Destiny.doSQL E Query.newAccount args s = .ok r t → F.rel s t)
    (P : Packet) : Keeps F (checkLogin E J c P) := hF.checkLogin_auto (fun _ => hnew) P

/-- A packet keeps a frame about the tables that its changes to accounts and characters keep. -/
theorem OfDb.packet_auto (hF : OfDb F)
    (hnew : P.opcode = 0x020d → E.autoacc = 1 →
      ∀ args s r t, Destiny.doSQL E Query.newAccount args s = .ok r t → F.rel s t)
    (hcreate : c ∈ s.clientList → P.opcode = 0x020f → ∀ l,
      KeepsAt F (s.received c l) (charCreate E J c P))
    (hdelete : c ∈ s.clientList → P.opcode = 0x0211 → ∀ l,
      KeepsAt F (s.received c l) (charDelete E J c P)) :
    KeepsAt F s (exec E (.packet c P J)) :=
  keepsAt_packet (hF.ordinary c).toCommon P fun hc l => keepsAt_dispatch (hF.ordinary c) P _
    (fun ho => hF.checkLogin_auto (hnew ho) P _) (fun ho => hcreate hc ho l) (fun ho => hdelete hc ho l)
    (fun _ _ _ _ => hF.rel rfl)
    (fun _ => ⟨fun _ _ => hF.rel rfl, fun _ => hF.rel rfl, fun _ => hF.rel rfl⟩)
    fun _ _ _ _ _ _ _ => hF.rel rfl

theorem OfDb.packet (hF : OfDb F)
    (hnew : ∀ args s r t, Destiny.doSQL E Query.newAccount args s = .ok r t → F.rel s t)
    (hcreate : c ∈ s.clientList → P.opcode = 0x020f → ∀ l,
      KeepsAt F (s.received c l) (charCreate E J c P))
    (hdelete : c ∈ s.clientList → P.opcode = 0x0211 → ∀ l,
      KeepsAt F (s.received c l) (charDelete E J c P)) :
    KeepsAt F s (exec E (.packet c P J)) := hF.packet_auto (fun _ _ => hnew) hcreate hdelete

/-- A call of `VisiblityList`. -/
theorem keepsAt_visiblityList (hB : Basic F) (hp : ∀ p, Derefs F p) (hs : Spawns F c) (hi : Ids F)
    (hn : Npcs F)
    (hsee : ∀ s f, (∀ cl, (f cl).playerSession = cl.playerSession) → F.rel s (s.update c f)) :
    KeepsAt F s (exec E (.visiblityList c J)) := by
  refine keeps_bind keeps_get (fun s => ?_) s
  refine keeps_ite (fun _ => keeps_bind ?_ fun _ => keeps_pure _) fun _ => keeps_pure _
  refine keeps_bind (keeps_client (hp c)) fun _ => keeps_bind keeps_get fun _ => ?_
  refine keeps_bind (keeps_visiblityClients hB (hp c) hs _ fun p _ => hp p) fun _ => ?_
  refine keeps_bind (keeps_visiblityNPCs hB (hp c) hs hi hn _ _) fun _ => ?_
  refine keeps_bind (keeps_modify fun s => hsee s _ ?_) fun _ => keeps_pure _
  exact fun _ => rfl

end Packets

end Destiny
