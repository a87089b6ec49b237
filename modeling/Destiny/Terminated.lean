import Destiny.Framing
import Destiny.Server.Listing
import Destiny.Server.Handlers
import Destiny.Server.Session

/-!
# Strings of a packet

A name and a password of a login are copied into zeroed arrays that are longer than they are.
`CharCreate` and `CharDelete` copy theirs into local arrays of just their length, so such a
string ends inside its array only when the packet has a NUL in the field; then every statement
of these packets fits its buffer.
-/

namespace Destiny

open Text Sql Prog

/-- The strings that a packet gives to statements, with the sizes of the arrays they are in. -/
def Packet.strings (P : Packet) (J : Junk) : List (Bytes × Nat) :=
  if P.opcode = 0x020d then [(P.username.str, 17), (P.password.str, 33)]
  else if P.opcode = 0x020f then [(P.charName J, 15)]
  else if P.opcode = 0x0211 then [(P.charName J, 15), (P.charPass J, 12)]
  else []

/-- The account name that the lists of a packet are about. -/
def Server.listedName (s : Server) (c : Ptr) (P : Packet) : Bytes :=
  if P.opcode = 0x020d then P.username.str
  else ((s.session c).map (·.username.str)).getD []

/-- The ids of the characters of an account print in 16 bytes, as 32-bit integers do. -/
def ShortIds (E : Env) (u : Bytes) : Prop := ∀ n db rows,
  (E.sql.query n db (vsprintf (ascii Query.chars) [txt u])).2 = some rows →
    ∀ row ∈ rows, ∀ b, row[0]? = some (some b) → b.length ≤ 16

/-- The unset integers of a step are 32-bit integers. -/
structure Junk.Ints (J : Junk) : Prop where
  charid : -2 ^ 31 ≤ J.charid ∧ J.charid < 2 ^ 31
  rowAddr : -2 ^ 31 ≤ J.rowAddr ∧ J.rowAddr < 2 ^ 31

/-- Every string ends inside its array, and every statement fits its buffer. -/
structure Terminated (E : Env) (J : Junk) (c : Ptr) (P : Packet) (s : Server) : Prop where
  strings : ∀ b ∈ P.strings J, b.1.length < b.2
  session : ∀ cl, s.heap c = some cl → cl.playerSession.username.str.length < 17
  statements : ∀ t, dispatch E J c P P.opcode s ≠ .error .sqlBuffer t

/-- The fields of a packet about a character have a NUL. -/
def Packet.Ended (P : Packet) : Prop :=
  (P.opcode = 0x020f ∨ P.opcode = 0x0211 → 0 ∈ (P.mem.drop 16).take 15) ∧
    (P.opcode = 0x0211 → 0 ∈ (P.mem.drop 32).take 12)

/-! ## What does not overflow -/

/-- The session of a client, if it has one, is that of an account. -/
def Known (c : Ptr) (u : Bytes) (s : Server) : Prop := ∀ a, s.session c = some a → a.username.str = u

/-- No statement is too long for its buffer, and the session stays that of its account. -/
def roomy (c : Ptr) (u : Bytes) : Frame Fault Server := .safe (Known c u) (· ≠ .sqlBuffer)

variable {E : Env} {J : Junk} {c : Ptr} {P : Packet} {s t : Server} {u : Bytes}

theorem roomy_err {e : Fault} (he : e ≠ .sqlBuffer) (s : Server) : (roomy c u).err s e := fun _ => he

theorem derefs_roomy (p : Ptr) : Derefs (roomy c u) p := fun s _ => roomy_err (by decide) s

/-- A change that leaves the names of the sessions. -/
theorem roomy_modify {f : Server → Server}
    (hf : ∀ s, ((f s).session c).map (·.username) = (s.session c).map (·.username)) :
    Keeps (roomy c u) (modify f : M PUnit) := keeps_modify fun s hs a ha => by
  obtain ⟨b, hb, hname⟩ := Option.map_eq_some_iff.mp ((hf s).symm.trans (congrArg (Option.map _) ha))
  exact (congrArg Field.str hname).symm.trans (hs b hb)

theorem roomy_note (e : Event) : Keeps (roomy c u) (note e) := roomy_modify fun _ => rfl

theorem roomy_modifySession {f : CAccount → CAccount} (hf : ∀ a, (f a).username = a.username) :
    Keeps (roomy c u) (modifySession c f) := roomy_modify fun s => by
  show ((s.setSession c f).session c).map _ = _
  rw [session_setSession, if_pos rfl, Option.map_map]
  exact congrArg (Option.map · _) (funext hf)

theorem roomy_col (row : Fetched) (i : Nat) : Keeps (roomy c u) (col row i) := by
  unfold col
  split
  · exact keeps_pure _
  · exact keeps_throw (roomy_err (by decide))

theorem roomy_colInt (row : Fetched) (i : Nat) : Keeps (roomy c u) (colInt row i) :=
  keeps_bind (roomy_col row i) fun _ => keeps_pure _

theorem roomy_colName (row : Fetched) (i : Nat) : Keeps (roomy c u) (colName row i) :=
  keeps_bind (roomy_col row i) fun _ =>
    keeps_bind (keeps_check (roomy_err (by decide))) fun _ => keeps_pure _

theorem roomy_fetchItems {e : Fault} (he : e ≠ .sqlBuffer) (n : Nat) (rows : List Fetched)
    (items : Nat → CItem) : Keeps (roomy c u) (fetchItems n e rows items) := by
  induction rows generalizing items with
  | nil => exact keeps_pure _
  | cons row rows ih =>
    refine keeps_bind (roomy_colInt _ _) fun _ => keeps_bind (keeps_check (roomy_err he)) fun _ =>
      keeps_bind ?_ fun _ => ih _
    unfold colItem
    iterate 7 refine keeps_bind (roomy_colInt _ _) fun _ => ?_
    exact keeps_pure _

theorem roomy_writes (ws : List Write) : Keeps (roomy c u) (writes ws) := by
  induction ws with
  | nil => exact keeps_pure _
  | cons w ws ih =>
    exact keeps_bind (keeps_check (roomy_err (by decide))) fun _ =>
      keeps_bind (roomy_modify fun _ => rfl) fun _ => ih

theorem roomy_sendPacket (n : Nat) : Keeps (roomy c u) (sendPacket c n) :=
  keeps_bind (keeps_client (derefs_roomy c)) fun _ => roomy_modify fun _ => rfl

theorem roomy_sendServerMsg (format : Bytes) (args : List Arg) :
    Keeps (roomy c u) (sendServerMsg J c format args) :=
  keeps_bind (keeps_check (roomy_err (by decide))) fun _ => keeps_bind (roomy_modify fun _ => rfl)
    fun _ => keeps_bind (roomy_writes _) fun _ => keeps_bind (roomy_sendPacket _) fun _ => keeps_pure _

theorem roomy_rd (off n : Nat) : Keeps (roomy c u) (rd P off n) :=
  keeps_bind (roomy_modify fun _ => rfl) fun _ =>
    keeps_bind (keeps_check (roomy_err (by decide))) fun _ => keeps_pure _

theorem roomy_rdInt (off n : Nat) : Keeps (roomy c u) (rdInt P off n) :=
  keeps_bind (roomy_rd off n) fun _ => keeps_pure _

/-- A statement that fits. -/
theorem roomy_query {fmt : String} {args : List Arg}
    (h : (vsprintf (ascii fmt) args).length < 2000) : Keeps (roomy c u) (doSQL E fmt args) := fun _ =>
  keepsAt_ok (doSQL_apply h) fun hs => hs

/-- A statement with short texts. -/
theorem roomy_doSQL {fmt : String} {args : List Arg}
    (hfmt : (items (ascii fmt)).length + 16 * holes (items (ascii fmt)) < 2000)
    (h : ∀ a ∈ args, Short a) : Keeps (roomy c u) (doSQL E fmt args) := roomy_query (fits hfmt h)

/-! ## Character lists -/

theorem roomy_fetchChars {rows : List Fetched}
    (hrows : ∀ row ∈ rows, ∀ b, row[0]? = some (some b) → b.length ≤ 16) (chars : List CCharacter) :
    Keeps (roomy c u) (fetchChars E J rows chars) := by
  induction rows generalizing chars with
  | nil => exact keeps_pure _
  | cons row rows ih =>
    obtain ⟨hrow, hrows⟩ := List.forall_mem_cons.mp hrows
    unfold fetchChars
    refine keeps_bind (keeps_check (roomy_err (by decide))) fun _ =>
      keeps_bind (roomy_colName _ _) fun _ => ?_
    iterate 8 refine keeps_bind (roomy_colInt _ _) fun _ => ?_
    intro s
    refine keepsAt_bind (roomy_col _ _ s) fun owner t ht => ?_
    have howner : owner.length ≤ 16 := by
      obtain ⟨-, d, hd, rfl⟩ := col_ok ht
      exact (cstr_length_le d).trans (hrow d hd)
    refine (keeps_bind (roomy_doSQL (by decide +kernel) (by simp [short_txt howner])) fun r => ?_) t
    cases r with
    | none => exact keeps_pure _
    | some rows2 => exact keeps_bind (roomy_fetchItems (by decide) _ _ _) fun _ => ih hrows _

theorem colName_length {row : Fetched} {i : Nat} {b : Bytes} (h : colName row i s = .ok b t) :
    b.length < 30 := by
  obtain ⟨b', u, -, h⟩ := of_bind_ok h
  obtain ⟨_, v, hv, h⟩ := of_bind_ok h
  unfold check at hv
  split at hv <;> cases hv
  cases h
  assumption

/-- The names that are read fit their fields. -/
theorem fetchChars_short {rows : List Fetched} {chars chars' : List CCharacter}
    (hchars : ∀ ch ∈ chars, ch.charName.length < 30)
    (h : fetchChars E J rows chars s = .ok (some chars') t) : ∀ ch ∈ chars', ch.charName.length < 30 := by
  induction rows generalizing chars s with
  | nil =>
    cases h
    exact hchars
  | cons row rows ih =>
    rw [fetchChars] at h
    obtain ⟨_, s1, -, h⟩ := of_bind_ok h
    obtain ⟨charName, s2, hname, h⟩ := of_bind_ok h
    iterate 9 obtain ⟨_, _, -, h⟩ := of_bind_ok h
    obtain ⟨r, s3, -, h⟩ := of_bind_ok h
    rcases r with _ | rows2
    · cases h
    obtain ⟨eqitems, s4, -, h⟩ := of_bind_ok h
    refine ih (List.forall_mem_append.mpr ⟨hchars, List.forall_mem_cons.mpr ⟨?_, List.forall_mem_nil _⟩⟩) h
    exact colName_length hname

theorem roomy_lastPosid (rows : List Fetched) (charpos : Int) : Keeps (roomy c u) (lastPosid rows charpos) := by
  induction rows generalizing charpos with
  | nil => exact keeps_pure _
  | cons row rows ih => exact keeps_bind (roomy_colInt _ _) fun _ => ih _

/-- A name that fits its field fits its query. -/
theorem roomy_writeChars {chars : List CCharacter} (hchars : ∀ ch ∈ chars, ch.charName.length < 30)
    (k : Nat) : Keeps (roomy c u) (writeChars E J c k chars) := by
  induction chars generalizing k with
  | nil => exact keeps_pure _
  | cons ch chars ih =>
    obtain ⟨hch, hchars⟩ := List.forall_mem_cons.mp hchars
    have hquery : Keeps (roomy c u) (doSQL E Query.posid [txt ch.charName]) := by
      have hprint : ∀ a ∈ [txt ch.charName], ∀ k, (a.print k).length ≤ 30 := by
        simp only [List.forall_mem_cons, List.not_mem_nil, false_imp_iff, implies_true, and_true]
        intro k
        cases k with
        | s => exact hch.le
        | i | u => exact (short_int (n := 0) (by omega) .i).trans (by decide)
      refine roomy_query ((length_vsprintf_le hprint).trans_lt ?_)
      decide +kernel
    refine keeps_bind hquery fun r => ?_
    cases r with
    | none => exact keeps_pure _
    | some rows =>
      exact keeps_bind (roomy_lastPosid _ _) fun _ => keeps_bind (roomy_note _) fun _ =>
        keeps_bind (roomy_writes _) fun _ => ih hchars _

/-- The rows of an account's characters are read and written. -/
theorem roomy_readChars {α : Type} {rows : List Fetched}
    (hrows : ∀ row ∈ rows, ∀ b, row[0]? = some (some b) → b.length ≤ 16)
    {f : Option (List CCharacter) → M α} (hnone : Keeps (roomy c u) (f none))
    (hsome : ∀ chars, (∀ ch ∈ chars, ch.charName.length < 30) → Keeps (roomy c u) (f (some chars))) :
    Keeps (roomy c u) (fetchChars E J rows [] >>= f) := fun s => by
  refine keepsAt_bind (roomy_fetchChars hrows [] s) fun r t ht => ?_
  cases r with
  | none => exact hnone t
  | some chars => exact hsome chars (fetchChars_short (by simp) ht) t

/-- The characters of the account are asked for. -/
theorem roomy_selectChars (hu : u.length ≤ 16) {α : Type} (hids : ShortIds E u)
    {f : Option (List Fetched) → M α} (hnone : Keeps (roomy c u) (f none))
    (hsome : ∀ rows, (∀ row ∈ rows, ∀ b, row[0]? = some (some b) → b.length ≤ 16) →
      Keeps (roomy c u) (f (some rows))) : Keeps (roomy c u) (selectChars E c >>= f) := fun s => by
  refine keepsAt_safe fun hs => ?_
  cases hc : s.heap c with
  | none => exact keepsAt_error (bind_error (bind_error (client_of_none hc))) id fun _ => by decide
  | some cl =>
    have hname : cl.playerSession.username.str = u := hs _ (by rw [Server.session, hc]; rfl)
    have hquery : selectChars E c s = doSQL E Query.chars [txt u] s := by
      rw [← hname]
      exact bind_ok (client_of_some hc)
    have hfits : KeepsAt (roomy c u) s (selectChars E c) := by
      have hasked : Keeps (roomy c u) (doSQL E Query.chars [txt u]) :=
        roomy_doSQL (by decide +kernel) (by simp [short_txt hu])
      exact ⟨hquery ▸ (hasked s).rel, fun he => (hasked s).err (hquery ▸ he)⟩
    refine keepsAt_bind hfits fun r t ht => ?_
    rw [hquery] at ht
    obtain ⟨hr, -⟩ := doSQL_ok ht
    cases r with
    | none => exact hnone t
    | some rows => exact hsome rows (hids _ _ _ hr.symm) t

theorem roomy_resendCharList (hu : u.length ≤ 16) (hids : ShortIds E u) :
    Keeps (roomy c u) (resendCharList E J c) := by
  refine keeps_bind (roomy_modify fun _ => rfl) fun _ => keeps_bind (roomy_writes _) fun _ =>
    keeps_bind (roomy_note _) fun _ => ?_
  refine roomy_selectChars hu hids (keeps_pure _) fun rows hrows => ?_
  refine roomy_readChars hrows (keeps_pure _) fun chars hchars => ?_
  refine keeps_bind (roomy_writeChars hchars 0) fun b => ?_
  cases b with
  | false => exact keeps_pure _
  | true => exact keeps_bind (roomy_sendPacket _) fun _ => keeps_pure _

theorem roomy_sendCharList (hu : u.length ≤ 16) (hids : ShortIds E u) :
    Keeps (roomy c u) (sendCharList E J c) := by
  refine keeps_bind (roomy_modify fun _ => rfl) fun _ => keeps_bind (keeps_client (derefs_roomy c))
    fun thisclient => keeps_bind (roomy_writes _) fun _ => keeps_bind (roomy_note _) fun _ => ?_
  refine roomy_selectChars hu hids (keeps_pure _) fun rows hrows => ?_
  refine roomy_readChars hrows (keeps_pure _) fun chars hchars => ?_
  refine keeps_bind (roomy_doSQL (by decide +kernel) (by simp [short_txt (username_length _)])) fun r => ?_
  cases r with
  | none => exact keeps_pure _
  | some rows =>
    refine keeps_bind (roomy_fetchItems (by decide) _ _ _) fun _ =>
      keeps_bind (roomy_writeChars hchars 0) fun b => ?_
    cases b with
    | false => exact keeps_pure _
    | true =>
      exact keeps_bind (roomy_writes _) fun _ => keeps_bind (roomy_writes _) fun _ =>
        keeps_bind (roomy_sendPacket _) fun _ => keeps_pure _

/-! ## Logins -/

theorem roomy_grant (lvl : Int) : Keeps (roomy c u) (modify fun s => s.grant c lvl : M PUnit) :=
  roomy_modify fun s => by
    show ((s.setSession c fun a => { a with accesslevel := u32 lvl }).session c).map _ = _
    rw [session_setSession, if_pos rfl, Option.map_map]
    rfl

theorem roomy_takeNewAccount (rows : List Fetched) : Keeps (roomy c u) (takeNewAccount c rows) := by
  induction rows with
  | nil => exact keeps_pure _
  | cons row rows ih =>
    exact keeps_bind (roomy_colInt _ _) fun _ => keeps_bind (roomy_modifySession fun _ => rfl) fun _ =>
      keeps_bind (roomy_colInt _ _) fun _ => keeps_bind (roomy_grant _) fun _ => ih

theorem roomy_takeAccount (rows : List Fetched) : Keeps (roomy c u) (takeAccount J c rows) := by
  have hfree : Ids (roomy c u) := fun s now i j _ hs => hs
  induction rows with
  | nil => exact keeps_pure _
  | cons row rows ih =>
    refine keeps_bind (roomy_colInt _ _) fun _ => keeps_bind (roomy_modifySession fun _ => rfl) fun _ =>
      keeps_bind (keeps_getNewID hfree _) fun _ =>
        keeps_bind (roomy_modifySession fun _ => rfl) fun _ =>
          keeps_ite (fun _ => keeps_pure _) fun _ => ?_
    exact keeps_bind (roomy_modifySession fun _ => rfl) fun _ => keeps_bind (roomy_colInt _ _) fun _ =>
      keeps_bind (roomy_grant _) fun _ => ih

theorem roomy_checkAccount (hu : u.length ≤ 16) (hids : ShortIds E u) {p : Bytes} (hp : p.length ≤ 16)
    (cliver : Nat) : Keeps (roomy c u) (checkAccount E J c u p cliver) := by
  have hmsg := fun f a => roomy_sendServerMsg (J := J) (c := c) (u := u) f a
  have hlist : Keeps (roomy c u) (sendCharList E J c) := roomy_sendCharList hu hids
  have hone : ∀ a ∈ [txt u], Short a := by simp [short_txt hu]
  have htwo : ∀ a ∈ [txt u, txt p], Short a := by simp [short_txt hu, short_txt hp]
  refine keeps_ite (fun _ => ?_) fun _ => keeps_bind (hmsg _ _) fun _ => keeps_pure _
  refine keeps_bind (roomy_doSQL (by decide +kernel) hone) fun r => ?_
  rcases r with _ | rows
  · exact keeps_pure _
  refine keeps_ite (fun _ => keeps_ite (fun _ => ?_) fun _ => hmsg _ _) fun _ => ?_
  · -- the account is created
    refine keeps_bind (roomy_doSQL (by decide +kernel) htwo) fun r => ?_
    rcases r with _ | _
    · exact keeps_pure _
    refine keeps_bind (roomy_note _) fun _ => keeps_bind (roomy_doSQL (by decide +kernel) hone) fun r => ?_
    rcases r with _ | rows
    · exact keeps_pure _
    exact keeps_bind (roomy_takeNewAccount _) fun _ => hlist
  refine keeps_bind (roomy_doSQL (by decide +kernel) htwo) fun r => ?_
  rcases r with _ | rows
  · exact keeps_pure _
  refine keeps_ite (fun _ => hmsg _ _) fun _ => keeps_bind (roomy_doSQL (by decide +kernel) hone) fun r => ?_
  rcases r with _ | rows
  · exact keeps_pure _
  refine keeps_ite (fun _ => hmsg _ _) fun _ => keeps_bind (roomy_doSQL (by decide +kernel) hone) fun r => ?_
  rcases r with _ | rows
  · exact keeps_pure _
  refine keeps_ite (fun _ => hmsg _ _) fun _ => keeps_bind (roomy_note _) fun _ =>
    keeps_bind (roomy_doSQL (by decide +kernel) hone) fun r => ?_
  rcases r with _ | rows
  · exact keeps_pure _
  refine keeps_bind (roomy_takeAccount _) fun b => ?_
  cases b with
  | false => exact keeps_pure _
  | true => exact hlist

/-- The checks of a login are about the account that the packet names. -/
theorem checkLogin_fits (hids : ShortIds E P.username.str) (t : Server) :
    checkLogin E J c P s ≠ .error .sqlBuffer t := fun h => by
  rcases of_bind_error h with h | ⟨r, s1, h1, h⟩
  · rcases (readLogin_error h).2 with h | ⟨h, -⟩ <;> cases h
  obtain ⟨rfl, hnamed⟩ := readLogin_ok h1
  have hknown : Known c P.username.str s1 := fun a ha => by
    rw [hnamed.session, session_setSession, if_pos rfl] at ha
    obtain ⟨b, -, rfl⟩ := Option.map_eq_some_iff.mp ha
    rfl
  exact (roomy_checkAccount (J := J) (username_length _) hids (username_length _) P.cliver s1).err h
    hknown rfl

/-! ## Characters -/

theorem atoi_range (b : Bytes) : -2 ^ 31 ≤ atoi b ∧ atoi b < 2 ^ 31 := by
  unfold atoi clamp32
  omega

theorem readXMLInteger_range {node : Xml} {tag : String} {v : Int} (h : readXMLInteger node tag = some v) :
    -2 ^ 31 ≤ v ∧ v < 2 ^ 31 := by
  obtain ⟨p, -, rfl⟩ := Option.map_eq_some_iff.mp h
  exact atoi_range _

theorem readXMLIntegers_range {node : Xml} {tags : List String} {vs : List Int}
    (h : readXMLIntegers node tags = some vs) : ∀ v ∈ vs, -2 ^ 31 ≤ v ∧ v < 2 ^ 31 := by
  induction tags generalizing vs with
  | nil =>
    cases h
    nofun
  | cons tag tags ih =>
    unfold readXMLIntegers at h
    split at h
    · next v vs hv hvs =>
      cases h
      exact List.forall_mem_cons.mpr ⟨readXMLInteger_range hv, ih hvs⟩
    · cases h

theorem readXMLIntegers_short {node : Xml} {tags : List String} {vs : List Int}
    (h : readXMLIntegers node tags = some vs) : ∀ v ∈ vs, Short (.int v) := fun v hv =>
  short_int (readXMLIntegers_range h v hv)

theorem roomy_createItems {charid : Int} (hid : Short (.int charid)) (nodes : List Xml) :
    Keeps (roomy c u) (createItems E charid nodes) := by
  induction nodes with
  | nil => exact keeps_pure _
  | cons subp rest ih =>
    refine keeps_ite (fun _ => ?_) fun _ => ih
    split
    · next hattrs =>
      have hall := readXMLIntegers_short hattrs
      simp only [List.forall_mem_cons, List.not_mem_nil, false_imp_iff, implies_true, and_true] at hall
      refine keeps_bind (roomy_doSQL (by decide +kernel) ?_) fun _ => ih
      simp only [List.forall_mem_cons, List.not_mem_nil, false_imp_iff, implies_true, and_true]
      tauto
    · exact ih

theorem roomy_createChars {username charname : Bytes} (huser : username.length ≤ 16)
    (hname : charname.length ≤ 16) {charclass destpos : Nat} (hclass : charclass < 2 ^ 31)
    (hpos : destpos < 2 ^ 31) {charid : Int} (hid : Short (.int charid)) (nodes : List Xml) :
    Keeps (roomy c u) (createChars E J username charname charclass destpos charid nodes) := by
  have hclass' : Short (.int charclass) := short_int (by omega)
  have hpos' : Short (.int destpos) := short_int (by omega)
  induction nodes generalizing charid with
  | nil => exact keeps_pure _
  | cons p rest ih =>
    refine keeps_ite (fun _ => ?_) fun _ => ih hid
    split
    · next hattrs =>
      have hall := readXMLIntegers_short hattrs
      simp only [List.forall_mem_cons, List.not_mem_nil, false_imp_iff, implies_true, and_true] at hall
      refine keeps_bind (roomy_doSQL (by decide +kernel) ?_) fun _ =>
        keeps_bind (roomy_doSQL (by decide +kernel) (by simp [short_txt hname])) fun r => ?_
      · simp only [List.forall_mem_cons, List.not_mem_nil, false_imp_iff, implies_true, and_true]
        have := short_txt huser
        have := short_txt hname
        tauto
      rcases r with _ | _ | ⟨row, _⟩
      · exact keeps_pure _
      · exact keeps_throw (roomy_err (by decide))
      · intro s
        refine keepsAt_bind (roomy_colInt _ _ s) fun id t ht => ?_
        obtain ⟨-, d, -, rfl⟩ := colInt_ok ht
        have hrow := short_int (atoi_range (cstr d))
        exact keeps_bind (roomy_createItems hrow _) (fun _ => ih hrow) t
    · exact keeps_bind (roomy_createItems hid _) fun _ => ih hid

theorem roomy_loadCreateChar {charname : Bytes} (hname : charname.length ≤ 16)
    {charclass destpos : Nat} (hclass : charclass < 2 ^ 31) (hpos : destpos < 2 ^ 31)
    (hid : Short (.int J.charid)) : Keeps (roomy c u) (loadCreateChar E J c charclass charname destpos) := by
  refine keeps_bind (keeps_client (derefs_roomy c)) fun thisclient => ?_
  split
  · exact keeps_pure _
  · exact keeps_ite (fun _ => keeps_pure _) fun _ =>
      roomy_createChars (username_length _) hname hclass hpos hid _

theorem byteAt_lt (P : Packet) (i : Nat) : P.byteAt i < 2 ^ 31 := by
  rw [Packet.byteAt]
  cases h : P.mem.drop i with
  | nil => decide
  | cons b r =>
    show b.toNat + 256 * 0 < 2 ^ 31
    have := b.toNat_lt
    omega

theorem roomy_charCreate (hu : u.length ≤ 16) (hids : ShortIds E u) (hname : (P.charName J).length ≤ 16)
    (hid : Short (.int J.charid)) : Keeps (roomy c u) (charCreate E J c P) := fun s => by
  refine keepsAt_bind (roomy_rd _ _ s) fun field t ht => ?_
  obtain ⟨rfl, rfl⟩ := rd_ok ht
  refine (keeps_bind (roomy_doSQL (by decide +kernel) ?_) fun r => ?_) _
  · simp only [List.forall_mem_cons, List.not_mem_nil, false_imp_iff, implies_true, and_true]
    exact short_txt hname
  rcases r with _ | rows
  · exact keeps_pure _
  refine keeps_ite (fun _ => ?_) fun _ => roomy_sendServerMsg _ _
  intro s
  refine keepsAt_bind (roomy_rdInt _ _ s) fun charclass t ht => ?_
  obtain ⟨rfl, -⟩ := rdInt_ok ht
  refine keepsAt_bind (roomy_rdInt _ _ t) fun destpos t' ht' => ?_
  obtain ⟨rfl, -⟩ := rdInt_ok ht'
  exact keeps_bind (roomy_loadCreateChar hname (byteAt_lt P 32) (byteAt_lt P 12) hid)
    (fun _ => roomy_resendCharList hu hids) t'

theorem roomy_charDelete (hu : u.length ≤ 16) (hids : ShortIds E u) (hname : (P.charName J).length ≤ 16)
    (hpass : (P.charPass J).length ≤ 16) (hrow : Short (.int J.rowAddr)) :
    Keeps (roomy c u) (charDelete E J c P) := fun s => by
  refine keepsAt_bind (roomy_rd _ _ s) fun nameField t ht => ?_
  obtain ⟨rfl, rfl⟩ := rd_ok ht
  refine keepsAt_bind (roomy_rd _ _ _) fun passField t ht => ?_
  obtain ⟨rfl, rfl⟩ := rd_ok ht
  refine (keeps_bind (keeps_client (derefs_roomy c)) fun thisclient =>
    keeps_bind (roomy_doSQL (by decide +kernel) ?_) fun r => ?_) _
  · simp only [List.forall_mem_cons, List.not_mem_nil, false_imp_iff, implies_true, and_true]
    exact ⟨short_txt (username_length _), short_txt hpass⟩
  rcases r with _ | rows
  · exact keeps_pure _
  refine keeps_ite (fun _ => ?_) fun _ => roomy_sendServerMsg _ _
  have hone : ∀ a ∈ [txt (P.charName J)], Short a := by
    simp only [List.forall_mem_cons, List.not_mem_nil, false_imp_iff, implies_true, and_true]
    exact short_txt hname
  refine keeps_bind (roomy_doSQL (by decide +kernel) hone) fun r => ?_
  rcases r with _ | _ | ⟨row2, _⟩
  · exact keeps_pure _
  · exact keeps_throw (roomy_err (by decide))
  refine keeps_bind (roomy_query ?_) fun _ => keeps_bind (roomy_doSQL (by decide +kernel) hone)
    fun _ => roomy_resendCharList hu hids
  rw [print_deleteItems]
  exact fits (by decide +kernel) (by simpa using hrow)

/-! ## The packets -/

/-- A string ends inside an array that its field fills exactly when the field has a NUL. -/
theorem ends_iff {field after : Bytes} {n : Nat} (hlen : field.length = n) :
    (cstr (field ++ after)).length < n ↔ 0 ∈ field := by
  subst hlen
  constructor
  · intro hlt
    by_contra hno
    have hpass : ∀ b ∈ field, (b != 0) = true := fun b hb => by
      simpa using ne_of_mem_of_not_mem hb hno
    rw [cstr, List.takeWhile_append_of_pos hpass, List.length_append] at hlt
    omega
  · intro hmem
    rw [cstr_append_of_mem hmem]
    exact cstr_length_lt hmem

/-- The strings of a packet end inside their arrays, and its statements fit their buffer, exactly
when its fields about a character have a NUL. -/
theorem terminated_iff (hop : P.opcode = 0x020d ∨ P.opcode = 0x020f ∨ P.opcode = 0x0211)
    (hmapped : 44 ≤ P.mem.length) (hJ : J.Ints) (hids : ShortIds E (s.listedName c P)) :
    Terminated E J c P s ↔ P.Ended := by
  have hname : (P.charName J).length < 15 ↔ 0 ∈ (P.mem.drop 16).take 15 := ends_iff (by simp; omega)
  have hpass : (P.charPass J).length < 12 ↔ 0 ∈ (P.mem.drop 32).take 12 := ends_iff (by simp; omega)
  have hfield : ∀ f : Field 12, f.str.length < 17 := fun f =>
    Nat.lt_succ_of_le (username_length f)
  constructor
  · rintro ⟨hstrings, -, -⟩
    unfold Packet.strings at hstrings
    refine ⟨fun ho => ?_, fun ho => ?_⟩
    · rcases ho with ho | ho <;> rw [ho] at hstrings
      · exact hname.mp (hstrings _ (List.mem_singleton.mpr rfl))
      · exact hname.mp (hstrings (P.charName J, 15) (by simp))
    · rw [ho] at hstrings
      exact hpass.mp (hstrings (P.charPass J, 12) (by simp))
  · rintro ⟨hcreate, hdelete⟩
    unfold Server.listedName at hids
    refine ⟨?_, fun cl _ => hfield _, fun t h => ?_⟩
    · unfold Packet.strings
      rcases hop with ho | ho | ho <;> rw [ho]
      · simpa using ⟨hfield P.username, (hfield P.password).trans (by decide)⟩
      · simpa using hname.mpr (hcreate (.inl ho))
      · simpa using ⟨hname.mpr (hcreate (.inr ho)), hpass.mpr (hdelete ho)⟩
    -- the lists that follow are about the account of the session
    have hknown : Known c (((s.session c).map (·.username.str)).getD []) s := fun a ha => by
      rw [ha]
      rfl
    have hshort : (((s.session c).map (·.username.str)).getD []).length ≤ 16 := by
      cases s.session c with
      | none => decide
      | some a => exact username_length _
    rcases hop with ho | ho | ho <;> rw [ho] at h hids
    · exact checkLogin_fits hids t h
    · exact (roomy_charCreate hshort hids ((hname.mpr (hcreate (.inl ho))).le.trans (by decide))
        (short_int hJ.charid) s).err h hknown rfl
    · exact (roomy_charDelete hshort hids ((hname.mpr (hcreate (.inr ho))).le.trans (by decide))
        ((hpass.mpr (hdelete ho)).le.trans (by decide)) (short_int hJ.rowAddr) s).err h hknown rfl

/-- The reference database, whose first columns print in 16 bytes. -/
def Env.narrow : Env :=
  { Env.plain with
    sql := (Engine.reference schema).within fun rows => rows.all fun row =>
      ((row[0]?).join.getD []).length ≤ 16 }

theorem shortIds_narrow (u : Bytes) : ShortIds Env.narrow u := fun n db rows h row hrow b hb => by
  have hall := List.all_eq_true.mp (Engine.within_rows h) row hrow
  rw [hb] at hall
  exact of_decide_eq_true hall

/-- A packet that creates a character. -/
def nameFrame (name : Bytes) : Packet :=
  frame 0x020f ([0, 0, 0, 0] ++ name ++ List.replicate (32 - name.length) 0)

theorem terminated_iff_named :
    Terminated Env.narrow { afterName := ascii "left over" } 0 (nameFrame (ascii "hero")) oneClient :=
  (terminated_iff (by decide) (by decide) ⟨by decide, by decide⟩ (shortIds_narrow _)).mpr
    ⟨fun _ => by decide, fun h => absurd h (by decide)⟩

/-- A name of fifteen letters goes on in the stack, and a statement with it can overflow. -/
theorem fullName_unterminated :
    let P := nameFrame (List.replicate 15 65)
    let J : Junk := { afterName := List.replicate 2000 66 }
    P.strings J = [(List.replicate 15 65 ++ List.replicate 2000 66, 15)] ∧
      thrown (dispatch Env.narrow J 0 P P.opcode oneClient) = some .sqlBuffer ∧
      ¬ Terminated Env.narrow J 0 P oneClient := by
  refine ⟨by decide +kernel, by decide +kernel, fun h => ?_⟩
  have hended := (terminated_iff (by decide) (by decide) ⟨by decide, by decide⟩
    (shortIds_narrow _)).mp h
  exact absurd (hended.1 (.inl (by decide))) (by decide)

/-- A name that ends inside the packet ends there in the array. -/
example : (nameFrame (ascii "hero")).strings { afterName := ascii "left over" } =
    [(ascii "hero", 15)] := by decide +kernel

end Destiny
