import Destiny.Server.Listing
import Destiny.Server.Session
import Mathlib.Data.List.Nodup

/-!
# Slots of characters

A character's slot and class come from two bytes of the packet that creates it, and nothing
checks them, nor whether the account has a character in the slot. The character lists rely
on slots being few and different: they read the rows into six places, and write each at
offsets computed from its slot. The lists are well formed as long as characters are only
created in free slots, of a known class, under clean names that fit their column.
-/

namespace Destiny

open Text Sql Prog

/-! ## What the tables and the lists should look like -/

/-- A number from 0 to 3. -/
def IsSlot (c : Cell) : Prop := ∃ n, c = .int n ∧ 0 ≤ n ∧ n ≤ 3

instance : (c : Cell) → Decidable (IsSlot c)
  | .int n => decidable_of_iff (0 ≤ n ∧ n ≤ 3) ⟨fun h => ⟨n, rfl, h⟩, fun ⟨_, e, h⟩ => by cases e; exact h⟩
  | .null => .isFalse fun ⟨_, e, _⟩ => nomatch e
  | .text _ => .isFalse fun ⟨_, e, _⟩ => nomatch e

/-- Every account has at most four characters, in different slots and of known classes. -/
structure Rosters (db : Database) : Prop where
  few : ∀ r ∈ db.rows .characters,
    ((db.rows .characters).filter fun r' => r' .uid = r .uid).length ≤ 4
  slots : ∀ r ∈ db.rows .characters, IsSlot (r .posid)
  classes : ∀ r ∈ db.rows .characters, IsSlot (r .classid)
  apart : (db.rows .characters).Pairwise fun r r' => r .uid = r' .uid → r .posid ≠ r' .posid

instance (db : Database) : Decidable (Rosters db) :=
  decidable_of_iff (_ ∧ _ ∧ _ ∧ _)
    ⟨fun h => ⟨h.1, h.2.1, h.2.2.1, h.2.2.2⟩, fun h => ⟨h.few, h.slots, h.classes, h.apart⟩⟩

/-- The packet index `i` is in a store. -/
def Write.covers (w : Write) (i : Int) : Prop := w.off ≤ i ∧ i < w.off + w.bytes.length

/-- The fields of characters in two slots do not overlap. -/
def SlotsApart (n m : Int) : Prop :=
  ∀ J ch ch', ch.charName.length ≤ 16 → ch'.charName.length ≤ 16 →
    ∀ w ∈ charFields J ch n, ∀ w' ∈ charFields J ch' m, ∀ i, ¬ (w.covers i ∧ w'.covers i)

/-- The slots written since the last list of a client was begun. -/
def openSlots (c : Ptr) : List Event → List Int
  | [] => []
  | .listing p :: tr => if p = c then [] else openSlots c tr
  | .slot p n :: tr => if p = c then n :: openSlots c tr else openSlots c tr
  | _ :: tr => openSlots c tr

/-- In every list each character is in one of the four slots, apart from those before it. -/
def ListsApart : List Event → Prop
  | [] => True
  | .slot c n :: tr => (0 ≤ n ∧ n ≤ 3) ∧ (∀ m ∈ openSlots c tr, SlotsApart n m) ∧ ListsApart tr
  | _ :: tr => ListsApart tr

/-! ## When characters are created -/

/-- An element of `StartChar.xml` that describes a new character of a class. -/
def Xml.describes (J : Junk) (charclass : Nat) (p : Xml) : Bool :=
  p.name == className J charclass && (readXMLIntegers p charTags).isSome

/-- A name that is not taken is given to a character of a known class in a free slot. -/
def Creatable (E : Env) (J : Junk) (db : Database) (u : Bytes) (P : Packet) : Prop :=
  clean (P.charName J) ∧
  ((∀ r ∈ db.rows .characters, r .name ≠ .text (P.charName J)) →
    (P.charName J).length ≤ 16 ∧ P.byteAt 12 ≤ 3 ∧ P.byteAt 32 ≤ 3 ∧
    (∀ r ∈ db.rows .characters, r .uid = .text u → r .posid ≠ .int (P.byteAt 12)) ∧
    ∀ root ∈ E.startChar, (root.children.filter (Xml.describes J (P.byteAt 32))).length ≤ 1)

instance (E : Env) (J : Junk) (db : Database) (u : Bytes) (P : Packet) :
    Decidable (Creatable E J db u P) :=
  inferInstanceAs (Decidable (_ ∧ _))

/-- Names in login packets are clean, and characters are only created where they can be. -/
def PlacesFree (E : Env) (s : Server) : Step → Prop
  | .packet c P J => c ∈ s.clientList →
    (P.opcode = 0x020d → clean P.username.str) ∧
    (P.opcode = 0x020f → ∀ a ∈ s.session c, Creatable E J s.db a.username.str P)
  | _ => True

instance (E : Env) (s : Server) : (i : Step) → Decidable (PlacesFree E s i)
  | .packet c P J => inferInstanceAs (Decidable (c ∈ s.clientList →
      (P.opcode = 0x020d → clean P.username.str) ∧
      (P.opcode = 0x020f → ∀ a ∈ s.session c, Creatable E J s.db a.username.str P)))
  | .addUser _ | .disconnectClient _ | .visiblityList .. => .isTrue trivial

variable {E : Env} {J : Junk} {c : Ptr} {s t : Server} {P : Packet}

/-! ## Rows in different slots -/

section Filter
variable {α β : Type} [DecidableEq β] {f : α → β} {l : List α} {x : α}

theorem filter_eq_singleton (h : l.Pairwise fun x y => f x ≠ f y) (hx : x ∈ l) :
    l.filter (fun y => f y = f x) = [x] := by
  induction l with
  | nil => cases hx
  | cons y l ih =>
    obtain ⟨hy, hl⟩ := List.pairwise_cons.mp h
    rcases List.mem_cons.mp hx with rfl | hx
    · have hnil : l.filter (fun y => f y = f x) = [] := by
        rw [List.filter_eq_nil_iff]
        intro z hz
        simpa using fun he => hy z hz he.symm
      simp [hnil]
    · rw [List.filter_cons_of_neg (by simpa using hy x hx)]
      exact ih hl hx

omit [DecidableEq β] in
/-- Different values, each one of a few, are few. -/
theorem length_le_of_pairwise {v : List β} (h : l.Pairwise fun x y => f x ≠ f y)
    (hv : ∀ x ∈ l, f x ∈ v) : l.length ≤ v.length := by
  have hnodup : (l.map f).Nodup := List.pairwise_map.mpr h
  have hsub : l.map f ⊆ v := by
    intro y hm
    obtain ⟨x, hx, rfl⟩ := List.mem_map.mp hm
    exact hv x hx
  simpa using (hnodup.subperm hsub).length_le

end Filter

/-- What creating and deleting characters keep of their rows. -/
structure Placed (rows : List (Row Col)) : Prop where
  slots : ∀ r ∈ rows, IsSlot (r .posid)
  classes : ∀ r ∈ rows, IsSlot (r .classid)
  names : ∀ r ∈ rows, ∃ b, r .name = .text b ∧ clean b ∧ cstr b = b
  apart : rows.Pairwise fun r r' => r .uid = r' .uid → r .posid ≠ r' .posid
  distinct : rows.Pairwise fun r r' => r .name ≠ r' .name

theorem Placed.nil : Placed [] := by constructor <;> simp

theorem Placed.sublist {rows rows' : List (Row Col)} (h : Placed rows) (hs : rows'.Sublist rows) :
    Placed rows' where
  slots r hr := h.slots r (hs.subset hr)
  classes r hr := h.classes r (hs.subset hr)
  names r hr := h.names r (hs.subset hr)
  apart := h.apart.sublist hs
  distinct := h.distinct.sublist hs

/-- The characters of one account are in different slots. -/
theorem Placed.account {rows : List (Row Col)} (h : Placed rows) (u : Cell) :
    (rows.filter fun r => r .uid = u).Pairwise fun r r' => r .posid ≠ r' .posid := by
  rw [List.pairwise_filter]
  refine h.apart.imp fun {r r'} hne hu hu' => hne ?_
  simp only [decide_eq_true_eq] at hu hu'
  rw [hu, hu']

theorem Placed.few {rows : List (Row Col)} (h : Placed rows) (u : Cell) :
    (rows.filter fun r => r .uid = u).length ≤ 4 := by
  refine length_le_of_pairwise (v := [.int 0, .int 1, .int 2, .int 3]) (h.account u) fun r hr => ?_
  obtain ⟨n, hn, h0, h3⟩ := h.slots r (List.mem_of_mem_filter hr)
  rw [hn]
  have : n = 0 ∨ n = 1 ∨ n = 2 ∨ n = 3 := by omega
  rcases this with rfl | rfl | rfl | rfl <;> simp

theorem Placed.rosters {db : Database} (h : Placed (db.rows .characters)) : Rosters db :=
  ⟨fun r _ => h.few (r .uid), h.slots, h.classes, h.apart⟩

/-- A row with a new name, in a slot that is free for its account, is added. -/
theorem Placed.concat {rows : List (Row Col)} {r : Row Col} {b : Bytes} (h : Placed rows)
    (hslot : IsSlot (r .posid)) (hclass : IsSlot (r .classid)) (hname : r .name = .text b)
    (hb : clean b ∧ cstr b = b) (hfree : ∀ r' ∈ rows, r' .uid = r .uid → r' .posid ≠ r .posid)
    (hnew : ∀ r' ∈ rows, r' .name ≠ r .name) : Placed (rows ++ [r]) where
  slots := List.forall_mem_append.mpr ⟨h.slots, by simpa using hslot⟩
  classes := List.forall_mem_append.mpr ⟨h.classes, by simpa using hclass⟩
  names := List.forall_mem_append.mpr ⟨h.names, by simpa using ⟨b, hname, hb⟩⟩
  apart := List.pairwise_append.mpr ⟨h.apart, List.pairwise_singleton _ _, by simpa using hfree⟩
  distinct := List.pairwise_append.mpr ⟨h.distinct, List.pairwise_singleton _ _, by simpa using hnew⟩

/-! ## Offsets -/

/-- The packet indices of the character in slot `n`. -/
def Fields (n i : Int) : Prop :=
  (2 * n + 12 ≤ i ∧ i < 2 * n + 14) ∨ (2 * n + 20 ≤ i ∧ i < 2 * n + 22) ∨
  (16 * n + 28 ≤ i ∧ i < 16 * n + 44) ∨ (28 * n + 92 ≤ i ∧ i < 28 * n + 94) ∨
  (28 * n + 108 ≤ i ∧ i < 28 * n + 116) ∨ (128 * n + 204 ≤ i ∧ i < 128 * n + 205) ∨
  (128 * n + 212 ≤ i ∧ i < 128 * n + 332) ∨ (4 * n + 724 ≤ i ∧ i < 4 * n + 728) ∨
  (4 * n + 740 ≤ i ∧ i < 4 * n + 744)

theorem fields_of_covers {ch : CCharacter} {n i : Int} (hn : ch.charName.length ≤ 16) {w : Write}
    (hw : w ∈ charFields J ch n) (hi : w.covers i) : Fields n i := by
  unfold Write.covers at hi
  rcases List.mem_append.mp hw with hw | hw
  · simp only [List.mem_cons, List.not_mem_nil, or_false] at hw
    rcases hw with rfl | rfl | rfl | rfl | rfl | rfl | rfl | rfl | rfl | rfl | rfl | rfl | rfl <;>
      simp only [addByte, addWord, addDWord, addStr, leBytes_length, List.length_map,
        List.length_range] at hi <;> unfold Fields <;> omega
  · obtain ⟨k, hk, hw⟩ := List.mem_flatMap.mp hw
    have hk := List.mem_range.mp hk
    simp only [List.mem_cons, List.not_mem_nil, or_false] at hw
    rcases hw with rfl | rfl | rfl | rfl | rfl | rfl | rfl <;>
      simp only [addByte, addWord, leBytes_length] at hi <;> unfold Fields <;> omega

theorem fields_unique {n m i : Int} (hn : 0 ≤ n ∧ n ≤ 3) (hm : 0 ≤ m ∧ m ≤ 3) (h : Fields n i)
    (h' : Fields m i) : n = m := by
  unfold Fields at h h'
  omega

theorem slotsApart {n m : Int} (hn : 0 ≤ n ∧ n ≤ 3) (hm : 0 ≤ m ∧ m ≤ 3) (h : n ≠ m) :
    SlotsApart n m := fun _ _ _ hch hch' _ hw _ hw' _ hi =>
  h (fields_unique hn hm (fields_of_covers hch hw hi.1) (fields_of_covers hch' hw' hi.2))

/-! ## What is kept -/

/-- The rows are in place, the lists apart so far, and the names in the sessions clean. -/
structure Orderly (s : Server) : Prop where
  placed : Placed (s.db.rows .characters)
  lists : ListsApart s.trace
  names : ∀ p a, s.session p = some a → clean a.username.str

/-- Order is kept, and no list reads a seventh character. -/
def orderly : Frame Fault Server := .safe Orderly (· ≠ .charsIndex)

theorem orderly_of (hdb : t.db.rows .characters = s.db.rows .characters)
    (htrace : ListsApart s.trace → ListsApart t.trace)
    (hs : ∀ p a', t.session p = some a' → ∃ a, s.session p = some a ∧ a'.username = a.username) :
    orderly.rel s t := fun h =>
  ⟨hdb ▸ h.placed, htrace h.lists, fun p a' ha' => by
    obtain ⟨a, ha, hu⟩ := hs p a' ha'
    rw [hu]
    exact h.names p a ha⟩

theorem orderly_eq (hdb : t.db.rows .characters = s.db.rows .characters) (hheap : t.heap = s.heap)
    (htrace : t.trace = s.trace) : orderly.rel s t :=
  orderly_of hdb (htrace ▸ id) fun p a' ha' => ⟨a', by
    rw [Server.session, ← hheap]
    exact ha', rfl⟩

theorem listsApart_cons {e : Event} (he : ∀ p n, e ≠ .slot p n) {tr : List Event}
    (h : ListsApart tr) : ListsApart (e :: tr) := by
  cases e <;> first | exact h | exact absurd rfl (he _ _)

theorem orderly_log {e : Event} (he : ∀ p n, e ≠ .slot p n) : Logs orderly e := fun _ =>
  orderly_of rfl (listsApart_cons he) fun _ a ha => ⟨a, ha, rfl⟩

theorem orderly_update {f : CConnClient → CConnClient}
    (hf : ∀ cl, (f cl).playerSession.username = cl.playerSession.username) (s : Server) (c : Ptr) :
    orderly.rel s (s.update c f) := by
  refine orderly_of rfl id fun p a' ha' => ?_
  rw [session_update] at ha'
  split at ha'
  · next hp =>
    obtain ⟨cl, hcl, rfl⟩ := Option.map_eq_some_iff.mp ha'
    exact ⟨cl.playerSession, by rw [hp, Server.session, hcl]; rfl, hf cl⟩
  · exact ⟨a', ha', rfl⟩

theorem session_orderly {f : CAccount → CAccount} (hf : ∀ a, (f a).username = a.username) :
    Session orderly c f := fun s =>
  orderly_update (f := fun cl => { cl with playerSession := f cl.playerSession }) (fun _ => hf _) s c

theorem ordinary_orderly (c : Ptr) : Ordinary orderly c where
  packet _ _ := orderly_eq rfl rfl rfl
  calls _ := orderly_eq rfl rfl rfl
  send s _ _ _ := orderly_log (by simp) s
  fault _ _ _ h _ := h
  derefs _ _ _ := by decide
  visible _ _ _ _ _ _ _ := by decide
  listed _ _ _ _ _ := by decide
  reads _ _ := orderly_eq rfl rfl rfl
  npcId _ _ := orderly_eq rfl rfl rfl
  body s f hf := orderly_update (fun cl => by rw [CConnClient.session_of_sight (hf cl).1]) s c

theorem logins_orderly (u : Bytes) : Logins orderly c u where
  ok := orderly_log (by simp)
  userid _ := session_orderly fun _ => rfl
  grant s b := orderly.trans
    (session_orderly (f := fun a => { a with accesslevel := u32 (atoi b) }) (fun _ => rfl) s)
    (orderly_log (e := .granted c (atoi b)) (by simp) _)
  clientid _ := session_orderly fun _ => rfl
  loggedIn := session_orderly fun _ => rfl

/-! ## Lists -/

/-- What changes neither the tables nor the list being written. -/
def listView (c : Ptr) : Frame Fault Server := .same fun s => (s.db, openSlots c s.trace)

theorem basic_listView (c : Ptr) : Basic (listView c) where
  packet _ _ := rfl
  calls _ := rfl
  send _ _ _ _ := rfl
  fault _ _ _ _ := trivial

/-- The rows of an account, as a list reads them. -/
def Account (db : Database) (u : Bytes) : List (Row Col) :=
  (db.rows .characters).filter fun r => r .uid = .text u

theorem fetch_account (db : Database) (u : Bytes) : fetch db listCols .characters (uidCond u) =
    (Account db u).map fun r => listCols.map fun k => (r k).print := by
  unfold fetch Account
  congr 1
  refine List.filter_congr fun r hr => ?_
  rw [Bool.eq_iff_iff, holds_uidCond hr, decide_eq_true_iff]

theorem openSlots_range {tr : List Event} (h : ListsApart tr) : ∀ m ∈ openSlots c tr, 0 ≤ m ∧ m ≤ 3 := by
  induction tr with
  | nil => simp [openSlots]
  | cons e tr ih =>
    cases e with
    | slot p n =>
      intro m hm
      rw [openSlots] at hm
      split at hm
      · rcases List.mem_cons.mp hm with rfl | hm
        · exact h.1
        · exact ih h.2.2 m hm
      · exact ih h.2.2 m hm
    | listing p =>
      intro m hm
      rw [openSlots] at hm
      split at hm
      · cases hm
      · exact ih h m hm
    | _ => exact ih h

theorem keeps_select_orderly {fmt : String} (h : fmt ∈ Query.selects) (args : List Arg) :
    Keeps orderly (doSQL E fmt args) := keeps_select (ordinary_orderly 0).toBasic h args

/-- Six characters at most are read into the six places. -/
theorem keepsAt_fetchChars {rows : List Fetched} {chars : List CCharacter}
    (h : chars.length + rows.length ≤ 6) : KeepsAt orderly s (fetchChars E J rows chars) := by
  have hB := (ordinary_orderly 0).toBasic
  induction rows generalizing chars s with
  | nil => exact keeps_pure _ s
  | cons row rows ih =>
    rw [List.length_cons] at h
    have hcheck : check (chars.length < 6) .charsIndex s = .ok () s := by
      rw [check, if_pos (by omega)]
      rfl
    unfold fetchChars
    refine keepsAt_bind (keepsAt_ok hcheck (orderly.refl s)) fun _ t _ => ?_
    refine keepsAt_bind (keeps_colName hB _ _ t) fun _ t _ => ?_
    iterate 8 refine keepsAt_bind (keeps_colInt hB _ _ _) fun _ t _ => ?_
    refine keepsAt_bind (keeps_col hB _ _ t) fun _ t _ => ?_
    refine keepsAt_bind (keeps_select_orderly (by simp [Query.selects]) _ t) fun r t _ => ?_
    rcases r with _ | rows2
    · exact keeps_pure _ t
    refine keepsAt_bind (keeps_fetchItems hB (fun s => hB.fault s _ (by decide) (by decide)) _ _ _ t)
      fun _ t _ => ih ?_
    rw [List.length_append, List.length_singleton]
    omega

/-- The slot found for a character's name is the one in its row. -/
theorem lastPosid_row {r : Row Col} {n m : Int} {b : Bytes}
    (h : Placed (s.db.rows .characters)) (hr : r ∈ s.db.rows .characters) (hb : r .name = .text b)
    (hn : r .posid = .int n) :
    lastPosid (fetch s.db [.posid] .characters (nameCond b)) m t = .ok n t := by
  have hfilter : (s.db.rows .characters).filter (holds (nameCond b)) = [r] := by
    rw [← filter_eq_singleton h.distinct hr]
    refine List.filter_congr fun r' hr' => ?_
    rw [Bool.eq_iff_iff, holds_nameCond hr', decide_eq_true_iff, hb]
  obtain ⟨m, hm, hrange⟩ := h.slots r hr
  obtain rfl : n = m := by
    rw [hn] at hm
    cases hm
    rfl
  rw [fetch, hfilter]
  simp only [List.map_cons, List.map_nil, hn, Cell.print_int]
  exact lastPosid_single hrange

/-- The characters of rows in different slots are written apart. -/
theorem keepsAt_writeChars {rs : List (Row Col)} {chars : List CCharacter} {k : Nat}
    (hnames : List.Forall₂ (fun r ch => r .name = .text ch.charName) rs chars)
    (hrs : ∀ r ∈ rs, r ∈ s.db.rows .characters)
    (hapart : rs.Pairwise fun r r' => r .posid ≠ r' .posid)
    (hopen : ∀ r ∈ rs, ∀ n ∈ openSlots c s.trace, r .posid ≠ .int n) :
    KeepsAt orderly s (writeChars E J c k chars) := by
  have hB := (ordinary_orderly 0).toBasic
  induction hnames generalizing s k with
  | nil => exact keeps_pure _ s
  | @cons r ch rs chars hname _ ih =>
    refine keepsAt_safe fun hs => ?_
    obtain ⟨hr, hrs⟩ := List.forall_mem_cons.mp hrs
    obtain ⟨hne, hapart⟩ := List.pairwise_cons.mp hapart
    obtain ⟨hfree, hopen⟩ := List.forall_mem_cons.mp hopen
    obtain ⟨n, hn, hrange⟩ := hs.placed.slots r hr
    obtain ⟨b, hb, hclean, -⟩ := hs.placed.names r hr
    obtain rfl : ch.charName = b := by
      rw [hname] at hb
      exact Cell.text.inj hb
    unfold writeChars
    refine keepsAt_bind (keeps_select_orderly (by simp [Query.selects]) _ s) fun q t ht => ?_
    have hrows := fun rows (hq : q = some rows) => doSQL_rows (parse_posid hclean) (hq ▸ ht)
    obtain rfl := doSQL_asked (by simp [Query.selects]) ht
    rcases q with _ | rows
    · exact keeps_pure _ _
    obtain rfl := hrows rows rfl
    have hslot := lastPosid_row (m := J.charpos k) (t := s.asked s.reads (s.sqlCalls + 1))
      hs.placed hr hname hn
    refine keepsAt_bind (keepsAt_ok hslot (orderly.refl _)) fun m t ht => ?_
    obtain ⟨rfl, rfl⟩ : m = n ∧ t = s.asked s.reads (s.sqlCalls + 1) := by
      rw [hslot] at ht
      cases ht
      exact ⟨rfl, rfl⟩
    have hlog : orderly.rel (s.asked s.reads (s.sqlCalls + 1))
        { s.asked s.reads (s.sqlCalls + 1) with trace := .slot c m :: s.trace } := by
      refine orderly_of rfl (fun hl => ⟨hrange, fun n hnm => ?_, hl⟩) fun _ a ha => ⟨a, ha, rfl⟩
      refine slotsApart hrange (openSlots_range hl n hnm) fun he => hfree n hnm ?_
      rw [hn, he]
    refine keepsAt_bind (keepsAt_ok (a := ()) rfl hlog) fun _ t ht => ?_
    cases ht
    refine keepsAt_bind (keeps_writes hB _ _) fun _ t ht => ?_
    have hview : t.db = s.db ∧ openSlots c t.trace = m :: openSlots c s.trace := by
      have h := (keeps_writes (basic_listView c) _).rel_ok ht
      refine ⟨congrArg Prod.fst h, (congrArg Prod.snd h).trans ?_⟩
      exact if_pos rfl
    refine ih (fun r hr => ?_) hapart fun r hr n' hn' => ?_
    · rw [hview.1]
      exact hrs r hr
    · rw [hview.2] at hn'
      rcases List.mem_cons.mp hn' with rfl | hn'
      · intro he
        exact hne r hr (hn.trans he.symm)
      · exact hopen r hr n' hn'

/-- What a list reads of an account's characters before it writes them. -/
structure Read (c : Ptr) (s : Server) (rs : List (Row Col)) (chars : List CCharacter) : Prop where
  names : List.Forall₂ (fun r ch => r .name = .text ch.charName) rs chars
  rows : ∀ r ∈ rs, r ∈ s.db.rows .characters
  apart : rs.Pairwise fun r r' => r .posid ≠ r' .posid
  begun : openSlots c s.trace = []

theorem Read.of_view {rs : List (Row Col)} {chars : List CCharacter} (h : Read c s rs chars)
    (hview : (listView c).rel s t) : Read c t rs chars where
  names := h.names
  rows := by
    have hdb : t.db = s.db := congrArg Prod.fst hview
    rw [hdb]
    exact h.rows
  apart := h.apart
  begun := (congrArg Prod.snd hview).trans h.begun

theorem Read.writeChars {rs : List (Row Col)} {chars : List CCharacter} (h : Read c s rs chars) :
    KeepsAt orderly s (writeChars E J c 0 chars) :=
  keepsAt_writeChars h.names h.rows h.apart (by simp [h.begun])

/-- Every character read from an account's rows carries the name in its row. -/
theorem read_fetchChars {u : Bytes} {chars : List CCharacter} (h : Placed (s.db.rows .characters))
    (hbegun : openSlots c s.trace = []) {rows : List Fetched}
    (hrows : rows = fetch s.db listCols .characters (uidCond u))
    (hok : fetchChars E J rows [] s = .ok (some chars) t) : Read c t (Account s.db u) chars := by
  have hview := (keeps_fetchChars (basic_listView c) (fun _ => trivial) _ _).rel_ok hok
  refine Read.of_view ⟨?_, fun r hr => List.mem_of_mem_filter hr, h.account _, hbegun⟩ hview
  obtain ⟨new, hnew, hnames⟩ := fetchChars_names hok
  rw [List.nil_append] at hnew
  rw [hnew]
  rw [hrows, fetch_account, List.forall₂_map_left_iff] at hnames
  have hplaced : ∀ r ∈ Account s.db u, ∃ b, r .name = .text b ∧ clean b ∧ cstr b = b := fun r hr =>
    h.names r (List.mem_of_mem_filter hr)
  refine ((List.forall₂_and_left ..).mpr ⟨hplaced, hnames⟩).imp fun r ch hr => ?_
  obtain ⟨⟨b, hb, -, hcstr⟩, d, hd, hch⟩ := hr
  have hd : (r .name).print = some d := by simpa [listCols] using hd
  rw [hb, Cell.print] at hd
  cases hd
  rw [hb, hch, hcstr]

/-- The rows of an account are read and written in order, whatever is sent between. -/
theorem keepsAt_readChars {α : Type} (hbegun : openSlots c s.trace = [])
    {f : Option (List Fetched) → M α} (hnone : Keeps orderly (f none))
    (hsome : ∀ rows t, rows.length ≤ 4 → openSlots c t.trace = [] → (∀ chars t', Placed (t.db.rows .characters) →
      fetchChars E J rows [] t = .ok (some chars) t' → ∃ rs, Read c t' rs chars) →
      KeepsAt orderly t (f (some rows))) :
    KeepsAt orderly s (selectChars E c >>= f) := by
  have hO := ordinary_orderly c
  refine keepsAt_safe fun hs => ?_
  refine keepsAt_bind (keeps_selectChars hO.toBasic hO.derefs s) fun r t ht => ?_
  rcases r with _ | rows
  · exact hnone t
  obtain ⟨cl, hcl, rfl, hrows⟩ := selectChars_ok ht
  have hclean : clean cl.playerSession.username.str :=
    hs.names c cl.playerSession (by rw [Server.session, hcl]; rfl)
  have hrows := hrows hclean rows rfl
  refine hsome rows _ ?_ hbegun fun chars t' hp hok => ⟨_, read_fetchChars hp hbegun hrows hok⟩
  rw [hrows, fetch_account, List.length_map]
  exact hs.placed.few _

theorem keeps_resendCharList_orderly : Keeps orderly (resendCharList E J c) := by
  have hO := ordinary_orderly c
  have hB := hO.toBasic
  intro s
  refine keepsAt_bind (keeps_packetFree hB s) fun _ t _ => ?_
  refine keepsAt_bind (keeps_writes hB _ t) fun _ t _ => ?_
  refine keepsAt_bind (keeps_note (orderly_log (e := .listing c) (by simp)) t) fun _ t ht => ?_
  cases ht
  have hbegun : openSlots c (.listing c :: t.trace) = [] := if_pos rfl
  refine keepsAt_readChars (J := J) hbegun (keeps_pure _) fun rows t hlen _ hread => ?_
  refine keepsAt_safe fun hs => ?_
  refine keepsAt_bind (keepsAt_fetchChars (by rw [List.length_nil]; omega)) fun r t ht => ?_
  rcases r with _ | chars
  · exact keeps_pure _ t
  obtain ⟨rs, hr⟩ := hread chars t hs.placed ht
  refine keepsAt_bind hr.writeChars fun b t _ => ?_
  cases b with
  | false => exact keeps_pure _ t
  | true => exact keeps_bind (keeps_sendPacket hB hO.derefs _) (fun _ => keeps_pure _) t

theorem keeps_sendCharList_orderly : Keeps orderly (sendCharList E J c) := by
  have hO := ordinary_orderly c
  have hB := hO.toBasic
  have hitems : ∀ s, orderly.err s .storageIndex := fun s => hB.fault s _ (by decide) (by decide)
  intro s
  unfold sendCharList
  refine keepsAt_bind (keeps_packetFree hB s) fun _ t _ => ?_
  refine keepsAt_bind (keeps_client hO.derefs t) fun _ t _ => ?_
  refine keepsAt_bind (keeps_writes hB _ t) fun _ t _ => ?_
  refine keepsAt_bind (keeps_note (orderly_log (e := .listing c) (by simp)) t) fun _ t ht => ?_
  cases ht
  have hbegun : openSlots c (.listing c :: t.trace) = [] := if_pos rfl
  refine keepsAt_readChars (J := J) hbegun (keeps_pure _) fun rows t hlen _ hread => ?_
  refine keepsAt_safe fun hs => ?_
  refine keepsAt_bind (keepsAt_fetchChars (by rw [List.length_nil]; omega)) fun r t ht => ?_
  rcases r with _ | chars
  · exact keeps_pure _ t
  obtain ⟨rs, hr⟩ := hread chars t hs.placed ht
  refine keepsAt_bind (keeps_select_orderly (by simp [Query.selects]) _ t) fun r u hu => ?_
  have hr := hr.of_view ((keeps_select (basic_listView c) (by simp [Query.selects]) _).rel_ok hu)
  rcases r with _ | rows
  · exact keeps_pure _ u
  refine keepsAt_bind (keeps_fetchItems hB hitems _ _ _ u) fun _ v hv => ?_
  have hr := hr.of_view ((keeps_fetchItems (basic_listView c) (fun _ => trivial) _ _ _).rel_ok hv)
  refine keepsAt_bind hr.writeChars fun b t _ => ?_
  cases b with
  | false => exact keeps_pure _ t
  | true =>
    exact keeps_bind (keeps_writes hB _) (fun _ => keeps_bind (keeps_writes hB _) fun _ =>
      keeps_bind (keeps_sendPacket hB hO.derefs _) fun _ => keeps_pure _) t

/-! ## Creating a character -/

/-- A statement that leaves the characters as they are. -/
theorem keepsAt_doSQL_orderly {fmt : String} {args : List Arg}
    (h : ∀ r t, doSQL E fmt args s = .ok r t → t.db.rows .characters = s.db.rows .characters) :
    KeepsAt orderly s (doSQL E fmt args) := by
  cases e : doSQL E fmt args s with
  | ok r t =>
    have ht := h r t e
    obtain ⟨-, rfl⟩ := doSQL_ok e
    exact keepsAt_ok e (orderly_eq ht rfl rfl)
  | error x t =>
    obtain ⟨rfl, rfl⟩ := doSQL_error e
    exact keepsAt_error e (orderly.refl _) fun _ => by decide

theorem newItem_chars {vs : List Int} {r : Option (List Fetched)}
    (h : doSQL E Query.newItem (vs.map .int) s = .ok r t) :
    t.db.rows .characters = s.db.rows .characters := by
  obtain h | ⟨vals, h⟩ := doSQL_newItem h <;> rw [h]
  rw [s.db.add_rows_of_ne (by decide)]

theorem keeps_newItem_orderly (vs : List Int) :
    Keeps orderly (doSQL E Query.newItem (vs.map .int)) := fun _ =>
  keepsAt_doSQL_orderly fun _ _ => newItem_chars

/-- Creating items changes no character. -/
theorem createItems_chars {charid : Int} {nodes : List Xml}
    (h : createItems E charid nodes s = .ok () t) :
    t.db.rows .characters = s.db.rows .characters := by
  have hkeeps : Keeps (.same fun s => s.db.rows .characters) (createItems E charid nodes) := by
    refine keeps_createItems (fun vs s => ?_) _ _
    cases e : doSQL E Query.newItem (vs.map .int) s with
    | ok r t => exact keepsAt_ok e (newItem_chars e)
    | error _ t => exact keepsAt_error e (by rw [(doSQL_error e).2]; rfl) trivial
  exact hkeeps.rel_ok h

/-- A new name, and a slot that is free for an account. -/
structure Vacant (rows : List (Row Col)) (name u : Bytes) (pos : Int) : Prop where
  name : ∀ r ∈ rows, r .name ≠ .text name
  slot : ∀ r ∈ rows, r .uid = .text u → r .posid ≠ .int pos

theorem Placed.newChar {db : Database} {name u : Bytes} {pos cls : Nat}
    (h : Placed (db.rows .characters)) (hv : Vacant (db.rows .characters) name u pos)
    (hname : clean name ∧ cstr name = name) (hlen : name.length ≤ 16) (hu : u.length ≤ 16)
    (hpos : pos ≤ 3) (hcls : cls ≤ 3) (mobid cstr cint cdex ccon skpts stpts skmpts level : Int) :
    Placed ((db.add .characters newCharCols (newCharVals name u mobid cstr cint cdex ccon pos cls
      skpts stpts skmpts level)).rows .characters) := by
  rw [Db.add_rows]
  have hn : newRow schema .characters (db.next .characters) newCharCols (newCharVals name u mobid
      cstr cint cdex ccon pos cls skpts stpts skmpts level) .name = .text name :=
    Cell.coerce_text hlen
  have huid : newRow schema .characters (db.next .characters) newCharCols (newCharVals name u mobid
      cstr cint cdex ccon pos cls skpts stpts skmpts level) .uid = .text u :=
    Cell.coerce_text hu
  have hp : newRow schema .characters (db.next .characters) newCharCols (newCharVals name u mobid
      cstr cint cdex ccon pos cls skpts stpts skmpts level) .posid = .int pos :=
    Cell.coerce_int_decimal (by omega)
  have hc : newRow schema .characters (db.next .characters) newCharCols (newCharVals name u mobid
      cstr cint cdex ccon pos cls skpts stpts skmpts level) .classid = .int cls :=
    Cell.coerce_int_decimal (by omega)
  refine h.concat ⟨pos, hp, by omega⟩ ⟨cls, hc, by omega⟩ hn hname (fun r hr hru => ?_) fun r hr => ?_
  · rw [hp]
    exact hv.slot r hr (hru.trans huid)
  · rw [hn]
    exact hv.name r hr

/-- The elements still to be read describe no character, or a single one and its place is
vacant. -/
def Awaits (J : Junk) (cls : Nat) (nodes : List Xml) (vacant : Prop) : Prop :=
  nodes.filter (Xml.describes J cls) = [] ∨
    (nodes.filter (Xml.describes J cls)).length ≤ 1 ∧ vacant

theorem Awaits.skip {cls : Nat} {p : Xml} {nodes : List Xml} {v : Prop}
    (h : Awaits J cls (p :: nodes) v) (hp : p.describes J cls = false) : Awaits J cls nodes v := by
  rwa [Awaits, List.filter_cons_of_neg (by simp [hp])] at h

theorem Awaits.take {cls : Nat} {p : Xml} {nodes : List Xml} {v : Prop}
    (h : Awaits J cls (p :: nodes) v) (hp : p.describes J cls = true) :
    v ∧ ∀ w, Awaits J cls nodes w := by
  rw [Awaits, List.filter_cons_of_pos hp] at h
  rcases h with h | ⟨hlen, hv⟩
  · cases h
  · refine ⟨hv, fun w => .inl (List.eq_nil_of_length_eq_zero ?_)⟩
    rw [List.length_cons] at hlen
    omega

/-- A character is created in a vacant place, by the only element that describes its class. -/
theorem keepsAt_createChars {name u : Bytes} {pos cls : Nat} {charid : Int} {nodes : List Xml}
    (hname : clean name ∧ cstr name = name) (hlen : name.length ≤ 16) (hu : clean u)
    (hulen : u.length ≤ 16) (hpos : pos ≤ 3) (hcls : cls ≤ 3)
    (hn : Awaits J cls nodes (Vacant (s.db.rows .characters) name u pos)) :
    KeepsAt orderly s (createChars E J u name cls pos charid nodes) := by
  have hB := (ordinary_orderly 0).toBasic
  have hitems := keeps_createItems (keeps_newItem_orderly (E := E))
  induction nodes generalizing s charid with
  | nil => exact keeps_pure _ s
  | cons p rest ih =>
    refine keepsAt_ite (fun hp => ?_) fun hp => ih (hn.skip (by simp [Xml.describes, hp]))
    cases hattrs : readXMLIntegers p charTags with
    | none =>
      refine keepsAt_bind (hitems _ _ s) fun _ t ht => ih ?_
      rw [createItems_chars ht]
      exact hn.skip (by simp [Xml.describes, hattrs])
    | some vs =>
      obtain ⟨hv, hrest⟩ := hn.take (by simp [Xml.describes, hp, hattrs])
      split
      · next mobid level cstr cint cdex ccon skpts stpts skmpts _ =>
        refine keepsAt_bind (keepsAt_safe fun hs => ?_) fun _ t ht => ?_
        · cases e : doSQL E Query.newChar [txt name, txt u, .int mobid, .int cstr, .int cint,
            .int cdex, .int ccon, .int pos, .int cls, .int skpts, .int stpts, .int skmpts,
            .int level] s with
          | ok r t =>
            have hdb := doSQL_newChar hname.1 hu e
            obtain ⟨-, rfl⟩ := doSQL_ok e
            refine keepsAt_ok e fun _ => ⟨?_, hs.lists, hs.names⟩
            rcases hdb with hdb | hdb <;> rw [hdb]
            · exact hs.placed
            · exact hs.placed.newChar hv hname hlen hulen hpos hcls ..
          | error x t =>
            obtain ⟨rfl, rfl⟩ := doSQL_error e
            exact keepsAt_error e (orderly.refl _) fun _ => by decide
        refine keepsAt_bind (keeps_select_orderly (by simp [Query.selects]) _ t) fun r t _ => ?_
        rcases r with _ | _ | ⟨row, _⟩
        · exact keeps_pure _ t
        · exact keeps_throw_nullPtr hB t
        · exact keepsAt_bind (keeps_colInt hB _ _ t) fun _ t _ =>
            keepsAt_bind (hitems _ _ t) fun _ t _ => ih (hrest _)
      · exact keepsAt_bind (hitems _ _ s) fun _ t _ => ih (hrest _)

/-! ## Packets -/

theorem keepsAt_charCreate_orderly {u : Bytes}
    (hu : ∀ cl, s.heap c = some cl → cl.playerSession.username.str = u)
    (h : Creatable E J s.db u P) : KeepsAt orderly s (charCreate E J c P) := by
  have hO := ordinary_orderly c
  obtain ⟨hname, hfree⟩ := h
  refine keepsAt_charCreate hO.toBasic hO.derefs hO.reads keeps_resendCharList_orderly
    fun cl root l n hcl hroot hnew => keepsAt_safe fun hs => ?_
  obtain ⟨hlen, hpos, hcls, hslot, hxml⟩ := hfree (hnew hname)
  have hclean := hs.names c cl.playerSession (by
    rw [Server.session]
    exact congrArg (Option.map _) hcl)
  refine keepsAt_createChars ⟨hname, cstr_cstr _⟩ hlen hclean (username_length _) hpos hcls ?_
  refine .inr ⟨hxml root hroot, hnew hname, ?_⟩
  rw [hu cl hcl]
  exact hslot

theorem keepsAt_charDelete_orderly : KeepsAt orderly s (charDelete E J c P) := by
  have hO := ordinary_orderly c
  refine keepsAt_charDelete hO.toBasic hO.derefs hO.reads keeps_resendCharList_orderly
    fun cl l n b _ _ _ _ => ?_
  refine keepsAt_bind (keepsAt_doSQL_orderly fun r t h => ?_) fun _ t _ => ?_
  · obtain h | h := doSQL_delete (parse_deleteItems _ _) h <;> rw [h]
    exact (Server.asked s l n).db.restrict_rows_of_ne (by decide) _
  · refine keepsAt_safe fun hs => ?_
    cases e : doSQL E Query.deleteChar [txt (P.charName J)] t with
    | ok r v =>
      have hsub := doSQL_deleteChar e
      obtain ⟨-, rfl⟩ := doSQL_ok e
      exact keepsAt_ok e fun _ => ⟨hs.placed.sublist hsub, hs.lists, hs.names⟩
    | error x v =>
      obtain ⟨rfl, rfl⟩ := doSQL_error e
      exact keepsAt_error e (orderly.refl _) fun _ => by decide

theorem keepsAt_checkLogin_orderly (h : clean P.username.str) :
    KeepsAt orderly s (checkLogin E J c P) := by
  have hO := ordinary_orderly c
  have hB := hO.toBasic
  have hnew : ∀ u p, Keeps orderly (doSQL E Query.newAccount [txt u, txt p]) := fun u p s =>
    keepsAt_doSQL_orderly fun r t h => doSQL_newAccount h (by decide)
  refine keepsAt_checkLogin hB hO.derefs hO.reads fun t hn => ⟨fun hs => ⟨?_, ?_, ?_⟩, ?_⟩
  · rw [hn.db]
    exact hs.placed
  · rw [hn.trace]
    exact hs.lists
  · intro p a ha
    rw [hn.session, session_setSession] at ha
    split at ha
    · obtain ⟨b, -, rfl⟩ := Option.map_eq_some_iff.mp ha
      exact h
    · exact hs.names p a ha
  · exact keeps_checkAccount hB hO.derefs (hnew _ _) (fun _ _ _ _ _ => orderly_eq rfl rfl rfl)
      keeps_sendCharList_orderly (logins_orderly _) _ t

theorem keepsAt_packet_orderly (h : PlacesFree E s (.packet c P J)) :
    KeepsAt orderly s (exec E (.packet c P J)) := by
  have hO := ordinary_orderly c
  refine keepsAt_packet hO.toCommon P fun hc l => ?_
  obtain ⟨hlogin, hcreate⟩ := h hc
  refine keepsAt_dispatch hO P _ (fun ho => keepsAt_checkLogin_orderly (hlogin ho)) (fun ho => ?_)
    (fun _ => keepsAt_charDelete_orderly) (fun _ s f hf => ?_) (fun _ => ?_)
    fun _ _ _ _ _ _ => orderly_log (by simp)
  · cases hcl : s.heap c with
    | none =>
      refine keepsAt_charCreate hO.toBasic hO.derefs hO.reads keeps_resendCharList_orderly
        fun cl _ _ _ h _ _ => ?_
      rw [Server.received_heap, hcl] at h
      cases h
    | some cl =>
      refine keepsAt_charCreate_orderly (fun cl' h => ?_)
        (hcreate ho cl.playerSession (by rw [Server.session, hcl]; rfl))
      rw [Server.received_heap, hcl] at h
      cases h
      rfl
  · exact orderly_update (fun cl => by rw [CConnClient.session_of_sight (hf cl)]) s c
  · exact ⟨fun _ => session_orderly fun _ => rfl, session_orderly fun _ => rfl,
      session_orderly fun _ => rfl⟩

/-! ## Runs -/

theorem keepsAt_step_orderly (hs : s.Sound) {i : Step} (h : PlacesFree E s i) :
    KeepsAt orderly s (exec E i) := by
  cases i with
  | addUser J =>
    refine keepsAt_ok (a := ()) rfl fun h => ⟨h.placed, h.lists, fun p a ha => ?_⟩
    have ha : (fin (exec E (.addUser J) s)).session p = some a := ha
    rw [session_addUser] at ha
    split at ha
    · cases ha
      decide +kernel
    · exact h.names p a ha
  | disconnectClient c =>
    refine keepsAt_ok (exec_disconnectClient hs c) fun h => ?_
    split
    · refine ⟨h.placed, h.lists, fun p a ha => ?_⟩
      rw [session_delete] at ha
      split at ha
      · cases ha
      · exact h.names p a ha
    · exact h
  | packet c P J => exact keepsAt_packet_orderly h
  | visiblityList c J =>
    have hO := ordinary_orderly c
    exact keepsAt_visiblityList hO.toBasic (fun p => (ordinary_orderly p).derefs)
      ⟨fun _ => orderly_log (by simp), fun _ _ => orderly_log (by simp)⟩
      (fun _ _ _ _ _ => orderly_eq rfl rfl rfl) (fun _ _ => orderly_eq rfl rfl rfl)
      fun s f hf => orderly_update (fun cl => by rw [hf cl]) s c

/-- A server that knows the Transknight. -/
def Env.withStart : Env :=
  { Env.plain with startChar := some (.node (ascii "startitems") []
      [.node (ascii "transknight") (charTags.map fun tag => (ascii tag, ascii "1")) []]) }

def createFrame (charname : Bytes) (slot charclass : UInt8) : Packet :=
  frame 0x020f ([slot, 0, 0, 0] ++ (Field.copy 16 charname).bytes ++ [charclass])

/-- An account logs in and creates a character in a slot. -/
def creates (slot : UInt8) : List Step :=
  [.addUser {}, .packet 0 (loginFrame (ascii "bob") (ascii "pw")) { now := 100 },
    .packet 0 (createFrame (ascii "hero") slot 0) {}]

/-- The accounts of the reference database, without a character. -/
def newcomer : Database := withAccount (Db.empty schema) (ascii "bob") (ascii "pw") 1

/-- A new account has no characters. -/
example : newcomer.rows .characters = [] := by decide +kernel

end Destiny
