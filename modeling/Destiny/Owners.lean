import Destiny.Ownership
import Destiny.Roster
import Destiny.Server.Buffer

/-!
# Items and their characters

An item names its owner by the key of a character. Creating a character reads the key back by
the character's name and writes it into the items; deleting one prints a pointer where the key
should stand, and fetches the key of a character that need not exist. Items have owners, and a
deleted character takes its own items along, as long as what the pointer prints as is the owner
of just these items.
-/

namespace Destiny

open Text Sql Prog

/-- Every item is some character's. -/
def Owned (db : Database) : Prop :=
  ∀ r ∈ db.rows .charItems, ∃ ch ∈ db.rows .characters, r .owner = ch .id

instance (db : Database) : Decidable (Owned db) :=
  inferInstanceAs (Decidable (∀ r ∈ db.rows .charItems, _))

/-- An item of a character with a name. -/
def Carried (db : Database) (b : Bytes) (r : Row Col) : Prop :=
  ∃ ch ∈ db.rows .characters, ch .name = .text b ∧ r .owner = ch .id

instance (db : Database) (b : Bytes) (r : Row Col) : Decidable (Carried db b r) :=
  inferInstanceAs (Decidable (∃ ch ∈ db.rows .characters, _))

/-- The characters with a name and their items are gone, and nothing else is. -/
structure Removed (b : Bytes) (db db' : Database) : Prop where
  chars : db'.rows .characters = (db.rows .characters).filter fun r => r .name ≠ .text b
  items : db'.rows .charItems = (db.rows .charItems).filter fun r => ¬ Carried db b r
  rest : ∀ tb, tb ≠ .characters → tb ≠ .charItems → db'.rows tb = db.rows tb

instance (b : Bytes) (db db' : Database) : Decidable (Removed b db db') :=
  decidable_of_iff (_ ∧ _ ∧ db'.rows .accounts = db.rows .accounts ∧
    db'.rows .storage = db.rows .storage) <| by
    refine ⟨fun h => ⟨h.1, h.2.1, fun tb hc hi => ?_⟩, fun h =>
      ⟨h.chars, h.items, h.rest _ (by decide) (by decide), h.rest _ (by decide) (by decide)⟩⟩
    cases tb with
    | accounts => exact h.2.2.1
    | storage => exact h.2.2.2
    | characters => exact absurd rfl hc
    | charItems => exact absurd rfl hi

/-- The password check of a packet that deletes a character passes. -/
def PassesCheck (J : Junk) (A : Bytes) (db : Database) (P : Packet) : Prop :=
  44 ≤ P.mem.length ∧ OneAccount db A (P.charPass J)

instance (J : Junk) (A : Bytes) (db : Database) (P : Packet) : Decidable (PassesCheck J A db P) :=
  inferInstanceAs (Decidable (_ ∧ _))

/-- Where the check passes, the named characters and their items are deleted, and where there
are none no fields of a row are fetched. -/
def Deletes (E : Env) (s : Server) : Step → Prop
  | .packet c P J => c ∈ s.clientList → P.opcode = 0x0211 → ∀ a ∈ s.session c,
    PassesCheck J a.username.str s.db P →
      Removed (P.charName J) s.db (fin (exec E (.packet c P J) s)).db ∧
      ((∀ r ∈ s.db.rows .characters, r .name ≠ .text (P.charName J)) →
        thrown (exec E (.packet c P J) s) ≠ some .nullPtr)
  | _ => True

instance (E : Env) (s : Server) : (i : Step) → Decidable (Deletes E s i)
  | .packet c P J => inferInstanceAs (Decidable (c ∈ s.clientList → P.opcode = 0x0211 →
      ∀ a ∈ s.session c, PassesCheck J a.username.str s.db P →
        Removed (P.charName J) s.db (fin (exec E (.packet c P J) s)).db ∧
        ((∀ r ∈ s.db.rows .characters, r .name ≠ .text (P.charName J)) →
          thrown (exec E (.packet c P J) s) ≠ some .nullPtr)))
  | .addUser _ | .disconnectClient _ | .visiblityList .. => .isTrue trivial

/-- A character is created under clean texts, by elements that give all its numbers, and gets a
key that fits its column. -/
def Keyed (E : Env) (J : Junk) (A : Bytes) (db : Database) (P : Packet) : Prop :=
  clean A ∧ clean (P.charName J) ∧ ∀ root ∈ E.startChar,
    (∀ p ∈ root.children, p.name = className J (P.byteAt 32) →
      (readXMLIntegers p charTags).isSome = true) ∧
    -2 ^ 31 ≤ db.next .characters ∧
    db.next .characters + (root.children.filter (Xml.describes J (P.byteAt 32))).length ≤ 2 ^ 31

instance (E : Env) (J : Junk) (A : Bytes) (db : Database) (P : Packet) :
    Decidable (Keyed E J A db P) :=
  inferInstanceAs (Decidable (_ ∧ _ ∧ _))

/-- A deletion that passes its check names a character that exists, and the pointer prints as
the owner of that character's items and of no others. -/
def Identifies (J : Junk) (A : Bytes) (db : Database) (P : Packet) : Prop :=
  clean A ∧ clean (P.charPass J) ∧ (PassesCheck J A db P →
    clean (P.charName J) ∧ (∃ ch ∈ db.rows .characters, ch .name = .text (P.charName J)) ∧
    (-2 ^ 31 ≤ J.rowAddr ∧ J.rowAddr < 2 ^ 31) ∧
    ∀ r ∈ db.rows .charItems, r .owner = .int J.rowAddr ↔ Carried db (P.charName J) r)

instance (J : Junk) (A : Bytes) (db : Database) (P : Packet) : Decidable (Identifies J A db P) :=
  inferInstanceAs (Decidable (_ ∧ _ ∧ _))

/-- Characters are created with usable keys, and deleted where the pointer happens to stand for
the key. -/
def OwnersKept (E : Env) (s : Server) : Step → Prop
  | .packet c P J => c ∈ s.clientList → ∀ a ∈ s.session c,
    (P.opcode = 0x020f → Keyed E J a.username.str s.db P) ∧
    (P.opcode = 0x0211 → Identifies J a.username.str s.db P)
  | _ => True

instance (E : Env) (s : Server) : (i : Step) → Decidable (OwnersKept E s i)
  | .packet c P J => inferInstanceAs (Decidable (c ∈ s.clientList → ∀ a ∈ s.session c,
      (P.opcode = 0x020f → Keyed E J a.username.str s.db P) ∧
      (P.opcode = 0x0211 → Identifies J a.username.str s.db P)))
  | .addUser _ | .disconnectClient _ | .visiblityList .. => .isTrue trivial

variable {E : Env} {J : Junk} {c : Ptr} {s t : Server} {P : Packet} {A b : Bytes}
  {db db' : Database} {cl : CConnClient}

/-! ## Tables -/

/-- Items have owners, and characters have keys that fit their column. -/
structure Intact (db : Database) : Prop where
  owned : Owned db
  keys : ∀ r ∈ db.rows .characters, ∃ n, r .id = .int n ∧ -2 ^ 31 ≤ n ∧ n < 2 ^ 31

theorem Intact.of_rows (h : Intact db) (hc : db'.rows .characters = db.rows .characters)
    (hi : db'.rows .charItems = db.rows .charItems) : Intact db' where
  owned := by
    unfold Owned
    rw [hc, hi]
    exact h.owned
  keys := by
    rw [hc]
    exact h.keys

/-- The items that are left after a deletion are those of the characters that are left. -/
theorem Intact.removed (h : Intact db) (hr : Removed b db db') : Intact db' where
  owned r hmem := by
    rw [hr.items] at hmem
    obtain ⟨hmem, hnot⟩ := List.mem_filter.mp hmem
    have hnot : ¬ Carried db b r := by simpa using hnot
    obtain ⟨ch, hch, howner⟩ := h.owned r hmem
    refine ⟨ch, ?_, howner⟩
    rw [hr.chars]
    refine List.mem_filter.mpr ⟨hch, ?_⟩
    simpa using fun hname => hnot ⟨ch, hch, hname, howner⟩
  keys r hmem := by
    rw [hr.chars] at hmem
    exact h.keys r (List.mem_of_mem_filter hmem)

theorem Intact.addChar (h : Intact db) (hroom : -2 ^ 31 ≤ db.next .characters ∧
    db.next .characters < 2 ^ 31) (cols : List Col) (vals : List Cell) :
    Intact (db.add .characters cols vals) where
  owned r hr := by
    rw [db.add_rows_of_ne (by decide)] at hr
    obtain ⟨ch, hch, howner⟩ := h.owned r hr
    rw [Db.add_rows]
    exact ⟨ch, List.mem_append_left _ hch, howner⟩
  keys r hr := by
    rw [Db.add_rows] at hr
    rcases List.mem_append.mp hr with hr | hr
    · exact h.keys r hr
    · cases List.mem_singleton.mp hr
      exact ⟨db.next .characters, newRow_key .., hroom⟩

theorem Intact.addItem {n : Int} (h : Intact db) (hch : ∃ ch ∈ db.rows .characters, ch .id = .int n)
    (hn : -2 ^ 31 ≤ n ∧ n < 2 ^ 31) (vals : List Cell) :
    Intact (db.add .charItems itemCols.tail (.text (decimal n) :: vals)) where
  owned r hr := by
    rw [Db.add_rows] at hr
    rw [db.add_rows_of_ne (by decide)]
    rcases List.mem_append.mp hr with hr | hr
    · exact h.owned r hr
    · cases List.mem_singleton.mp hr
      obtain ⟨ch, hch, hid⟩ := hch
      refine ⟨ch, hch, ?_⟩
      rw [hid]
      exact Cell.coerce_int_decimal hn
  keys r hr := by
    rw [db.add_rows_of_ne (by decide)] at hr
    exact h.keys r hr

/-! ## What a packet keeps -/

/-- Owners and keys stay in order. -/
def keepsOwners : Frame Fault Server := .safe (fun s => Intact s.db) fun _ => True

theorem ofDb_keepsOwners : OfDb keepsOwners where
  rel {s t} h := by
    show Intact s.db → Intact t.db
    rw [h]
    exact id
  err _ _ _ := trivial

/-- A statement whose effect is known. -/
theorem keepsAt_doSQL_owners {fmt : String} {args : List Arg}
    (h : ∀ r t, Intact s.db → doSQL E fmt args s = .ok r t → Intact t.db) :
    KeepsAt keepsOwners s (doSQL E fmt args) :=
  ofDb_keepsOwners.doSQL fun r t ht hs => h r t hs ht

theorem newAccount_owners {args : List Arg} {r : Option (List Fetched)}
    (h : doSQL E Query.newAccount args s = .ok r t) : keepsOwners.rel s t := fun hs =>
  hs.of_rows (doSQL_newAccount h (by decide)) (doSQL_newAccount h (by decide))

/-! ## Creating a character -/

theorem keepsAt_createItems_owners {n : Int} {nodes : List Xml}
    (hch : ∃ ch ∈ s.db.rows .characters, ch .id = .int n) :
    KeepsAt keepsOwners s (createItems E n nodes) := by
  induction nodes generalizing s with
  | nil => exact keeps_pure _ s
  | cons p rest ih =>
    refine keepsAt_ite (fun _ => ?_) fun _ => ih hch
    split
    · next slotid itemid add1 add2 add3 val1 val2 val3 _ =>
      have hrow : ∀ r t, doSQL E Query.newItem ([n, slotid, itemid, add1, val1, add2, val2, add3,
          val3].map .int) s = .ok r t → t.db.rows .characters = s.db.rows .characters :=
        fun _ _ => newItem_chars
      refine keepsAt_bind (keepsAt_doSQL_owners fun r t hs h => ?_) fun r t ht =>
        ih (hrow r t ht ▸ hch)
      obtain ⟨m, hm, hrange⟩ := hs.keys _ hch.choose_spec.1
      obtain rfl : n = m := by
        rw [hch.choose_spec.2] at hm
        cases hm
        rfl
      obtain h | ⟨vals, h⟩ := doSQL_newItem_owner
        [slotid, itemid, add1, val1, add2, val2, add3, val3] h <;> rw [h]
      · exact hs
      · exact hs.addItem hch hrange vals
    · exact ih hch

/-- The key that a row of the answer gives. -/
theorem colInt_key {r : Row Col} {m : Int} {n : Int}
    (h : colInt [(r .id).print] 0 s = .ok m t) (hr : r .id = .int n)
    (hn : -2 ^ 31 ≤ n ∧ n < 2 ^ 31) : m = n ∧ s = t := by
  obtain ⟨b, u, hu, h⟩ := of_bind_ok h
  rw [hr] at hu
  cases hu
  cases h
  rw [cstr_decimal, atoi_decimal hn]
  exact ⟨rfl, rfl⟩

/-- Every element that is used describes a character, and there are keys for all of them. -/
structure Ready (J : Junk) (cls : Nat) (db : Database) (nodes : List Xml) : Prop where
  complete : ∀ p ∈ nodes, p.name = className J cls → (readXMLIntegers p charTags).isSome = true
  least : -2 ^ 31 ≤ db.next .characters
  room : db.next .characters + (nodes.filter (Xml.describes J cls)).length ≤ 2 ^ 31

theorem Ready.tail {cls : Nat} {p : Xml} {nodes : List Xml} (h : Ready J cls db (p :: nodes))
    (hnext : db.next .characters ≤ db'.next .characters)
    (hused : db'.next .characters = db.next .characters ∨
      p.describes J cls = true ∧ db'.next .characters = db.next .characters + 1) :
    Ready J cls db' nodes where
  complete q hq := h.complete q (List.mem_cons_of_mem _ hq)
  least := h.least.trans hnext
  room := by
    have hroom := h.room
    rw [List.filter_cons] at hroom
    rcases hused with hsame | ⟨hp, hone⟩
    · split at hroom
      · rw [List.length_cons] at hroom
        omega
      · omega
    · rw [if_pos hp, List.length_cons] at hroom
      omega

theorem readXMLIntegers_length {node : Xml} {tags : List String} {vs : List Int}
    (h : readXMLIntegers node tags = some vs) : vs.length = tags.length := by
  induction tags generalizing vs with
  | nil =>
    cases h
    rfl
  | cons tag tags ih =>
    unfold readXMLIntegers at h
    split at h
    · next hv hvs =>
      cases h
      exact congrArg (· + 1) (ih hvs)
    · cases h

/-- Creating items gives no character a key. -/
theorem createItems_next {charid : Int} {nodes : List Xml}
    (h : createItems E charid nodes s = .ok () t) :
    t.db.next .characters = s.db.next .characters := by
  have hkeeps : Keeps (.same fun s => s.db.next .characters) (createItems E charid nodes) := by
    refine keeps_createItems (fun vs s => ?_) _ _
    cases e : doSQL E Query.newItem (vs.map .int) s with
    | ok r t =>
      refine keepsAt_ok e ?_
      show t.db.next .characters = s.db.next .characters
      obtain h | ⟨vals, h⟩ := doSQL_newItem e <;> rw [h]
      exact s.db.add_next_of_ne (by decide) _ _
    | error _ t => exact keepsAt_error e (by rw [(doSQL_error e).2]; rfl) trivial
  exact hkeeps.rel_ok h

theorem eq_of_length_eight {α : Type} {l : List α} (h : l.length = 8) :
    ∃ a b c d e f g x, l = [a, b, c, d, e, f, g, x] := by
  obtain ⟨a, l, rfl⟩ := List.exists_of_length_succ l h
  have h : l.length = 7 := Nat.succ.inj h
  obtain ⟨b, l, rfl⟩ := List.exists_of_length_succ l h
  have h : l.length = 6 := Nat.succ.inj h
  obtain ⟨c, l, rfl⟩ := List.exists_of_length_succ l h
  have h : l.length = 5 := Nat.succ.inj h
  obtain ⟨d, l, rfl⟩ := List.exists_of_length_succ l h
  have h : l.length = 4 := Nat.succ.inj h
  obtain ⟨e, l, rfl⟩ := List.exists_of_length_succ l h
  have h : l.length = 3 := Nat.succ.inj h
  obtain ⟨f, l, rfl⟩ := List.exists_of_length_succ l h
  have h : l.length = 2 := Nat.succ.inj h
  obtain ⟨g, l, rfl⟩ := List.exists_of_length_succ l h
  have h : l.length = 1 := Nat.succ.inj h
  obtain ⟨x, l, rfl⟩ := List.exists_of_length_succ l h
  obtain rfl := List.eq_nil_of_length_eq_zero (Nat.succ.inj h)
  exact ⟨a, b, c, d, e, f, g, x, rfl⟩

theorem eq_of_length_nine {α : Type} {l : List α} (h : l.length = 9) :
    ∃ a b c d e f g x y, l = [a, b, c, d, e, f, g, x, y] := by
  obtain ⟨a, l, rfl⟩ := List.exists_of_length_succ l h
  obtain ⟨b, c, d, e, f, g, x, y, rfl⟩ := eq_of_length_eight (Nat.succ.inj h)
  exact ⟨a, b, c, d, e, f, g, x, y, rfl⟩

theorem keepsAt_createChars_owners {name u : Bytes} {pos cls : Nat} {charid : Int}
    {nodes : List Xml} (hname : clean name) (hu : clean u) (hn : Ready J cls s.db nodes) :
    KeepsAt keepsOwners s (createChars E J u name cls pos charid nodes) := by
  have hB := (ofDb_keepsOwners.ordinary 0).toBasic
  induction nodes generalizing s charid with
  | nil => exact keeps_pure _ s
  | cons p rest ih =>
    refine keepsAt_ite (fun hp => ?_) fun _ => ih (hn.tail (Int.le_refl _) (.inl rfl))
    obtain ⟨vs, hattrs⟩ := Option.isSome_iff_exists.mp (hn.complete p List.mem_cons_self hp)
    have hdesc : p.describes J cls = true := by simp [Xml.describes, hp, hattrs]
    have hroom := hn.room
    rw [List.filter_cons_of_pos hdesc, List.length_cons] at hroom
    split
    · next mobid level cstr cint cdex ccon skpts stpts skmpts _ =>
      have hnew : ∀ r t, doSQL E Query.newChar [txt name, txt u, .int mobid, .int cstr, .int cint,
          .int cdex, .int ccon, .int pos, .int cls, .int skpts, .int stpts, .int skmpts,
          .int level] s = .ok r t → t.db = s.db ∨ _ := fun r t h => doSQL_newChar hname hu h
      refine keepsAt_bind (keepsAt_doSQL_owners fun r t hs h => ?_) fun r t ht => ?_
      · obtain h | h := hnew r t h <;> rw [h]
        · exact hs
        · exact hs.addChar ⟨hn.least, by omega⟩ _ _
      have hready : Ready J cls t.db rest := by
        obtain h | h := hnew r t ht <;> rw [h]
        · exact hn.tail (Int.le_refl _) (.inl rfl)
        · have hnext : (s.db.add .characters newCharCols (newCharVals name u mobid cstr cint cdex
              ccon pos cls skpts stpts skmpts level)).next .characters =
                s.db.next .characters + 1 := Db.add_next ..
          exact hn.tail (by rw [hnext]; omega) (.inr ⟨hdesc, hnext⟩)
      refine keepsAt_bind (keeps_select hB (by simp [Query.selects]) _ t) fun q v hv => ?_
      have hdb : v.db = t.db := doSQL_db (by simp [Query.selects]) hv
      have hrows := fun rows (hq : q = some rows) => doSQL_rows (parse_charId hname) (hq ▸ hv)
      rw [← hdb] at hready hrows
      rcases q with _ | _ | ⟨row, rows⟩
      · exact keeps_pure _ v
      · exact keeps_throw_nullPtr hB v
      refine keepsAt_safe fun hs => ?_
      -- The row is one of a character with the name, and gives its key.
      have hmem : row ∈ fetch v.db [.id] .characters (nameCond name) :=
        hrows _ rfl ▸ List.mem_cons_self
      obtain ⟨ch, hch, rfl⟩ := List.mem_map.mp hmem
      have hch : ch ∈ v.db.rows .characters := List.mem_of_mem_filter hch
      obtain ⟨n, hid, hrange⟩ := hs.keys ch hch
      refine keepsAt_bind (keeps_colInt hB _ _ v) fun m x hx => ?_
      obtain ⟨rfl, rfl⟩ := colInt_key hx hid hrange
      refine keepsAt_bind (keepsAt_createItems_owners ⟨ch, hch, hid⟩) fun _ y hy => ih ?_
      have hnext := createItems_next hy
      exact ⟨hready.complete, hnext ▸ hready.least, hnext ▸ hready.room⟩
    · next hne =>
      have hlen : vs.length = 9 := readXMLIntegers_length hattrs
      obtain ⟨a, b, d, e, f, g, x, y, z, rfl⟩ := eq_of_length_nine hlen
      exact absurd hattrs (hne a b d e f g x y z)

/-! ## Deleting a character -/

/-- The tables after both deletions. -/
def without (db : Database) (b : Bytes) (addr : Int) : Database :=
  (db.restrict .charItems fun r => !holds (ownerCond addr) r).restrict .characters fun r =>
    !holds (nameCond b) r

theorem OneAccount.length_le {u p : Bytes} (h : OneAccount db u p) : p.length ≤ 12 := by
  obtain ⟨r, hr⟩ := List.exists_mem_of_length_pos (Nat.lt_of_lt_of_eq Nat.one_pos h.symm)
  obtain ⟨hr, hholds⟩ := List.mem_filter.mp hr
  have hp : (r .password).HasKind (.text 12) := db.typed _ r hr .password
  have heq : (r .password).eq (.text p) = true := by
    simp only [accountCond, holds, List.any_cons, List.any_nil, Bool.or_false, List.all_cons,
      List.all_nil, Bool.and_true, Bool.and_eq_true] at hholds
    exact hholds.2
  rw [hp.eq_text] at heq
  rw [heq] at hp
  exact hp

/-- Rows that a condition holds of are found. -/
theorem fetch_ne_nil {cols : List Col} {tb : Table} {w : Cond Col Bytes} {r : Row Col}
    (hr : r ∈ db.rows tb) (h : holds w r = true) : fetch db cols tb w ≠ [] := by
  intro hnil
  have hmem := List.mem_map_of_mem (f := fun r => cols.map fun k => (r k).print)
    (List.mem_filter.mpr ⟨hr, h⟩)
  have hnil : ((db.rows tb).filter (holds w)).map (fun r => cols.map fun k => (r k).print) = [] :=
    hnil
  rw [hnil] at hmem
  cases hmem

/-- A deletion that passes its check, of a character that exists. -/
theorem charDelete_apply (hE : E.sql.Answers) (hcl : s.heap c = some cl)
    (hA : clean cl.playerSession.username.str) (hp : clean (P.charPass J))
    (hcheck : PassesCheck J cl.playerSession.username.str s.db P) (hd : clean (P.charName J))
    (hnamed : ∃ ch ∈ s.db.rows .characters, ch .name = .text (P.charName J))
    (haddr : -2 ^ 31 ≤ J.rowAddr ∧ J.rowAddr < 2 ^ 31) :
    ∃ u, u.db = without s.db (P.charName J) J.rowAddr ∧
      charDelete E J c P s = resendCharList E J c u := by
  obtain ⟨hmapped, hone⟩ := hcheck
  obtain ⟨ch, hch, hname⟩ := hnamed
  have hpass : Short (txt (P.charPass J)) := short_txt (hone.length_le.trans (by omega))
  have hshort : Short (txt (P.charName J)) := short_txt (name_length_le hch hname)
  have huser : Short (txt cl.playerSession.username.str) := short_txt (username_length _)
  let s2 : Server := { s with reads := s.reads ++ List.range' 16 15 ++ List.range' 32 12 }
  let s4 : Server := { s2 with sqlCalls := s2.sqlCalls + 1 }
  let s5 : Server := { s4 with sqlCalls := s4.sqlCalls + 1 }
  let s6 : Server := { s5 with
    db := s.db.restrict .charItems fun r => !holds (ownerCond J.rowAddr) r
    sqlCalls := s5.sqlCalls + 1 }
  obtain ⟨row2, rows2, hrow2⟩ : ∃ row2 rows2, fetch s.db [.id] .characters
      (nameCond (P.charName J)) = row2 :: rows2 :=
    List.exists_cons_of_ne_nil (fetch_ne_nil hch ((holds_nameCond hch).mpr hname))
  have h1 : rd P 16 15 s = .ok _ _ := rd_apply (by omega) s
  have h2 : rd P 32 12 { s with reads := s.reads ++ List.range' 16 15 } = .ok _ s2 :=
    rd_apply (by omega) _
  have h3 : client c s2 = .ok cl s2 := client_of_some hcl
  have h4 : doSQL E Query.ownAccount [txt cl.playerSession.username.str, txt (P.charPass J)] s2 =
      .ok (some (fetch s.db Table.accounts.columns .accounts (accountCond
        cl.playerSession.username.str .password (P.charPass J)))) s4 :=
    doSQL_answer hE (parse_ownAccount hA hp) (fits (by decide +kernel) (by simp [huser, hpass]))
  have hrows : (fetch s.db Table.accounts.columns .accounts (accountCond
      cl.playerSession.username.str .password (P.charPass J))).length = 1 := by
    rw [fetch, List.length_map]
    exact hone
  have h5 : doSQL E Query.charId [txt (P.charName J)] s4 = .ok (some (row2 :: rows2)) s5 := by
    rw [← hrow2]
    exact doSQL_answer hE (parse_charId hd) (fits (by decide +kernel) (by simp [hshort]))
  have h6 : doSQL E Query.deleteItems [.str ((row2[0]?).join.getD []) J.rowAddr] s5 =
      .ok (some []) s6 := by
    refine doSQL_answer hE (parse_deleteItems _ _) ?_
    rw [print_deleteItems]
    exact fits (by decide +kernel) (by simp [short_int haddr])
  have h7 : doSQL E Query.deleteChar [txt (P.charName J)] s6 = .ok (some []) { s6 with
      db := without s.db (P.charName J) J.rowAddr, sqlCalls := s6.sqlCalls + 1 } :=
    doSQL_answer hE (parse_deleteChar hd) (fits (by decide +kernel) (by simp [hshort]))
  refine ⟨{ s6 with
      db := without s.db (P.charName J) J.rowAddr, sqlCalls := s6.sqlCalls + 1 }, rfl,
    (bind_ok h1).trans ((bind_ok h2).trans ((bind_ok h3).trans ((bind_ok h4).trans ?_)))⟩
  show (if _ then _ else _ : M Bool) s4 = _
  rw [if_pos hrows]
  exact (bind_ok h5).trans ((bind_ok h6).trans (bind_ok h7))

/-- Where the pointer stands for the key, the right rows are removed. -/
theorem removed_without {addr : Int}
    (h : ∀ r ∈ db.rows .charItems, r .owner = .int addr ↔ Carried db b r) :
    Removed b db (without db b addr) where
  chars := by
    rw [without, Db.restrict_rows, db.restrict_rows_of_ne (by decide)]
    refine List.filter_congr fun r hr => ?_
    rw [Bool.eq_iff_iff, Bool.not_eq_true', decide_eq_true_iff, ← Bool.not_eq_true]
    exact not_congr (holds_nameCond hr)
  items := by
    rw [without, Db.restrict_rows_of_ne _ (by decide), Db.restrict_rows]
    refine List.filter_congr fun r hr => ?_
    rw [Bool.eq_iff_iff, Bool.not_eq_true', decide_eq_true_iff, ← Bool.not_eq_true]
    exact not_congr ((holds_ownerCond hr addr).trans (h r hr))
  rest tb hc hi := by
    rw [without, Db.restrict_rows_of_ne _ hc, Db.restrict_rows_of_ne _ hi]

/-- What leaves the tables as they are. -/
def sameDb : Frame Fault Server := .same (·.db)

theorem ofDb_sameDb : OfDb sameDb := ⟨fun h => h, fun _ _ => trivial⟩

theorem charDelete_db (hE : E.sql.Answers) (hcl : s.heap c = some cl)
    (h : Identifies J cl.playerSession.username.str s.db P) :
    (PassesCheck J cl.playerSession.username.str s.db P →
      Removed (P.charName J) s.db (fin (charDelete E J c P s)).db) ∧
    (¬ PassesCheck J cl.playerSession.username.str s.db P →
      (fin (charDelete E J c P s)).db = s.db) := by
  have hO := ofDb_sameDb.ordinary c
  have hresend := keeps_resendCharList (E := E) (J := J) hO.toBasic hO.derefs (ofDb_sameDb.lists c)
  obtain ⟨hA, hp, hidentifies⟩ := h
  constructor
  · intro hcheck
    obtain ⟨hd, hnamed, haddr, howner⟩ := hidentifies hcheck
    obtain ⟨u, hu, happly⟩ := charDelete_apply hE hcl hA hp hcheck hd hnamed haddr
    have hkeep : (fin (resendCharList E J c u)).db = u.db := (hresend u).rel
    rw [happly, hkeep, hu]
    exact removed_without howner
  · intro hcheck
    refine (keepsAt_charDelete hO.toBasic hO.derefs hO.reads hresend
      fun cl' _ _ _ hcl' hmapped hone _ => ?_).rel
    rw [hcl] at hcl'
    cases hcl'
    exact absurd ⟨hmapped, hone hA hp⟩ hcheck

/-! ## Runs -/

theorem keepsAt_packet_owners (hE : E.sql.Answers) (h : OwnersKept E s (.packet c P J)) :
    KeepsAt keepsOwners s (exec E (.packet c P J)) := by
  have hF := ofDb_keepsOwners
  have hO := hF.ordinary c
  have hsession : ∀ l cl, (s.received c l).heap c = some cl →
      s.session c = some cl.playerSession := by
    intro l cl hcl
    have heq := congrFun (quiet_received s c l).session c
    rw [← heq, Server.session, hcl]
    rfl
  refine hF.packet (fun _ _ _ _ => newAccount_owners) (fun hc ho l => ?_) fun hc ho l => ?_
  · refine keepsAt_charCreate hO.toBasic hO.derefs hO.reads
      (keeps_resendCharList hO.toBasic hO.derefs (hF.lists c)) fun cl root l' n hcl hroot _ => ?_
    obtain ⟨hA, hname, hxml⟩ := (h hc _ (hsession l cl hcl)).1 ho
    obtain ⟨hcomplete, hleast, hroom⟩ := hxml root hroot
    exact keepsAt_createChars_owners hname hA ⟨hcomplete, hleast, hroom⟩
  · cases hcl : (s.received c l).heap c with
    | none =>
      refine keepsAt_charDelete hO.toBasic hO.derefs hO.reads
        (keeps_resendCharList hO.toBasic hO.derefs (hF.lists c)) fun cl _ _ _ hcl' _ _ _ => ?_
      rw [hcl] at hcl'
      cases hcl'
    | some cl =>
      have hdb := charDelete_db (E := E) hE hcl ((h hc _ (hsession l cl hcl)).2 ho)
      refine ⟨fun hs => ?_, fun _ _ => trivial⟩
      by_cases hcheck : PassesCheck J cl.playerSession.username.str (s.received c l).db P
      · exact Intact.removed hs (hdb.1 hcheck)
      · show Intact (fin (charDelete E J c P (s.received c l))).db
        rw [hdb.2 hcheck]
        exact hs

theorem intact_step (hE : E.sql.Answers) (hs : s.Sound) {i : Step} (h : OwnersKept E s i) :
    KeepsAt keepsOwners s (exec E i) :=
  ofDb_keepsOwners.step hs fun _ _ _ hi => by
    subst hi
    exact keepsAt_packet_owners hE h

theorem OwnersKept.deletes (hE : E.sql.Answers) {i : Step} (h : OwnersKept E s i) :
    Deletes E s i := by
  cases i with
  | packet c P J =>
    intro hc ho a ha hcheck
    obtain ⟨hA, hp, hidentifies⟩ := (h hc a ha).2 ho
    have hex := (hidentifies hcheck).2.1
    refine ⟨?_, fun hnone => ?_⟩
    · have hlen : 8 ≤ P.mem.length := by
        have := hcheck.1
        omega
      obtain ⟨cl, hcl, rfl⟩ := Option.map_eq_some_iff.mp ha
      have hcl' : (s.dispatched c).heap c = some { cl with recvpkts := cl.recvpkts + 1 } := by
        rw [Server.dispatched, Server.received_heap, hcl]
        rfl
      have hremoved := (charDelete_db (E := E) (s := s.dispatched c) hE hcl'
        ⟨hA, hp, hidentifies⟩).1 hcheck
      rw [exec_packet hc hlen, fin_bind_pure, ho]
      exact hremoved
    · obtain ⟨ch, hch, hname⟩ := hex
      exact absurd hname (hnone ch hch)
  | _ => trivial

/-- A Transknight starts with a weapon. -/
def Env.withItem : Env :=
  { Env.plain with startChar := some (.node (ascii "startitems") []
      [.node (ascii "transknight") (charTags.map fun tag => (ascii tag, ascii "1"))
        [.node (ascii "inventory") (itemTags.map fun tag => (ascii tag, ascii "1")) []]]) }

/-- An account creates a character and deletes it; its row is at the given address. -/
def createsAndDeletes (addr : Int) : List Step :=
  creates 0 ++ [.packet 0 (deleteFrame (ascii "hero") (ascii "pw")) { rowAddr := addr }]

/-- There is nobody whose items could be lost. -/
example : Owned newcomer := by decide +kernel

end Destiny
