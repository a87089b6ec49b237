import Destiny.Server.Session

/-!
# Other accounts' characters

A packet from a client logged in as `A` may change the rows of the tables. Deleting a
character goes by its name alone, and takes the items of whatever owner a pointer prints
as; creating one goes wrong only where a text ends its literal. The rows of the other
accounts stay as they are as long as the names a packet deletes are `A`'s own and the texts
it puts into statements are clean.
-/

namespace Destiny

open Text Sql Prog

/-- A character of another account than `A`. -/
def Foreign (A : Bytes) (r : Row Col) : Prop := r .uid ≠ .text A

instance (A : Bytes) (r : Row Col) : Decidable (Foreign A r) := inferInstanceAs (Decidable (_ ≠ _))

/-- An item whose owner is such a character. -/
def ForeignItem (A : Bytes) (db : Database) (r : Row Col) : Prop :=
  ∃ ch ∈ db.rows .characters, Foreign A ch ∧ r .owner = ch .id

instance (A : Bytes) (db : Database) (r : Row Col) : Decidable (ForeignItem A db r) :=
  inferInstanceAs (Decidable (∃ ch ∈ db.rows .characters, _))

/-- The other accounts' characters and their items are all still there, as they were. -/
structure Unharmed (A : Bytes) (db db' : Database) : Prop where
  chars : ((db.rows .characters).filter fun r => Foreign A r).Sublist (db'.rows .characters)
  items : ((db.rows .charItems).filter fun r => ForeignItem A db r).Sublist (db'.rows .charItems)

instance (A : Bytes) (db db' : Database) : Decidable (Unharmed A db db') :=
  decidable_of_iff (_ ∧ _) ⟨fun h => ⟨h.1, h.2⟩, fun h => ⟨h.chars, h.items⟩⟩

/-- What a packet from a client logged in as `A` may create and delete: a character whose
name, like `A`, is clean; and characters of `A`, the owner the pointer prints as having none of
the other accounts' items. -/
def OwnRows (J : Junk) (A : Bytes) (db : Database) (P : Packet) : Prop :=
  (P.opcode = 0x020f → clean A ∧ clean (P.charName J)) ∧
  (P.opcode = 0x0211 → (clean A → clean (P.charPass J) → OneAccount db A (P.charPass J)) →
    clean (P.charName J) ∧
    ((∃ r ∈ db.rows .characters, r .name = .text (P.charName J)) →
      (∀ r ∈ db.rows .characters, r .name = .text (P.charName J) → ¬ Foreign A r) ∧
      ∀ r ∈ db.rows .charItems, r .owner = .int J.rowAddr → ¬ ForeignItem A db r))

instance (db : Database) (u p : Bytes) : Decidable (OneAccount db u p) :=
  inferInstanceAs (Decidable (_ = _))

instance (J : Junk) (A : Bytes) (db : Database) (P : Packet) : Decidable (OwnRows J A db P) :=
  inferInstanceAs (Decidable (_ ∧ _))

/-- Every packet from a logged-in client only touches rows of its account. -/
def TouchesOwn (s : Server) : Step → Prop
  | .packet c P J => ∀ a ∈ s.session c, a.isLoggedIn = true → OwnRows J a.username.str s.db P
  | _ => True

instance (s : Server) : (i : Step) → Decidable (TouchesOwn s i)
  | .packet c P J => inferInstanceAs (Decidable (∀ a ∈ s.session c, a.isLoggedIn = true →
      OwnRows J a.username.str s.db P))
  | .addUser _ | .disconnectClient _ | .visiblityList .. => .isTrue trivial

/-- A packet from a client logged in as an account leaves the rows of the others as they are. -/
def LeavesOthers (E : Env) (s : Server) : Step → Prop
  | .packet c P J => ∀ a ∈ s.session c, a.isLoggedIn = true →
    Unharmed a.username.str s.db (fin (exec E (.packet c P J) s)).db
  | _ => True

instance (E : Env) (s : Server) : (i : Step) → Decidable (LeavesOthers E s i)
  | .packet c P J => inferInstanceAs (Decidable (∀ a ∈ s.session c, a.isLoggedIn = true →
      Unharmed a.username.str s.db (fin (exec E (.packet c P J) s)).db))
  | .addUser _ | .disconnectClient _ | .visiblityList .. => .isTrue trivial

variable {E : Env} {J : Junk} {c : Ptr} {s t : Server} {P : Packet} {A : Bytes}
  {db db' db'' : Database}

/-! ## What leaves the others' rows -/

theorem Unharmed.refl (A : Bytes) (db : Database) : Unharmed A db db :=
  ⟨List.filter_sublist, List.filter_sublist⟩

section Filter
variable {α : Type} {p q : α → Bool} {l l' l'' : List α}

theorem filter_sublist_filter (h : ∀ x ∈ l, p x = true → q x = true) :
    (l.filter p).Sublist (l.filter q) := by
  have hsame : l.filter p = (l.filter q).filter p := by
    rw [List.filter_filter]
    refine List.filter_congr fun x hx => ?_
    cases hp : p x with
    | true => simp [h x hx hp]
    | false => simp
  rw [hsame]
  exact List.filter_sublist

/-- A part of a list that is kept twice. -/
theorem filter_sublist_trans (hpq : ∀ x, p x = true → q x = true) (h : (l.filter p).Sublist l')
    (h' : (l'.filter q).Sublist l'') : (l.filter p).Sublist l'' := by
  have hp : (l.filter p).Sublist (l'.filter p) := by simpa using h.filter p
  exact hp.trans ((filter_sublist_filter fun x _ => hpq x).trans h')

end Filter

theorem Unharmed.foreignItem (h : Unharmed A db db') {r : Row Col} (hr : ForeignItem A db r) :
    ForeignItem A db' r := by
  obtain ⟨ch, hch, hf, ho⟩ := hr
  exact ⟨ch, h.chars.subset (List.mem_filter.mpr ⟨hch, by simpa using hf⟩), hf, ho⟩

theorem Unharmed.trans (h : Unharmed A db db') (h' : Unharmed A db' db'') : Unharmed A db db'' where
  chars := filter_sublist_trans (fun _ h => h) h.chars h'.chars
  items := filter_sublist_trans (fun r hr => by simpa using h.foreignItem (by simpa using hr))
    h.items h'.items

/-- Both tables keep what they had. -/
theorem Unharmed.of_sublist (hc : (db.rows .characters).Sublist (db'.rows .characters))
    (hi : (db.rows .charItems).Sublist (db'.rows .charItems)) : Unharmed A db db' :=
  ⟨List.filter_sublist.trans hc, List.filter_sublist.trans hi⟩

theorem Unharmed.add (A : Bytes) (db : Database) (tb : Table) (cols : List Col) (vals : List Cell) :
    Unharmed A db (db.add tb cols vals) := by
  have hadd : ∀ u, (db.rows u).Sublist ((db.add tb cols vals).rows u) := by
    intro u
    by_cases hu : u = tb
    · subst hu
      rw [Db.add_rows]
      exact List.sublist_append_left _ _
    · rw [db.add_rows_of_ne hu]
  exact .of_sublist (hadd _) (hadd _)

theorem Unharmed.restrict_chars {p : Row Col → Bool}
    (hp : ∀ r ∈ db.rows .characters, Foreign A r → p r = true) :
    Unharmed A db (db.restrict .characters p) where
  chars := by
    rw [Db.restrict_rows]
    exact filter_sublist_filter fun r hr hf => hp r hr (by simpa using hf)
  items := by
    rw [db.restrict_rows_of_ne (by decide)]
    exact List.filter_sublist

theorem Unharmed.restrict_items {p : Row Col → Bool}
    (hp : ∀ r ∈ db.rows .charItems, ForeignItem A db r → p r = true) :
    Unharmed A db (db.restrict .charItems p) where
  chars := by
    rw [db.restrict_rows_of_ne (by decide)]
    exact List.filter_sublist
  items := by
    rw [Db.restrict_rows]
    exact filter_sublist_filter fun r hr hf => hp r hr (by simpa using hf)

/-! ## What a packet may do to them -/

/-- A call leaves the rows of the other accounts than `A` as they are. -/
def sparesOthers (A : Bytes) : Frame Fault Server where
  rel s t := Unharmed A s.db t.db
  err _ _ := True
  refl _ := .refl A _
  trans := Unharmed.trans
  err_trans _ h := h

theorem ofDb_sparesOthers (A : Bytes) : OfDb (sparesOthers A) where
  rel {s t} h := by
    change Unharmed A s.db t.db
    rw [h]
    exact .refl A _
  err _ _ := trivial

/-- A statement whose effect is known. -/
theorem keepsAt_doSQL_spares {fmt : String} {args : List Arg}
    (h : ∀ r t, doSQL E fmt args s = .ok r t → Unharmed A s.db t.db) :
    KeepsAt (sparesOthers A) s (doSQL E fmt args) :=
  (ofDb_sparesOthers A).doSQL h

theorem newAccount_spares {args : List Arg} {r : Option (List Fetched)}
    (h : doSQL E Query.newAccount args s = .ok r t) : Unharmed A s.db t.db :=
  .of_sublist (by rw [doSQL_newAccount h (by decide)]) (by rw [doSQL_newAccount h (by decide)])

/-- Creating a character only adds rows. -/
theorem keepsAt_charCreate_spares
    (hu : ∀ cl, s.heap c = some cl → clean cl.playerSession.username.str)
    (hn : clean (P.charName J)) : KeepsAt (sparesOthers A) s (charCreate E J c P) := by
  have hF := ofDb_sparesOthers A
  have hO := hF.ordinary c
  have hB := hO.toBasic
  refine keepsAt_charCreate hB hO.derefs hO.reads
    (keeps_resendCharList hB hO.derefs (hF.lists c)) fun cl root l n hcl _ _ => ?_
  refine keeps_createChars hB (fun vs s => ?_) (fun _ _ _ _ _ _ _ _ _ s => ?_) _ _ _
  · refine keepsAt_doSQL_spares fun r t h => ?_
    obtain h | ⟨vals, h⟩ := doSQL_newItem h <;> rw [h]
    · exact .refl A _
    · exact .add A _ _ _ _
  · refine keepsAt_doSQL_spares fun r t h => ?_
    obtain h | h := doSQL_newChar hn (hu cl hcl) h <;> rw [h]
    · exact .refl A _
    · exact .add A _ _ _ _

/-- Deleting the characters with a name, all of them `A`'s. -/
theorem keepsAt_delete_spares {b d : Bytes} {addr : Int} (hd : clean d)
    (hchars : ∀ r ∈ s.db.rows .characters, r .name = .text d → ¬ Foreign A r)
    (hitems : ∀ r ∈ s.db.rows .charItems, r .owner = .int addr → ¬ ForeignItem A s.db r) :
    KeepsAt (sparesOthers A) s (doSQL E Query.deleteItems [.str b addr] >>= fun _ =>
      doSQL E Query.deleteChar [txt d]) := by
  have hfirst : ∀ r t, doSQL E Query.deleteItems [.str b addr] s = .ok r t →
      Unharmed A s.db t.db ∧ t.db.rows .characters = s.db.rows .characters := by
    intro r t h
    obtain h | h := doSQL_delete (parse_deleteItems b addr) h <;> rw [h]
    · exact ⟨.refl A _, rfl⟩
    · refine ⟨.restrict_items fun r hr hf => ?_, s.db.restrict_rows_of_ne (by decide) _⟩
      have hown : r .owner ≠ .int addr := fun ho => hitems r hr ho hf
      simpa using fun hh => hown ((holds_ownerCond hr addr).mp hh)
  refine keepsAt_bind (keepsAt_doSQL_spares fun r t h => (hfirst r t h).1) fun r t ht => ?_
  rw [← (hfirst r t ht).2] at hchars
  refine keepsAt_doSQL_spares fun r u h => ?_
  obtain h | h := doSQL_delete (parse_deleteChar hd) h <;> rw [h]
  · exact .refl A _
  · refine .restrict_chars fun r hr hf => ?_
    simpa using fun hh => hchars r hr ((holds_nameCond hr).mp hh) hf

/-! ## Runs -/

theorem TouchesOwn.leavesOthers {i : Step} (h : TouchesOwn s i) : LeavesOthers E s i := by
  cases i with
  | packet c P J =>
    intro a ha hin
    have hown := h a ha hin
    have hF := ofDb_sparesOthers a.username.str
    have hO := hF.ordinary c
    have hsession : ∀ l cl, (s.received c l).heap c = some cl → cl.playerSession = a := by
      intro l cl hcl
      have heq := congrFun (quiet_received s c l).session c
      rw [ha, Server.session, hcl] at heq
      exact Option.some.inj heq
    refine (hF.packet (fun _ _ _ _ => newAccount_spares) (fun _ ho l => ?_)
      fun _ ho l => ?_).rel
    · refine keepsAt_charCreate_spares (fun cl hcl => ?_) (hown.1 ho).2
      rw [hsession l cl hcl]
      exact (hown.1 ho).1
    · refine keepsAt_charDelete hO.toBasic hO.derefs hO.reads (keeps_resendCharList hO.toBasic
        hO.derefs (hF.lists c)) fun cl _ _ _ hcl _ hone hrow => ?_
      rw [hsession l cl hcl] at hone
      obtain ⟨hd, hrows⟩ := hown.2 ho hone
      exact keepsAt_delete_spares hd (hrows (hrow hd)).1 (hrows (hrow hd)).2
  | _ => trivial

/-- Two accounts with a character each. -/
def rivals : Database :=
  withChar (withAccount (oneAccount 1) (ascii "amy") (ascii "secret") 1) (ascii "rival") (ascii "amy")

def deleteFrame (charname password : Bytes) : Packet :=
  frame 0x0211 ([0, 0, 0, 0] ++ (Field.copy 16 charname).bytes ++ (Field.copy 12 password).bytes)

/-- One logs in and deletes a character. -/
def deletes (charname : Bytes) : List Step :=
  [.addUser {}, .packet 0 (loginFrame (ascii "bob") (ascii "pw")) { now := 100 },
    .packet 0 (deleteFrame charname (ascii "pw")) { rowAddr := 5000 }]

end Destiny
