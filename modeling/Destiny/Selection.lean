import Destiny.Entry
import Destiny.Framing
import Destiny.InGame
import Destiny.Leftover
import Destiny.Loading
import Destiny.Look

/-!
# Which character enters

`SendToWorld` looks up the name of the character in the selected slot, keeps it in the client,
and has `loaddata` look up the character by that name. When the slot is empty the name is still
there from an earlier entry, and nobody asks whether the load has succeeded.
-/

namespace Destiny

open Text Sql Prog

/-- The slot that a world packet selects. -/
def Packet.slot (P : Packet) : Nat := P.byteAt 12

def slotCond (u : Bytes) (k : Nat) : Cond Col Bytes :=
  [[.eq (.col .uid) (.str u), .eq (.col .posid) (.str (decimal k))]]

def charCond (b u : Bytes) : Cond Col Bytes :=
  [[.eq (.col .name) (.str b), .eq (.col .uid) (.str u)]]

/-- The characters in a slot of an account. -/
def inSlot (db : Database) (u : Bytes) (k : Nat) : List (Row Col) :=
  (db.rows .characters).filter fun r => r .uid = .text u ∧ r .posid = .int k

/-- The characters of an account with a name. -/
def named (db : Database) (b u : Bytes) : List (Row Col) :=
  (db.rows .characters).filter fun r => r .name = .text b ∧ r .uid = .text u

/-- A client in the world, with a character: what is loaded is the character's. -/
structure PlaysAs (db : Database) (r : Row Col) (cl : CConnClient) : Prop where
  inGame : cl.playerSession.inGame = true
  ready : cl.ready = true
  name : cl.playerInfo.charName = textOf (r .name)
  data : cl.withChar r = cl
  items : ∀ m, r .id = .int m → ∀ k < 78, cl.items k = stored (ownedBy db .charItems m) (fun _ => {}) k

/-- An entry returns. It changes and sends nothing if the slot is empty, and leads into the world
with its character if it has one. -/
def EntersRight (E : Env) (J : Junk) (c : Ptr) (P : Packet) (s : Server) (u : Bytes) : Prop :=
  ∃ b t, sendToWorld E J c P s = .ok b t ∧
    if inSlot s.db u P.slot = [] then t.heap c = s.heap c ∧ t.plains = s.plains
    else ∃ r ∈ inSlot s.db u P.slot, ∃ cl, t.heap c = some cl ∧ PlaysAs s.db r cl

variable {E : Env} {J : Junk} {c : Ptr} {s t v : Server} {P : Packet} {cl : CConnClient}
  {r : Row Col} {m : Int} {u b : Bytes} {k : Nat} {db : Database} {rows : List Fetched}

/-! ## The two queries -/

theorem parse_charAt (hu : clean u) (k : Nat) :
    parseText schema (vsprintf (ascii Query.charAt) [txt u, .int k]) =
      some (.select [.name] .characters (slotCond u k)) := by
  have hst : compile schema (items (ascii Query.charAt)) = some (.select [.name] .characters
      [[.eq (.col .uid) (.str [.inr (.s, 0)]), .eq (.col .posid) (.str [.inr (.i, 1)])]]) := by rfl
  rw [parseText_of_clean hst (by simp [cleanArg, hu])]
  simp [Stmt.map, Atom.map, Operand.map, slotCond, fill, Arg.print]

set_option maxRecDepth 1000 in
theorem parse_charData (hb : clean b) (hu : clean u) :
    parseText schema (vsprintf (ascii Query.charData) [txt b, txt u]) =
      some (.select charCols .characters (charCond b u)) := by
  have hst : compile schema (items (ascii Query.charData)) = some (.select charCols .characters
      [[.eq (.col .name) (.str [.inr (.s, 0)]), .eq (.col .uid) (.str [.inr (.s, 1)])]]) := by rfl
  rw [parseText_of_clean hst (by simp [cleanArg, hb, hu])]
  simp [Stmt.map, Atom.map, Operand.map, charCond, fill, Arg.print]

theorem fetch_slotCond (cols : List Col) :
    fetch db cols .characters (slotCond u k) = (inSlot db u k).map (printed cols) := by
  have hfilter : (db.rows .characters).filter (holds (slotCond u k)) = inSlot db u k :=
    List.filter_congr fun r hr => by
      have huid : (r .uid).HasKind (.text 16) := db.typed _ r hr .uid
      have hpos : (r .posid).HasKind .int := db.typed _ r hr .posid
      rw [Bool.eq_iff_iff]
      simp [slotCond, holds, Atom.holds, Operand.eval, huid.eq_text, hpos.eq_leading,
        leading_decimal]
  rw [fetch, hfilter]
  rfl

theorem fetch_charCond (cols : List Col) :
    fetch db cols .characters (charCond b u) = (named db b u).map (printed cols) := by
  have hfilter : (db.rows .characters).filter (holds (charCond b u)) = named db b u :=
    List.filter_congr fun r hr => by
      have hname : (r .name).HasKind (.text 16) := db.typed _ r hr .name
      have huid : (r .uid).HasKind (.text 16) := db.typed _ r hr .uid
      rw [Bool.eq_iff_iff]
      simp [charCond, holds, Atom.holds, Operand.eval, huid.eq_text, hname.eq_text]
  rw [fetch, hfilter]
  rfl

/-! ## After the load -/

theorem addByteRun_inBounds {off : Nat} {bs : List Int} (h : off + bs.length ≤ 65355) :
    ∀ w ∈ addByteRun off bs, w.inBounds = true := by
  intro w hw
  obtain ⟨j, hj, rfl⟩ := List.mem_mapIdx.mp hw
  simp only [Write.inBounds, addByte, leBytes_length, decide_eq_true_eq]
  omega

theorem worldFields_inBounds (h : cl.playerInfo.charName.length ≤ 65337) :
    ∀ w ∈ worldFields J cl, w.inBounds = true := by
  have hitems : ∀ w ∈ itemBlock cl.items 116 78, w.inBounds = true := fun w hw => by
    have hin := mem_itemBlock hw
    simp only [Write.inBounds, decide_eq_true_eq]
    omega
  have hrun : ∀ off (bs : List Int), off + bs.length ≤ 65355 →
      ∀ w ∈ addByteRun off bs, w.inBounds = true := fun _ _ h => addByteRun_inBounds h
  rw [worldFields, worldItems_eq]
  simp only [List.forall_mem_append]
  refine ⟨⟨⟨⟨⟨⟨⟨⟨⟨⟨⟨⟨⟨⟨?_, hrun 52 _ (by decide)⟩, ?_⟩, hrun 104 _ (by decide)⟩, ?_⟩,
    hrun 110 _ (by decide)⟩, hrun 744 _ (by decide)⟩, ?_⟩, hrun 760 _ (by decide)⟩,
    hrun 768 _ (by decide)⟩, hrun 778 _ (by decide)⟩, hrun 794 _ (by decide)⟩,
    hrun 828 _ (by decide)⟩, ?_⟩, hitems⟩
  · simp [Write.inBounds, addWord, addByte, addDWord, addStr]
    omega
  · simp [Write.inBounds, addWord, addByte]
  · simp [Write.inBounds, addByte]
  · simp [Write.inBounds, addWord]
  · simp [Write.inBounds, addWord]

theorem showWorld_apply (hcl : s.heap c = some cl) (hname : cl.playerInfo.charName.length ≤ 65337) :
    ∃ t, showWorld J c s = .ok true t := by
  have hin : ∀ w ∈ worldFields J cl, w.inBounds = true := worldFields_inBounds hname
  have hself : spawnCharFields J cl = selfFields J cl := selfFields_eq rfl rfl
  have hin' : ∀ w ∈ selfFields J cl, w.inBounds = true := by
    rw [← hself]
    exact spawnCharFields_inBounds hname
  rw [showWorld, bind_ok (client_of_some hcl)]
  generalize worldFields J cl = ws at hin ⊢
  generalize selfFields J cl = ws' at hin' ⊢
  rw [composed_apply hcl hin]
  generalize hs3 : ({ s with packet := stores ws s.packet } : Server).sent c 1244 = s3
  have h3 : (s3.heap c).isSome = true := by
    rw [← hs3]
    show (s.heap c).isSome = true
    rw [hcl]
    rfl
  let s4 : Server := s3.update c fun cl => { cl with
    playerSession := { cl.playerSession with inGame := true } }
  let s5 : Server := s4.update c fun cl => { cl with ready := true }
  let s6 : Server := { s5 with packet := fun _ => 0 }
  have h4 : (s4.heap c).isSome = true := (s3.update_isSome c _ c).trans h3
  have h5 : (s5.heap c).isSome = true := (s4.update_isSome c _ c).trans h4
  obtain ⟨cl', hcl'⟩ : ∃ cl', s6.heap c = some cl' := Option.isSome_iff_exists.mp h5
  have hsession : modifySession c (fun a => { a with inGame := true }) s3 = .ok () s4 := rfl
  have hready : modifyClient c (fun cl => { cl with ready := true }) s4 = .ok () s5 := rfl
  have hfree : packetFree s5 = .ok () s6 := rfl
  rw [bind_ok hsession, bind_ok hready, bind_ok hfree]
  exact ⟨_, composed_apply hcl' hin'⟩

/-- The two packets of an entry. -/
theorem showWorld_plains {b : Bool} (h : showWorld J c s = .ok b t) :
    t.plains.length = s.plains.length + 2 := by
  obtain ⟨-, cl, -, -, htrace⟩ := showWorld_sent h
  rw [Server.plains, htrace]
  rfl

/-! ## Before the load -/

/-- The state in which the rows of the slot are read. -/
def Server.selected (s : Server) (cl : CConnClient) : Server :=
  { s with
    reads := s.reads ++ List.range' 12 1
    sqlCalls := s.sqlCalls + 1
    packet := stores [addWord 1244 0, addWord 276 4, addWord cl.playerSession.clientid 6] fun _ => 0 }

theorem slotText_fits (u : Field 12) (P : Packet) :
    (vsprintf (ascii Query.charAt) [txt u.str, .int P.slot]).length < 2000 := by
  have hslot : P.slot < 256 := by
    unfold Packet.slot Packet.byteAt
    rcases hb : (P.mem.drop 12).take 1 with _ | ⟨x, _ | ⟨y, l⟩⟩
    · decide
    · show x.toNat + 256 * 0 < 256
      have hx := x.toNat_lt
      omega
    · have hlen := congrArg List.length hb
      simp only [List.length_take, List.length_cons] at hlen
      omega
  refine fits (by decide +kernel) ?_
  simp [short_txt (username_length u), short_int (n := P.slot) (by omega)]

/-- An entry is answered with rows, or refused. -/
theorem sendToWorld_eq (hcl : s.heap c = some cl) (hmem : 13 ≤ P.mem.length) :
    sendToWorld E J c P s = match s.slotRows E c P with
      | none => .ok false { s with
          packet := fun _ => 0, reads := s.reads ++ List.range' 12 1, sqlCalls := s.sqlCalls + 1 }
      | some rows => (selectName c rows >>= fun _ => loaddata E c >>= fun _ => showWorld J c)
          (s.selected cl) := by
  let s1 : Server := { s with packet := fun _ => 0 }
  let s2 : Server := { s1 with reads := s.reads ++ List.range' 12 1 }
  let ws := [addWord 1244 0, addWord 276 4, addWord cl.playerSession.clientid 6]
  have hclient : client c s1 = .ok cl s1 := client_of_some hcl
  have hread : rdInt P 12 1 s1 = .ok P.slot s2 := rdInt_apply (by omega) s1
  have hslot : doSQL E Query.charAt [txt cl.playerSession.username.str, .int P.slot] s2 =
      .ok (s.slotRows E c P) (s2.asked s2.reads (s.sqlCalls + 1)) := by
    rw [doSQL_select (by simp [Query.selects]) (slotText_fits cl.playerSession.username P),
      Server.slotRows, Server.session, hcl]
    rfl
  have hin : ∀ w ∈ ws, w.inBounds = true := by simp [ws, Write.inBounds, addWord]
  rw [sendToWorld, bind_ok (show packetFree s = .ok () s1 from rfl), bind_ok hclient, bind_ok hread]
  refine (bind_ok hslot).trans ?_
  cases s.slotRows E c P with
  | none => rfl
  | some rows => exact bind_ok (writes_apply hin _)

/-! ## An empty slot -/

theorem plains_of_unsent (h : unsent.rel s t) : t.plains = s.plains := by
  obtain ⟨⟨es, htrace, hes⟩, -⟩ := h
  have hnone : es.filterMap Event.plain = [] := by
    refine List.filterMap_eq_nil_iff.mpr fun e he => ?_
    cases hp : e.plain with
    | none => rfl
    | some p => exact (hes e he p.1 p.2 hp).elim
  rw [Server.plains, htrace, List.filterMap_append, hnone]
  rfl

/-- An entry that is not refused sends its packets, whatever the slot holds. -/
theorem sendToWorld_plains {b : Bool} (hcl : s.heap c = some cl) (hmem : 13 ≤ P.mem.length)
    (hrows : s.slotRows E c P = some rows) (h : sendToWorld E J c P s = .ok b t) :
    t.plains.length = s.plains.length + 2 := by
  rw [sendToWorld_eq hcl hmem, hrows] at h
  obtain ⟨_, v, hv, h⟩ := of_bind_ok h
  obtain ⟨_, w, hw, h⟩ := of_bind_ok h
  have hselect : v.plains = (s.selected cl).plains :=
    plains_of_unsent ((calm_unsent.selectName rows).rel_ok hv)
  have hload : w.plains = v.plains := plains_of_unsent (calm_unsent.loaddata.rel_ok hw)
  rw [showWorld_plains h, hload, hselect]
  rfl

theorem entersRight_empty (hcl : s.heap c = some cl) (hmem : 13 ≤ P.mem.length)
    (hempty : inSlot s.db u P.slot = []) :
    EntersRight E J c P s u ↔ s.slotRows E c P = none := by
  constructor
  · rintro ⟨b, t, hrun, hsame⟩
    rw [if_pos hempty] at hsame
    cases hrows : s.slotRows E c P with
    | none => rfl
    | some rows =>
      have hsent := sendToWorld_plains hcl hmem hrows hrun
      rw [hsame.2] at hsent
      omega
  · intro hnone
    rw [EntersRight, sendToWorld_eq hcl hmem, hnone]
    refine ⟨false, _, rfl, ?_⟩
    rw [if_pos hempty]
    exact ⟨rfl, rfl⟩

/-! ## A character in the slot -/

/-- The slot holds one character, the only one of the account with its name; the texts are clean,
and every statement is answered. -/
structure Selects (E : Env) (s : Server) (u : Bytes) (k : Nat) (r : Row Col) (b : Bytes) (m : Int) :
    Prop where
  answers : E.sql.Answers
  user : clean u
  slot : inSlot s.db u k = [r]
  name : r .name = .text b
  whole : (0 : UInt8) ∉ b
  cleanName : clean b
  only : named s.db b u = [r]
  id : r .id = .int m
  range : -2 ^ 31 ≤ m ∧ m < 2 ^ 31

section Character
variable (hcl : s.heap c = some cl) (hmem : 13 ≤ P.mem.length)
  (h : Selects E s cl.playerSession.username.str P.slot r b m)
include hcl h

omit hcl in
theorem Selects.row : r ∈ s.db.rows .characters := by
  have hmem : r ∈ inSlot s.db cl.playerSession.username.str P.slot := by
    rw [h.slot]
    exact List.mem_singleton.mpr rfl
  exact List.mem_of_mem_filter hmem

theorem Selects.slotRows : s.slotRows E c P = some [printed [.name] r] := by
  rw [Server.slotRows, Server.session, hcl]
  show (E.sql.query s.sqlCalls s.db (vsprintf (ascii Query.charAt)
    [txt cl.playerSession.username.str, .int P.slot])).2 = _
  rw [h.answers _ _ _ _ (parse_charAt h.user P.slot)]
  show some (fetch _ _ _ _) = _
  rw [fetch_slotCond, h.slot]
  rfl

omit hcl in
theorem Selects.textOf_name : textOf (r .name) = b := by
  rw [h.name]
  exact cstr_eq_self fun x hx hzero => h.whole (hzero ▸ hx)

omit hcl in
theorem Selects.selectName {v : Server} : selectName c [printed [.name] r] v =
    .ok () (v.update c fun cl => { cl with playerInfo := { cl.playerInfo with charName := b } }) := by
  have hlen : b.length < 30 := by
    have := name_length_le h.row h.name
    omega
  have hcol : col (printed [.name] r) 0 v = .ok b v := by
    rw [col_printed rfl (by rw [h.name]; exact Cell.noConfusion), h.textOf_name]
  have hname : colName (printed [.name] r) 0 v = .ok b v := by
    rw [colName, bind_ok hcol, check, if_pos hlen]
    rfl
  rw [Destiny.selectName, bind_ok hname]
  rfl

/-- The client that loads the character. -/
def CConnClient.called (cl : CConnClient) (b : Bytes) : CConnClient :=
  { cl with playerInfo := { cl.playerInfo with charName := b } }

/-- The server when it loads the character. -/
def Server.loading (s : Server) (c : Ptr) (cl : CConnClient) (b : Bytes) : Server :=
  (s.selected cl).update c (·.called b)

omit h in
theorem loading_heap : (s.loading c cl b).heap c = some (cl.called b) := by
  show (if c = c then (s.heap c).map _ else _) = _
  rw [if_pos rfl, hcl]
  rfl

omit hcl in
theorem Selects.charAnswer : (s.loading c cl b).answer E 0 Query.charData
    [txt (cl.called b).playerInfo.charName, txt (cl.called b).playerSession.username.str] =
      some [printed charCols r] := by
  show (E.sql.query _ s.db (vsprintf (ascii Query.charData)
    [txt b, txt cl.playerSession.username.str])).2 = _
  rw [h.answers _ _ _ _ (parse_charData h.cleanName h.user)]
  show some (fetch _ _ _ _) = _
  rw [fetch_charCond, h.only]
  rfl

omit hcl in
theorem Selects.itemAnswer :
    ((s.loading c cl b).answer E 1 Query.charItems [txt (decimal m)]).isSome := by
  show ((E.sql.query _ s.db (vsprintf (ascii Query.charItems) [txt (decimal m)])).2).isSome = true
  rw [h.answers _ _ _ _ (parse_charItems m)]
  rfl

/-- The character has no `NULL`, its item rows are all in the array, and the last slot has one or
was empty. -/
structure Loadable (db : Database) (r : Row Col) (m : Int) (cl : CConnClient) : Prop where
  full : ∀ k ∈ charCols, r k ≠ .null
  slots : ∀ i ∈ ownedBy db .charItems m, InArray 78 i
  last : (∃ i ∈ ownedBy db .charItems m, slotOf i = 77) ∨ cl.items 77 = {}

include hmem in
theorem Selects.enters_loadable :
    EntersRight E J c P s cl.playerSession.username.str ↔ Loadable s.db r m cl := by
  have hlive := loading_heap (b := b) hcl
  have hrun : sendToWorld E J c P s = (loaddata E c >>= fun _ => showWorld J c) (s.loading c cl b) := by
    rw [sendToWorld_eq hcl hmem, h.slotRows hcl]
    exact bind_ok h.selectName
  have hslot : inSlot s.db cl.playerSession.username.str P.slot ≠ [] := by
    rw [h.slot]
    exact List.cons_ne_nil _ _
  have hloaded : ∀ l n, (((s.loading c cl b).asked l n).update c fun _ =>
      (cl.called b).loaded s.db r m).heap c = some ((cl.called b).loaded s.db r m) := fun l n => by
    show (if c = c then ((s.loading c cl b).heap c).map _ else _) = _
    rw [if_pos rfl, hlive]
    rfl
  constructor
  · rintro ⟨x, t, ht, hplays⟩
    rw [if_neg hslot] at hplays
    rw [hrun] at ht
    obtain ⟨_, w, hw, ht⟩ := of_bind_ok ht
    obtain ⟨-, rfl, hfull, hin⟩ :=
      loaddata_loaded (r := r) hlive h.row h.id h.charAnswer h.itemAnswer hw
    obtain ⟨-, cl2, hcl2, ht2, -⟩ := showWorld_sent ht
    obtain rfl : cl2 = (cl.called b).loaded s.db r m :=
      Option.some.inj (hcl2.symm.trans (hloaded _ _))
    obtain ⟨r', hr', cl', hcl', hplays⟩ := hplays
    rw [h.slot, List.mem_singleton] at hr'
    subst hr'
    obtain rfl := Option.some.inj (ht2.symm.trans hcl')
    exact ⟨hfull, hin, newItems_eq_iff.mp fun k hk => hplays.items m h.id k hk⟩
  · rintro ⟨hfull, hin, hlast⟩
    have hlen := name_length_le h.row h.name
    obtain ⟨w, hw⟩ := loaddata_apply (r := r) hlive h.row h.id h.range hlen h.charAnswer
      h.itemAnswer hfull hin
    obtain ⟨-, rfl, -, -⟩ :=
      loaddata_loaded (r := r) hlive h.row h.id h.charAnswer h.itemAnswer hw
    obtain ⟨t, ht⟩ := showWorld_apply (J := J) (hloaded _ _) (hlen.trans (by decide : 16 ≤ 65337))
    obtain ⟨-, cl2, hcl2, ht2, -⟩ := showWorld_sent ht
    obtain rfl : cl2 = (cl.called b).loaded s.db r m :=
      Option.some.inj (hcl2.symm.trans (hloaded _ _))
    refine ⟨true, t, hrun.trans ((bind_ok hw).trans ht), ?_⟩
    rw [if_neg hslot]
    refine ⟨r, by rw [h.slot]; exact List.mem_singleton.mpr rfl, _, ht2, ?_⟩
    refine ⟨rfl, rfl, h.textOf_name.symm, rfl, fun m' hm' k hk => ?_⟩
    obtain rfl : m' = m := by
      have := hm'.symm.trans h.id
      cases this
      rfl
    exact newItems_eq_iff.mpr hlast k hk

end Character

def emptySlotFrame : Packet := frame 0x0213 [3]

/-- The only character of the account is in the first slot. -/
example : (inSlot (oneAccount 1) (ascii "bob") 0).length = 1 ∧
    inSlot (oneAccount 1) (ascii "bob") 1 = [] := by decide +kernel

end Destiny
