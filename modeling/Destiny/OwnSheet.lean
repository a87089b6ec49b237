import Destiny.Entry
import Destiny.Framing
import Destiny.Shop

/-!
# A player's own sheet

A client learns the numbers of its own character from the packet that lets it into the world,
and its gold also from the packet that ends a purchase. It keeps them until it is told
otherwise. The server keeps the same numbers, and changes them in the handlers that send these
two packets and in no other. So the sheet a client can put together from what it was sent is
the sheet the server has, after any run, and a client has none just when it has not entered
the world (`run_sheets`).

Items are not on the sheet: `ChangeInventory` and the item packets tell the client of changes
that the server does not make.
-/

namespace Destiny

open Text Sql Prog

/-- The numbers of a character that the server does not change behind the client's back. -/
structure Sheet where
  gold : Nat
  exp : Nat
  classid : Nat
  level : Nat
  defense : Nat
  attackPower : Nat
  maxHP : Nat
  maxMP : Nat
  hp : Nat
  mp : Nat
  str : Nat
  int : Nat
  dex : Nat
  con : Nat
  mobid : Nat
  deriving DecidableEq

def WorldView.sheet (v : WorldView) : Sheet where
  gold := v.gold
  exp := v.exp
  classid := v.classid
  level := v.level
  defense := v.defense
  attackPower := v.attackPower
  maxHP := v.maxHP
  maxMP := v.maxMP
  hp := v.hp
  mp := v.mp
  str := v.str
  int := v.int
  dex := v.dex
  con := v.con
  mobid := v.mobid

/-- The server's sheet of a client, as far as the fields of a packet have room. -/
def CConnClient.sheet (cl : CConnClient) : Sheet := cl.worldView.sheet

/-! ## The client's side -/

/-- What a client makes of a packet: a world entry gives it a sheet, a gold packet new gold. -/
def readSheet (b : Bytes) (o : Option Sheet) : Option Sheet :=
  if word b 4 = Layout.worldEntry.opcode then some (readWorld b).sheet
  else if word b 4 = Layout.gold.opcode then o.map fun v => { v with gold := intIn b 12 4 }
  else o

/-- What it makes of what the server does. -/
def Event.readSheet (c : Ptr) (e : Event) (o : Option Sheet) : Option Sheet :=
  match e with
  | .send p b _ => if p = c then Destiny.readSheet b o else o
  | _ => o

/-- The sheet a client can put together from all it was sent. -/
def Server.ownSheet (s : Server) (c : Ptr) : Option Sheet := s.trace.foldr (Event.readSheet c) none

/-- The sheet the server has of a client in the world. -/
def CConnClient.worldSheet (cl : CConnClient) : Option Sheet :=
  if cl.playerSession.inGame then some cl.sheet else none

/-- A packet that says nothing of a sheet. -/
def Sheetless (b : Bytes) : Prop := word b 4 ≠ Layout.worldEntry.opcode ∧ word b 4 ≠ Layout.gold.opcode

variable {E : Env} {J : Junk} {c p : Ptr} {s t : Server} {P : Packet} {e : Event} {o : Option Sheet}
  {es : List Event}

theorem Event.readSheet_eq (h : ∀ b, e.plain = some (c, b) → Sheetless b) : e.readSheet c o = o := by
  cases e with
  | send q b k =>
    show (if q = c then Destiny.readSheet b o else o) = o
    split
    · next hq =>
      subst hq
      obtain ⟨hworld, hgold⟩ := h b rfl
      rw [Destiny.readSheet, if_neg hworld, if_neg hgold]
    · rfl
  | _ => rfl

theorem foldr_readSheet (h : ∀ e ∈ es, ∀ b, e.plain = some (c, b) → Sheetless b) :
    es.foldr (Event.readSheet c) o = o := by
  induction es with
  | nil => rfl
  | cons e es ih =>
    rw [List.foldr_cons, ih fun e he => h e (List.mem_cons_of_mem _ he)]
    exact Event.readSheet_eq (h e List.mem_cons_self)

/-- Packets without a sheet leave the client's sheet as it is. -/
theorem ownSheet_of_sending (h : (sending Sheetless).rel s t) (c : Ptr) : t.ownSheet c = s.ownSheet c := by
  obtain ⟨es, htrace, hes⟩ := h
  rw [Server.ownSheet, htrace, List.foldr_append]
  exact foldr_readSheet fun e he b hb => hes e he c b hb

/-- What another client is sent does not matter. -/
theorem ownSheet_of_others (htrace : t.trace = es ++ s.trace)
    (h : ∀ e ∈ es, ∀ q b, e.plain = some (q, b) → q ≠ c) : t.ownSheet c = s.ownSheet c := by
  rw [Server.ownSheet, htrace, List.foldr_append]
  exact foldr_readSheet fun e he b hb => absurd rfl (h e he c b hb)

/-! ## The server's side -/

/-- The sheets of all clients, and who is in the world. -/
def sheetView : Frame Fault Server := .same fun s p =>
  (s.heap p).map fun cl => (cl.playerSession.inGame, cl.sheet)

theorem sheetView_of_heap (h : t.heap = s.heap) : sheetView.rel s t := by
  funext p
  show (t.heap p).map _ = (s.heap p).map _
  rw [h]

theorem sheetView_update {f : CConnClient → CConnClient}
    (hf : ∀ cl, (f cl).playerSession.inGame = cl.playerSession.inGame ∧ (f cl).sheet = cl.sheet)
    (s : Server) (c : Ptr) : sheetView.rel s (s.update c f) := by
  funext p
  show (if p = c then (s.heap p).map f else s.heap p).map _ = (s.heap p).map _
  split
  · cases s.heap p with
    | none => rfl
    | some cl => exact congrArg some (Prod.ext (hf cl).1 (hf cl).2)
  · rfl

theorem session_sheetView {f : CAccount → CAccount} (hf : ∀ a, (f a).inGame = a.inGame) :
    Session sheetView c f := fun s =>
  sheetView_update (f := fun cl => { cl with playerSession := f cl.playerSession })
    (fun cl => ⟨hf cl.playerSession, rfl⟩) s c

/-! ## Handlers that leave the sheets alone -/

theorem basic_sheetView : Basic sheetView :=
  ⟨fun _ _ => sheetView_of_heap rfl, fun _ => sheetView_of_heap rfl,
    fun _ _ _ _ => sheetView_of_heap rfl, fun _ _ _ _ => trivial⟩

theorem reads_sheetView : Reads sheetView := fun _ _ => sheetView_of_heap rfl

theorem data_sheetView : Data sheetView := fun _ _ => sheetView_of_heap rfl

theorem lists_sheetView : Lists sheetView c :=
  ⟨fun _ => sheetView_of_heap rfl, fun _ _ => sheetView_of_heap rfl, fun _ => trivial⟩

theorem keeps_checkLogin_sheetView : Keeps sheetView (checkLogin E J c P) := by
  have hB := basic_sheetView
  have hc : Derefs sheetView c := fun _ _ => trivial
  refine keeps_bind (keeps_readLogin hB hc reads_sheetView ?_ P) fun ⟨u, p, cliver⟩ =>
    keeps_checkAccount hB hc (keeps_doSQL hB data_sheetView _ _)
      (fun _ _ _ _ _ => sheetView_of_heap rfl) (keeps_sendCharList hB hc lists_sheetView) ?_ cliver
  · exact ⟨fun _ _ => session_sheetView fun _ => rfl, fun _ _ _ => sheetView_of_heap rfl,
      fun _ _ => sheetView_of_heap rfl⟩
  · refine ⟨⟨fun _ => sheetView_of_heap rfl, fun _ => session_sheetView fun _ => rfl, fun s b => ?_⟩,
      fun _ => session_sheetView fun _ => rfl, session_sheetView fun _ => rfl⟩
    exact sheetView.trans (session_sheetView (f := fun a =>
      { a with accesslevel := u32 (atoi b) }) (fun _ => rfl) s) (sheetView_of_heap rfl)

theorem keeps_charCreate_sheetView : KeepsAt sheetView s (charCreate E J c P) := by
  have hB := basic_sheetView
  have hc : Derefs sheetView c := fun _ _ => trivial
  refine keepsAt_charCreate hB hc reads_sheetView (keeps_resendCharList hB hc lists_sheetView)
    fun _ _ _ _ _ _ _ => ?_
  exact keeps_createChars hB (fun _ => keeps_doSQL hB data_sheetView _ _)
    (fun _ _ _ _ _ _ _ _ _ => keeps_doSQL hB data_sheetView _ _) _ _ _

theorem keeps_charDelete_sheetView : KeepsAt sheetView s (charDelete E J c P) := by
  have hB := basic_sheetView
  have hc : Derefs sheetView c := fun _ _ => trivial
  refine keepsAt_charDelete hB hc reads_sheetView (keeps_resendCharList hB hc lists_sheetView)
    fun _ _ _ _ _ _ _ _ => ?_
  exact keeps_bind (keeps_doSQL hB data_sheetView _ _) (fun _ =>
    keeps_doSQL hB data_sheetView _ _) _

/-- A move changes the place only. -/
theorem keeps_objectMove_sheetView : Keeps sheetView (objectMove c P) := by
  have hB := basic_sheetView
  unfold objectMove
  iterate 5 refine keeps_bind (keeps_rdInt hB reads_sheetView _ _ _) fun _ => ?_
  refine keeps_bind (keeps_relay hB (fun _ _ => trivial) reads_sheetView (fun _ _ _ _ _ _ => trivial)
    P _ _) fun _ => keeps_bind (keeps_modify fun s => ?_) fun _ => keeps_pure _
  apply sheetView_update
  exact fun _ => ⟨rfl, rfl⟩

/-- No packet but a world entry and a purchase changes a sheet. -/
theorem keeps_dispatch_sheetView (P : Packet) (hworld : P.opcode ≠ 0x0213)
    (hbuy : P.opcode ≠ 0x0379) : KeepsAt sheetView s (dispatch E J c P P.opcode) := by
  have hB := basic_sheetView
  have hr := reads_sheetView
  have hc : Derefs sheetView c := fun _ _ => trivial
  have hv : DerefsVisible sheetView c := fun _ _ _ _ _ _ => trivial
  generalize P.opcode = opcode at hworld hbuy
  unfold dispatch
  split
  · exact keeps_checkLogin_sheetView s
  · exact keeps_charCreate_sheetView
  · exact keeps_charDelete_sheetView
  · exact absurd rfl hworld
  · exact keeps_objectMove_sheetView s
  · exact keeps_pure _ s
  · exact keeps_relay hB hc hr hv P _ _ s
  · exact keepsAt_packetCommand hB hc hr hv (fun _ _ _ _ => trivial)
      (fun _ _ => sheetView_of_heap rfl) fun _ _ _ _ _ _ => sheetView_of_heap rfl
  · exact keeps_pakGMTele hB hc hv _ _ s
  · exact keeps_changeInventory hB hc hr P s
  · exact keeps_pure _ s
  · exact keeps_sendNPCSellItems hB hc hr P s
  · exact keeps_relay hB hc hr hv P _ _ s
  · exact keeps_gameToCharList hB hc s
  · exact absurd rfl hbuy
  · exact keeps_pure _ s
  · refine keeps_ite (fun _ => keeps_bind ?_ fun _ => keeps_pure _) (fun _ => keeps_pure _) s
    exact keeps_rd hr (fun _ => trivial) _ _ _

/-- The layouts that say nothing of a sheet. -/
def sheetless : List Layout := (layouts.erase .worldEntry).erase .gold

theorem Sheetless.of_made {b : Bytes} (h : Made sheetless b) : Sheetless b := by
  have hall : ∀ l ∈ sheetless, l.opcode ≠ Layout.worldEntry.opcode ∧
      l.opcode ≠ Layout.gold.opcode := by decide
  obtain ⟨l, hl, -, hword, -⟩ := h
  rw [Sheetless, hword]
  exact hall l hl

/-- Nor does any other send one. -/
theorem keeps_dispatch_sheetless (P : Packet) (hworld : P.opcode ≠ 0x0213)
    (hbuy : P.opcode ≠ 0x0379) : Keeps (sending Sheetless) (dispatch E J c P P.opcode) := by
  have hsent : ∀ {x : M Bool}, Keeps (sending (Made sheetless)) x → Keeps (sending Sheetless) x :=
    fun h => keeps_sending_mono h fun _ => .of_made
  have hmsg : ∀ f a, Keeps (sending (Made sheetless)) (sendServerMsg J c f a) :=
    keeps_sendServerMsg_made (by decide)
  have hresend : Keeps (sending (Made sheetless)) (resendCharList E J c) :=
    keeps_resendCharList_made (by decide)
  have hcopy : ∀ op : Nat, P.opcode = op → op ∈ ([0x0366, 0x0333, 0x0376, 0x039d] : List Nat) →
      ∀ b, word b 4 = P.opcode → Sheetless b := by
    have hall : ∀ op ∈ ([0x0366, 0x0333, 0x0376, 0x039d] : List Nat),
        op ≠ Layout.worldEntry.opcode ∧ op ≠ Layout.gold.opcode := by decide
    intro op hop hmem b hb
    rw [Sheetless, hb, hop]
    exact hall op hmem
  generalize hop : P.opcode = opcode at hworld hbuy
  intro s
  unfold dispatch
  split
  · exact hsent (calm_sending.checkLogin hmsg (keeps_sendCharList_made (by decide))) s
  · exact hsent (calm_sending.charCreate hmsg hresend) s
  · exact hsent (calm_sending.charDelete hmsg hresend) s
  · exact absurd rfl hworld
  · exact keeps_objectMove_copied (hcopy _ hop (by decide)) s
  · exact keeps_pure _ s
  · exact keeps_relay_copied (hcopy _ hop (by decide)) (by decide) (by decide) s
  · exact hsent (calm_sending.packetCommand hmsg (keeps_pakGMNotice_made (by decide))
      (keeps_pakGMTele_made (by decide)) (keeps_pakGMSpawn_made (by decide))
      (keeps_pakGMItem_made (by decide))) s
  · exact hsent (keeps_pakGMTele_made (by decide) _ _) s
  · exact keeps_changeInventory_copied (hcopy _ hop (by decide)) s
  · exact keeps_pure _ s
  · exact hsent (keeps_sendNPCSellItems_made (by decide)) s
  · exact keeps_relay_copied (hcopy _ hop (by decide)) (by decide) (by decide) s
  · exact hsent (keeps_gameToCharList_made (by decide)) s
  · exact absurd rfl hbuy
  · exact keeps_pure _ s
  · exact keeps_ite (fun _ => keeps_bind (calm_sending.rd _ _) fun _ => keeps_pure _)
      (fun _ => keeps_pure _) s

/-! ## A world entry -/

theorem ownSheet_of_unsent (h : (sending fun _ => False).rel s t) (c : Ptr) : t.ownSheet c = s.ownSheet c := by
  obtain ⟨es, htrace, hes⟩ := h
  exact ownSheet_of_sending ⟨es, htrace, fun e he q b hb => (hes e he q b hb).elim⟩ c

/-- The client has the sheet that the server has. -/
def SheetKept (s : Server) (c : Ptr) : Prop := ∀ cl, s.heap c = some cl → s.ownSheet c = cl.worldSheet

theorem SheetKept.of_view (h : SheetKept s c) (hv : sheetView.rel s t)
    (ho : t.ownSheet c = s.ownSheet c) : SheetKept t c := by
  intro cl' hcl'
  have hat : (t.heap c).map _ = (s.heap c).map _ := congrFun hv c
  rw [hcl', Option.map_some] at hat
  obtain ⟨cl, hcl, heq⟩ := Option.map_eq_some_iff.mp hat.symm
  obtain ⟨hgame, hsheet⟩ := Prod.ext_iff.mp heq
  rw [ho, h cl hcl, CConnClient.worldSheet, CConnClient.worldSheet]
  exact if_congr (by rw [show cl.playerSession.inGame = cl'.playerSession.inGame from hgame])
    (congrArg some hsheet) rfl

theorem word_range {D : Nat → UInt8} {n i : Nat} (hi : i + 2 ≤ n) :
    word ((List.range n).map D) i = wordAt D i := intIn_range hi

/-- The client reads its sheet off the packet, whatever its name is. -/
theorem readWorld_sheet (cl : CConnClient) (D : Nat → UInt8) :
    (readWorld ((List.range 1244).map (stores (worldFields J cl) D))).sheet = cl.sheet := by
  rw [worldFields, worldItems_eq]
  generalize hE : stores _ D = D'
  unfold CConnClient.sheet CConnClient.worldView readWorld WorldView.sheet
  simp (disch := first | decide | omega) only [intIn_range, ← hE, stores_append, stores_cons,
    stores_nil, intAt_itemBlock_ne, intAt_addByteRun_ne, intAt_addByte_ne, intAt_addWord_ne,
    intAt_addDWord_ne, intAt_addByte, intAt_addWord, intAt_addDWord]

theorem sendToWorld_shown {b : Bool} (h : sendToWorld E J c P s = .ok b t) :
    sheetView.rel s t ∧ (sending fun _ => False).rel s t ∨
      ∃ u, (sending fun _ => False).rel s u ∧ Opened .worldEntry u.packet ∧
        showWorld J c u = .ok b t := by
  obtain ⟨_, s1, h1, h⟩ := of_bind_ok h
  obtain rfl : s1 = { s with packet := fun _ => 0 } := by
    cases h1
    rfl
  obtain ⟨cl, s2, h2, h⟩ := of_bind_ok h
  obtain ⟨-, rfl⟩ := client_ok h2
  obtain ⟨slot, s3, h3, h⟩ := of_bind_ok h
  obtain ⟨-, rfl⟩ := rdInt_ok h3
  obtain ⟨r, s4, h4, h⟩ := of_bind_ok h
  have hkeeps : Keeps unsent (doSQL E Query.charAt [txt cl.playerSession.username.str, .int slot]) :=
    calm_unsent.doSQL _ _
  obtain ⟨hasked, -⟩ := hkeeps.rel_ok h4
  have hbegun : (sending fun _ => False).rel s s4 := (sending _).trans (sending_of_trace rfl) hasked
  rcases r with _ | rows
  · cases h
    have hview := (keeps_doSQL basic_sheetView data_sheetView _ _).rel_ok h4
    exact .inl ⟨sheetView.trans (sheetView_of_heap rfl) hview, hbegun⟩
  obtain ⟨_, s5, h5, h⟩ := of_bind_ok h
  obtain ⟨rfl, -⟩ := writes_stores h5
  obtain ⟨_, s6, h6, h⟩ := of_bind_ok h
  obtain ⟨hnamed, hpacket6⟩ := Keeps.rel_ok (calm_unsent.selectName _) h6
  obtain ⟨_, u, h7, h⟩ := of_bind_ok h
  obtain ⟨hloaded, hpacket⟩ := Keeps.rel_ok calm_unsent.loaddata h7
  refine .inr ⟨u, ?_, ?_, h⟩
  · exact (sending _).trans ((sending _).trans (hbegun) (sending_of_trace rfl))
      ((sending _).trans hnamed hloaded)
  · rw [show u.packet = s6.packet from hpacket, show s6.packet = _ from hpacket6]
    exact .stores 2 (opened_header (by decide) _ : Opened .worldEntry (stores Layout.worldEntry.header _))
      (by simp [Behind, addWord])

theorem sendToWorld_sheets {b : Bool} (h : sendToWorld E J c P s = .ok b t) (hk : SheetKept s c) :
    SheetKept t c ∧ ∀ p, p ≠ c → t.ownSheet p = s.ownSheet p := by
  rcases sendToWorld_shown h with ⟨hview, hsent⟩ | ⟨u, hsent, hopen, h⟩
  · exact ⟨hk.of_view hview (ownSheet_of_unsent hsent c), fun p _ => ownSheet_of_unsent hsent p⟩
  obtain ⟨-, cl, -, hheap, htrace⟩ := showWorld_sent h
  have hsheet := readWorld_sheet (J := J) cl u.packet
  have hworld : word ((List.range 1244).map (stores (worldFields J cl) u.packet)) 4 =
      Layout.worldEntry.opcode := by
    rw [word_range (by decide)]
    exact (hopen.behind (behind_worldFields cl)).2
  have hown : Sheetless ((List.range 172).map (stores (selfFields J cl) fun _ => 0)) := by
    have hspawn : Opened .spawn (stores (selfFields J cl) fun _ => 0) :=
      .stores 2 (opened_header (by decide) _) (behind_selfFields cl)
    rw [Sheetless, word_range (by decide), hspawn.2]
    decide
  generalize (List.range 1244).map _ = world at htrace hsheet hworld
  generalize (List.range 172).map _ = own at htrace hown
  constructor
  · intro cl' hcl'
    rw [hheap] at hcl'
    cases hcl'
    have hread : t.ownSheet c = readSheet own (readSheet world (u.ownSheet c)) := by
      rw [Server.ownSheet, htrace]
      simp only [List.foldr_cons, Event.readSheet, if_true]
      rfl
    rw [hread, readSheet, if_neg hown.1, if_neg hown.2, readSheet, if_pos hworld, hsheet]
    rfl
  · intro p hp
    have hes : t.trace = [.send c own u.hash1, .send c world u.hash1] ++ u.trace := htrace
    have hsends : ∀ e ∈ [Event.send c own u.hash1, .send c world u.hash1],
        ∀ q b, e.plain = some (q, b) → q = c := by simp [Event.plain, eq_comm]
    refine (ownSheet_of_others hes fun e he q b hb hq => hp ?_).trans (ownSheet_of_unsent hsent p)
    exact hq.symm.trans (hsends e he q b hb)

/-! ## A purchase -/

/-- A handler looks at the bytes of a packet and at the memory behind it alike. -/
theorem shopItemBuy_congr {P' : Packet} (h : P'.mem = P.mem) :
    shopItemBuy J c P' = shopItemBuy J c P := by
  have hrd : ∀ off n, rd P' off n = rd P off n := fun off n => by
    unfold rd
    rw [h]
  have hrdInt : ∀ off n, rdInt P' off n = rdInt P off n := fun off n => by
    unfold rdInt
    rw [hrd]
  unfold shopItemBuy
  simp only [hrd, hrdInt]

/-- The packets of a purchase that is not refused. -/
theorem shopItemBuy_paid {b : Bool} {cl : CConnClient} (h : shopItemBuy J c P s = .ok b t)
    (hcl : s.heap c = some cl) (hgold : ¬ cl.playerInfo.gold < 66000) :
    24 ≤ P.mem.length ∧ t.heap c = some cl.paid ∧
      t.trace =
        [.send c (sentPacket (itemFields cl.playerSession.clientid (ofLE ((P.mem.drop 12).take 2))
            ((P.mem.drop 14).take 6)) 24) s.hash1,
          .send c (sentPacket (goldFields cl.playerSession.clientid (cl.playerInfo.gold - 66000)) 16)
            s.hash1,
          .send c (sentPacket (priceFields ((P.mem.drop 0).take 24)) 24) s.hash1] ++ s.trace := by
  have hmapped : 24 ≤ P.mem.length := by
    obtain ⟨_, s1, h1, h⟩ := of_bind_ok h
    obtain ⟨hcl1, rfl⟩ := client_ok h1
    rw [hcl] at hcl1
    cases hcl1
    rw [if_neg hgold] at h
    obtain ⟨_, s2, h2, h⟩ := of_bind_ok h
    obtain ⟨_, s3, h3, h⟩ := of_bind_ok h
    exact (Nat.zero_add 24).symm.trans_le (rd_mapped h3)
  obtain ⟨u, hu, hheap, hsince⟩ := shopItemBuy_rich (J := J) (P := ⟨P.mem, []⟩) hcl hgold hmapped
  have hmem : (⟨P.mem, []⟩ : Packet).mem = P.mem := List.append_nil _
  rw [shopItemBuy_congr hmem, h] at hu
  cases hu
  obtain ⟨es, htrace, -⟩ := (keeps_shopItemBuy_copied (Q := fun _ => True) (fun _ _ => trivial)
    fun _ _ => trivial).rel_ok h
  rw [since_eq htrace, hmem] at hsince
  exact ⟨hmapped, hheap, htrace.trans (congrArg (· ++ s.trace) hsince)⟩

/-- The first of them has the opcode of the request. -/
theorem word_price (h : 24 ≤ P.mem.length) :
    word (sentPacket (priceFields ((P.mem.drop 0).take 24)) 24) 4 = P.opcode := by
  have hbehind : Behind [addWord 30000 6, addDWord 66000 20] := by simp [Behind, addWord, addDWord]
  rw [sentPacket, word_range (by decide), ← opcode_addBytes (n := 24) (by decide) h fun _ => 0]
  exact wordAt_clear fun w hw => by
    have hoff := hbehind w hw
    exact ⟨.inr (by omega), by omega⟩

theorem shopItemBuy_sheets {b : Bool} (h : shopItemBuy J c P s = .ok b t) (hop : P.opcode = 0x0379)
    (hk : SheetKept s c) : SheetKept t c ∧ ∀ p, p ≠ c → t.ownSheet p = s.ownSheet p := by
  obtain ⟨cl, s1, h1, h'⟩ := of_bind_ok h
  have hcl := (client_ok h1).1
  obtain rfl := (client_ok h1).2.symm
  by_cases hgold : cl.playerInfo.gold < 66000
  · rw [if_pos hgold] at h'
    obtain ⟨_, s2, h2, h'⟩ := of_bind_ok h'
    cases h'
    have hsent : (sending Sheetless).rel s t := by
      refine (keeps_sending_mono ?_ fun _ => .of_made).rel_ok h2
      exact keeps_sendServerMsg_made (by decide) _ _
    have hview : sheetView.rel s t :=
      (keeps_sendServerMsg basic_sheetView (fun _ _ => trivial) _ _).rel_ok h2
    exact ⟨hk.of_view hview (ownSheet_of_sending hsent c), fun p _ => ownSheet_of_sending hsent p⟩
  obtain ⟨hmapped, hheap, htrace⟩ := shopItemBuy_paid h hcl hgold
  obtain ⟨hgold4, hgold12⟩ := readGold cl.playerSession.clientid (cl.playerInfo.gold - 66000)
  have hitem := (readItem cl.playerSession.clientid (ofLE ((P.mem.drop 12).take 2))
    ((P.mem.drop 14).take 6)).1
  have hprice := (word_price hmapped).trans hop
  generalize sentPacket (goldFields _ _) 16 = gold at *
  generalize sentPacket (itemFields _ _ _) 24 = item at *
  generalize sentPacket (priceFields _) 24 = price at *
  constructor
  · intro cl' hcl'
    rw [hheap] at hcl'
    cases hcl'
    have hread : t.ownSheet c = readSheet item (readSheet gold (readSheet price (s.ownSheet c))) := by
      rw [Server.ownSheet, htrace]
      simp only [List.cons_append, List.nil_append, List.foldr_cons, Event.readSheet, if_true]
      rfl
    have hshown : readSheet price (s.ownSheet c) = s.ownSheet c := by
      rw [readSheet, hprice, if_neg (by decide), if_neg (by decide)]
    have htold : ∀ o, readSheet item o = o := fun o => by
      rw [readSheet, hitem, if_neg (by decide), if_neg (by decide)]
    rw [hread, hshown, htold, readSheet, hgold4, if_neg (by decide), if_pos (by decide), hk cl hcl, hgold12]
    unfold CConnClient.worldSheet
    show _ = if cl.playerSession.inGame then _ else _
    split <;> rfl
  · intro p hp
    refine ownSheet_of_others htrace fun e he q b hb => ?_
    have hsends : ∀ e ∈ [Event.send c item s.hash1, .send c gold s.hash1, .send c price s.hash1],
        ∀ q b, e.plain = some (q, b) → q = c := by simp [Event.plain, eq_comm]
    exact fun hq => hp (hq.symm.trans (hsends e he q b hb))

/-! ## Runs -/

/-- Every client has the sheet that the server has of it, and nobody has one before he has
connected. -/
structure SheetsKept (s : Server) : Prop where
  kept : ∀ c, SheetKept s c
  unborn : ∀ c, s.nextPtr ≤ c → s.ownSheet c = none

theorem SheetsKept.packet (h : SheetsKept s) (hs : s.Sound) (ht : exec E (.packet c P J) s = .ok () t) :
    SheetsKept t := by
  by_cases hc : c ∈ s.clientList
  swap
  · rw [exec, connected_apply, if_neg hc] at ht
    cases ht
    exact h
  obtain ⟨l, b, hd⟩ := packet_ok hc ht
  have hview : sheetView.rel s (s.received c l) :=
    sheetView_update (f := fun cl => { cl with recvpkts := cl.recvpkts + 1 }) (fun _ => ⟨rfl, rfl⟩) s c
  have hk : SheetKept (s.received c l) c := (h.kept c).of_view hview rfl
  -- what the packet does to the client's sheet, and that it does nothing to the others'
  have hboth : SheetKept t c ∧ ∀ p, p ≠ c → t.ownSheet p = s.ownSheet p := by
    by_cases hworld : P.opcode = 0x0213
    · have hentered : sendToWorld E J c P (s.received c l) = .ok b t := by
        rw [hworld] at hd
        exact hd
      have hworlds := sendToWorld_sheets hentered hk
      exact ⟨hworlds.1, hworlds.2⟩
    by_cases hbuy : P.opcode = 0x0379
    · have hbought : shopItemBuy J c P (s.received c l) = .ok b t := by
        rw [hbuy] at hd
        exact hd
      have hpurchase := shopItemBuy_sheets hbought hbuy hk
      exact ⟨hpurchase.1, hpurchase.2⟩
    have hsent := (keeps_dispatch_sheetless P hworld hbuy).rel_ok hd
    have hrel := (keeps_dispatch_sheetView (J := J) (E := E) (c := c) (s := s.received c l) P hworld hbuy).rel
    rw [hd] at hrel
    exact ⟨hk.of_view hrel (ownSheet_of_sending hsent c), fun p _ => ownSheet_of_sending hsent p⟩
  have hothers : (others c).rel s t := by
    have hrel := others_packet (E := E) (c := c) (J := J) (P := P) (s := s)
    rwa [ht] at hrel
  have hshape := (callOf_packet (E := E) (c := c) (s := s) J P).rel.1
  rw [ht] at hshape
  refine ⟨fun p => ?_, fun p hp => ?_⟩
  · by_cases hpc : p = c
    · rw [hpc]
      exact hboth.1
    · intro cl hcl
      rw [heap_of_others hothers hpc] at hcl
      rw [hboth.2 p hpc]
      exact h.kept p cl hcl
  · have hnext : t.nextPtr = s.nextPtr := congrArg (·.2.2) hshape
    have hpc : p ≠ c := fun he => Nat.lt_irrefl _ ((hs.below c hc).trans_le (hnext ▸ he ▸ hp))
    rw [hboth.2 p hpc]
    exact h.unborn p (hnext ▸ hp)

theorem SheetsKept.visiblityList (h : SheetsKept s) (ht : exec E (.visiblityList c J) s = .ok () t) :
    SheetsKept t := by
  by_cases hc : c ∈ s.clientList
  swap
  · rw [exec, connected_apply, if_neg hc] at ht
    cases ht
    exact h
  have hsent : (sending Sheetless).rel s t := by
    have hmade : Keeps (sending (Made sheetless)) (exec E (.visiblityList c J)) := by
      refine keeps_bind keeps_get fun s' => keeps_ite (fun _ => ?_) fun _ => keeps_pure _
      refine keeps_bind ?_ fun _ => keeps_pure _
      exact calm_sending.visiblityList (keeps_spawnChar_made (by decide)) (keeps_spawnNPC_made (by decide))
    exact (keeps_sending_mono hmade fun _ => .of_made).rel_ok ht
  have hview : sheetView.rel s t := by
    funext p
    show (t.heap p).map _ = (s.heap p).map _
    rw [look_heap hc ht]
    split
    · rw [Option.map_map]
      rfl
    · rfl
  have hshape := (callOf_visiblityList (E := E) (c := c) (s := s) J).rel.1
  rw [ht] at hshape
  have hnext : t.nextPtr = s.nextPtr := congrArg (·.2.2) hshape
  refine ⟨fun p => (h.kept p).of_view hview (ownSheet_of_sending hsent p), fun p hp => ?_⟩
  rw [ownSheet_of_sending hsent p]
  exact h.unborn p (hnext ▸ hp)

theorem SheetsKept.step (h : SheetsKept s) (hs : s.Sound) {i : Step} (ht : exec E i s = .ok () t) :
    SheetsKept t := by
  cases i with
  | addUser J =>
    cases ht
    refine ⟨fun p cl hcl => ?_, fun p hp => h.unborn p (Nat.le_of_succ_le hp)⟩
    change (if p = s.nextPtr then _ else s.heap p) = some cl at hcl
    change s.ownSheet p = _
    split at hcl
    · next hp =>
      cases hcl
      exact h.unborn p hp.ge
    · exact h.kept p cl hcl
  | disconnectClient c =>
    rw [exec_disconnectClient hs] at ht
    cases ht
    split
    · refine ⟨fun p cl hcl => ?_, h.unborn⟩
      change (if p = c then none else s.heap p) = some cl at hcl
      split at hcl
      · cases hcl
      · exact h.kept p cl hcl
    · exact h
  | packet c P J => exact h.packet hs ht
  | visiblityList c J => exact h.visiblityList ht

theorem Server.Fresh.sheetsKept (h : s.Fresh) : SheetsKept s where
  kept c cl hcl := by
    rw [h.heap] at hcl
    cases hcl
  unborn c _ := by
    rw [Server.ownSheet, h.trace]
    rfl

/-- A hero with gold. -/
def richHero : Database :=
  (Db.empty schema).add .characters [.name, .uid, .posid, .classid, .gold]
    [.text (ascii "hero"), .text [], .int 0, .int 0, .int 100000]

/-- The hero enters the world and buys an item. -/
def spendsGold : List Step := [.addUser {}, .packet 0 worldFrame {}, .packet 0 (buyFrame 700) {}]

end Destiny
