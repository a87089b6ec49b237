import Destiny.Mutual
import Destiny.Server.Buffer
import Destiny.Server.Calm

/-!
# Size words

The first word of a packet is the size its receiver expects. All packets the server composes
itself carry one of a few pairs of size word and opcode, and are handed to `Encrypt` with a
length of their own (`Layout`). The size word is that length but for the two character lists.
-/

namespace Destiny

open Text Sql Prog

/-- What a packet the server composes begins with, and its length. -/
structure Layout where
  size : Nat
  opcode : Nat
  length : Nat
  deriving DecidableEq

def Layout.serverMsg : Layout := ⟨108, 0x0101, 108⟩
def Layout.charList : Layout := ⟨1824, 0x010a, 1823⟩
def Layout.charListAgain : Layout := ⟨1824, 274, 756⟩
def Layout.worldEntry : Layout := ⟨1244, 276, 1244⟩
def Layout.spawn : Layout := ⟨172, 0x0364, 172⟩
def Layout.sellItems : Layout := ⟨236, 0x017C, 236⟩
def Layout.toCharList : Layout := ⟨12, 0x0116, 12⟩
def Layout.movement : Layout := ⟨52, 0x0366, 52⟩
def Layout.item : Layout := ⟨24, 0x0182, 24⟩
def Layout.gold : Layout := ⟨16, 0x03af, 16⟩

def layouts : List Layout :=
  [.serverMsg, .charList, .charListAgain, .worldEntry, .spawn, .sellItems, .toCharList, .movement,
    .item, .gold]

/-- A packet has one of the given layouts. -/
def Made (ls : List Layout) (b : Bytes) : Prop :=
  ∃ l ∈ ls, word b 0 = l.size ∧ word b 4 = l.opcode ∧ b.length = l.length

instance (ls : List Layout) (b : Bytes) : Decidable (Made ls b) :=
  inferInstanceAs (Decidable (∃ l ∈ ls, _ ∧ _ ∧ _))

/-- Only packets of some kind are sent. -/
def sending (Q : Bytes → Prop) : Frame Fault Server :=
  .log Server.trace fun e => ∀ c b, e.plain = some (c, b) → Q b

variable {Q : Bytes → Prop} {E : Env} {J : Junk} {c : Ptr} {s t : Server} {P : Packet} {n : Nat}
  {l : Layout} {ls : List Layout}

/-! ## Operations -/

/-- A frame that allows the changes which send nothing. -/
theorem calm_keeps {F : Frame Fault Server} (hf : ∀ f s, Unsent f → F.rel s (f s))
    (herr : ∀ s e, F.err s e) : Calm fun _ x => Keeps F x where
  pure := keeps_pure
  throw e := keeps_throw fun s => herr s e
  bind := keeps_bind
  get _ h := keeps_bind keeps_get h
  client c := keeps_client fun s _ => herr s _
  query E text s := by
    refine keepsAt_ok rfl (hf (fun s => { s with
      db := (E.sql.query s.sqlCalls s.db text).1, sqlCalls := s.sqlCalls + 1 }) s ?_)
    exact .of_trace (fun _ _ => rfl) fun _ => rfl
  newID J i s := by
    cases h : s.freeID J.now i with
    | none => exact keepsAt_ok (a := 0) (by rw [getNewID, h]) (F.refl s)
    | some j =>
      refine keepsAt_ok (a := j) (by rw [getNewID, h]) (hf (fun s => { s with
        clientIDList := setAt s.clientIDList j 0 }) s ?_)
      exact .of_trace (fun _ _ => rfl) fun _ => rfl
  change h := keeps_modify fun s => hf _ s h

theorem sending_of_trace (h : t.trace = s.trace) : (sending Q).rel s t := ⟨[], h, by simp⟩

theorem sending_of_unsent {f : Server → Server} (h : Unsent f) (s : Server) :
    (sending Q).rel s (f s) := by
  obtain ⟨es, he, hes⟩ := h.trace s
  refine ⟨es, he, fun e hmem c b hb => ?_⟩
  rw [hes e hmem] at hb
  cases hb

/-- Nothing is sent and the buffer stays as it is. -/
def unsent : Frame Fault Server := (sending fun _ => False).both (.same Server.packet)

theorem calm_sending : Calm fun _ x => Keeps (sending Q) x :=
  calm_keeps (fun _ s h => sending_of_unsent h s) fun _ _ => trivial

theorem calm_unsent : Calm fun _ x => Keeps unsent x := by
  refine calm_keeps (fun f s h => ⟨sending_of_unsent h s, ?_⟩) fun _ _ => ⟨trivial, trivial⟩
  have hs := h.apart s s.packet
  have hp := congrArg Server.packet hs
  exact hp

theorem keeps_sending_mono {Q' : Bytes → Prop} {α : Type} {x : M α} (h : Keeps (sending Q) x)
    (hQ : ∀ b, Q b → Q' b) : Keeps (sending Q') x := by
  intro s
  obtain ⟨es, he, hes⟩ := (h s).rel
  exact ⟨⟨es, he, fun e hmem c b hb => hQ b (hes e hmem c b hb)⟩, fun _ => trivial⟩

/-- What comes after an operation that sends nothing finds the buffer as it was. -/
theorem keepsAt_unsent {α β : Type} {x : M α} {f : α → M β} (hx : Keeps unsent x)
    (hf : ∀ a t, t.packet = s.packet → KeepsAt (sending Q) t (f a)) :
    KeepsAt (sending Q) s (x >>= f) := by
  have hsend : Keeps (sending Q) x := by
    have hnone : Keeps (sending fun _ => False) x := fun s =>
      ⟨(hx s).rel.1, fun _ => trivial⟩
    exact keeps_sending_mono hnone fun _ h => h.elim
  refine keepsAt_bind (hsend s) fun a t ht => hf a t ?_
  exact (hx.rel_ok ht).2

theorem keepsAt_packetFree {α : Type} {f : Unit → M α}
    (hf : KeepsAt (sending Q) { s with packet := fun _ => 0 } (f ())) :
    KeepsAt (sending Q) s (packetFree >>= f) := by
  refine keepsAt_bind (keeps_modify_at (sending_of_trace rfl)) fun _ t ht => ?_
  cases ht
  exact hf

theorem keeps_writes_sending (ws : List Write) : Keeps (sending Q) (writes ws) := by
  induction ws with
  | nil => exact keeps_pure _
  | cons w ws ih =>
    exact keeps_bind (calm_sending.check _ _) fun _ =>
      keeps_bind (keeps_modify fun _ => sending_of_trace rfl) fun _ => ih

theorem keepsAt_writes {ws : List Write} {α : Type} {f : Unit → M α}
    (hf : (∀ w ∈ ws, w.inBounds = true) →
      KeepsAt (sending Q) { s with packet := stores ws s.packet } (f ())) :
    KeepsAt (sending Q) s (writes ws >>= f) := by
  refine keepsAt_bind (keeps_writes_sending ws s) fun _ t ht => ?_
  obtain ⟨rfl, hin⟩ := writes_stores ht
  exact hf hin

theorem keepsAt_sendPacket (h : Q (s.first n)) : KeepsAt (sending Q) s (sendPacket c n) := by
  refine keepsAt_bind (calm_sending.client c s) fun cl t ht => ?_
  obtain rfl := (client_ok ht).2.symm
  refine keeps_modify_at ⟨[.send c (s.first n) s.hash1], rfl, ?_⟩
  intro e he p b hb
  rw [List.mem_singleton.mp he] at hb
  cases hb
  exact h

theorem keepsAt_sendEach_sending {ps : List Ptr} (h : Q (s.first n)) :
    KeepsAt (sending Q) s (sendEach n ps) := by
  induction ps generalizing s with
  | nil => exact keeps_pure _ s
  | cons p ps ih =>
    refine keepsAt_bind (keepsAt_sendPacket h) fun _ t ht => ?_
    obtain ⟨-, rfl⟩ := sendPacket_ok ht
    exact ih h

theorem keepsAt_sendToVisible {dothisclient : Bool} (h : Q (s.first n)) :
    KeepsAt (sending Q) s (sendToVisible c n dothisclient) := by
  refine keepsAt_bind (calm_sending.client c s) fun cl t ht => ?_
  obtain rfl := (client_ok ht).2.symm
  refine keepsAt_bind (keepsAt_sendEach_sending h) fun _ t ht => ?_
  obtain ⟨-, rfl⟩ := sendEach_ok ht
  cases dothisclient with
  | false => exact keeps_pure _ _
  | true => exact keepsAt_sendPacket h

theorem keepsAt_sendToAll (h : Q (s.first n)) : KeepsAt (sending Q) s (sendToAll n) := by
  refine keepsAt_bind (keeps_get s) fun s' t ht => ?_
  cases ht
  suffices hin : ∀ ps (t : Server), Q (t.first n) → KeepsAt (sending Q) t (sendInGame n ps) from
    hin _ s h
  intro ps
  induction ps with
  | nil => exact fun t _ => keeps_pure _ t
  | cons p ps ih =>
    intro t hQ
    refine keepsAt_bind (calm_sending.client p t) fun cl u hu => ?_
    obtain rfl := (client_ok hu).2.symm
    cases cl.playerSession.inGame with
    | false => exact ih t hQ
    | true =>
      refine keepsAt_bind (keepsAt_sendPacket hQ) fun _ u hu => ?_
      obtain ⟨-, rfl⟩ := sendPacket_ok (u := ()) hu
      exact ih _ hQ

/-! ## Headers -/

/-- The buffer begins as a layout says. -/
def Opened (l : Layout) (D : Nat → UInt8) : Prop := wordAt D 0 = l.size ∧ wordAt D 4 = l.opcode

instance (l : Layout) (D : Nat → UInt8) : Decidable (Opened l D) :=
  inferInstanceAs (Decidable (_ ∧ _))

/-- Stores behind the first six bytes. -/
def Behind (ws : List Write) : Prop := ∀ w ∈ ws, 6 ≤ w.off

theorem Opened.behind {D : Nat → UInt8} {ws : List Write} (h : Opened l D) (hws : Behind ws) :
    Opened l (stores ws D) := by
  have hclear : ∀ i, i + 2 ≤ 6 → wordAt (stores ws D) i = wordAt D i := fun i hi =>
    wordAt_clear fun w hw => by
      have hoff := hws w hw
      exact ⟨.inr (by omega), by omega⟩
  exact ⟨(hclear 0 (by decide)).trans h.1, (hclear 4 (by decide)).trans h.2⟩

/-- The first stores write the header. -/
theorem Opened.stores {D : Nat → UInt8} {ws : List Write} (k : Nat)
    (h : Opened l (stores (ws.take k) D)) (hws : Behind (ws.drop k)) : Opened l (stores ws D) := by
  have happend := h.behind hws
  rwa [← stores_append, List.take_append_drop] at happend

theorem Opened.made (h : Opened l s.packet) (hl : l ∈ ls) (h6 : 6 ≤ l.length) :
    Made ls (s.first l.length) :=
  ⟨l, hl, by rw [word_first (by omega), h.1], by rw [word_first (by omega), h.2], first_length s _⟩

/-- The two words most packets open with. -/
def Layout.header (l : Layout) : List Write := [addWord l.size 0, addWord l.opcode 4]

theorem opened_header (hl : l ∈ layouts) (D : Nat → UInt8) : Opened l (stores l.header D) := by
  have hu16 : ∀ n : Nat, n < 65536 → u16 n = n := fun n hn => by
    unfold u16 unsigned
    omega
  have hsmall : ∀ l ∈ layouts, l.size < 65536 ∧ l.opcode < 65536 := by decide
  constructor
  · refine (wordAt_stores (l.size : Int) [] (i := 0) (?_ : ∀ w ∈ [addWord l.opcode 4], _)).trans
      (hu16 _ (hsmall l hl).1)
    simp [Write.clear, addWord]
  · exact (wordAt_stores (l.opcode : Int) [addWord l.size 0] (i := 4)
      (by simp : ∀ w ∈ ([] : List Write), _)).trans
      (hu16 _ (hsmall l hl).2)

theorem behind_cons {w : Write} {ws : List Write} : Behind (w :: ws) ↔ 6 ≤ w.off ∧ Behind ws :=
  List.forall_mem_cons

/-- A packet of a layout is sent. -/
theorem keepsAt_sendMade (h : Opened l s.packet) (hl : l ∈ ls) (hlay : l ∈ layouts)
    (hn : n = l.length) : KeepsAt (sending (Made ls)) s (sendPacket c n) := by
  have h6 : ∀ l ∈ layouts, 6 ≤ l.length := by decide
  subst hn
  exact keepsAt_sendPacket (h.made hl (h6 l hlay))

theorem behind_append {ws vs : List Write} : Behind (ws ++ vs) ↔ Behind ws ∧ Behind vs :=
  List.forall_mem_append

theorem behind_map {α : Type} {f : α → Write} {as : List α} (h : ∀ a, 6 ≤ (f a).off) :
    Behind (as.map f) := by
  intro w hw
  obtain ⟨a, -, rfl⟩ := List.mem_map.mp hw
  exact h a

theorem behind_flatMap {α : Type} {f : α → List Write} {as : List α} (h : ∀ a, Behind (f a)) :
    Behind (as.flatMap f) := by
  intro w hw
  obtain ⟨a, -, hw⟩ := List.mem_flatMap.mp hw
  exact h a w hw

theorem behind_addByteRun {off : Nat} (h : 6 ≤ off) (bs : List Int) :
    Behind (addByteRun off bs) := by
  intro w hw
  obtain ⟨i, hi, rfl⟩ := List.mem_mapIdx.mp hw
  show (6 : Int) ≤ (off + i : Nat)
  omega

/-! ## Packets -/

/-- Sending what the buffer holds behind a header of a layout. -/
theorem keepsAt_composed {ws : List Write} {α : Type} {f : Unit → M α}
    (ho : Opened l (stores ws s.packet)) (hl : l ∈ ls) (hlay : l ∈ layouts) (hn : n = l.length)
    (hf : ∀ t : Server, KeepsAt (sending (Made ls)) t (f ())) :
    KeepsAt (sending (Made ls)) s (writes ws >>= fun _ => sendPacket c n >>= f) := by
  refine keepsAt_writes fun _ => ?_
  exact keepsAt_bind (keepsAt_sendMade ho hl hlay hn) fun _ t _ => hf t

theorem keeps_sendServerMsg_made (hl : .serverMsg ∈ ls) (format : Bytes) (args : List Arg) :
    Keeps (sending (Made ls)) (sendServerMsg J c format args) := by
  refine keeps_bind (calm_sending.check _ _) fun _ s => keepsAt_packetFree ?_
  have hhead : Opened .serverMsg (stores [addWord 108 0, addByte 1 4, addByte 1 5] fun _ => 0) := by
    decide
  refine keepsAt_composed (l := .serverMsg) (.stores 3 hhead ?_) hl (by decide) rfl
    fun t => keeps_pure _ t
  simp [Behind, addStr]

/-- The same where the stores begin with the header. -/
theorem keepsAt_headed {ws : List Write} {α : Type} {f : Unit → M α} (hhead : ws.take 2 = l.header)
    (hws : Behind (ws.drop 2)) (hlay : l ∈ layouts) (hl : l ∈ ls) (hn : n = l.length)
    (hf : ∀ t : Server, KeepsAt (sending (Made ls)) t (f ())) :
    KeepsAt (sending (Made ls)) s (writes ws >>= fun _ => sendPacket c n >>= f) := by
  refine keepsAt_composed (.stores 2 ?_ hws) hl hlay hn hf
  rw [hhead]
  exact opened_header hlay _

theorem behind_spawnCharFields (o : CConnClient) : Behind ((spawnCharFields J o).drop 2) := by
  have h12 : Behind ((List.range 12).map fun i : Nat => addByte 0xcc (18 + i)) :=
    behind_map fun i => by simp only [addByte]; omega
  have h15 : Behind ((List.range 15).map fun i : Nat => addWord (o.items i).itemid (2 * i + 36)) :=
    behind_map fun i => by simp only [addWord]; omega
  have h29 : Behind ((List.range 29).map fun i : Nat => addByte 0xcc (147 + i)) :=
    behind_map fun i => by simp only [addByte]; omega
  simp only [spawnCharFields, List.cons_append, List.drop_succ_cons, List.drop_zero]
  simp only [behind_cons, behind_append, List.nil_append, h12, h15, h29, and_true]
  simp [Behind, addWord, addByte, addStr]

theorem behind_spawnNPCFields (n : CNPC) : Behind ((spawnNPCFields J n).drop 2) := by
  have h12 : Behind ((List.range 12).map fun i : Nat => addByte 0xcc (18 + i)) :=
    behind_map fun i => by simp only [addByte]; omega
  have h15 : Behind ((List.range 15).map fun i : Nat =>
      addWord (n.inventory i).itemid (2 * i + 36)) :=
    behind_map fun i => by simp only [addWord]; omega
  have h29 : Behind ((List.range 29).map fun i : Nat => addByte 0xcc (147 + i)) :=
    behind_map fun i => by simp only [addByte]; omega
  have hkarma : Behind (if n.mobcode = 0 then [addByte 150 30] else []) := by
    split <;> simp [Behind, addByte]
  simp only [spawnNPCFields, List.cons_append, List.drop_succ_cons, List.drop_zero]
  simp only [behind_cons, behind_append, List.nil_append, h12, h15, h29, hkarma, and_true]
  simp [Behind, addWord, addByte, addStr]

theorem keeps_spawnChar_made (hl : .spawn ∈ ls) (o : Ptr) :
    Keeps (sending (Made ls)) (spawnChar J c o) := by
  refine keeps_bind (calm_sending.client o) fun o s => keepsAt_packetFree ?_
  refine keepsAt_headed (l := .spawn) rfl (behind_spawnCharFields o) (by decide) hl rfl fun t => ?_
  exact keeps_bind (calm_sending.note rfl) (fun _ => keeps_pure _) t

theorem keeps_spawnNPC_made (hl : .spawn ∈ ls) (i : Nat) :
    Keeps (sending (Made ls)) (spawnNPC J c i) := by
  refine keeps_bind (calm_sending.newID _ _) fun id => keeps_bind ?_ fun _ s =>
    keepsAt_packetFree ?_
  · exact calm_sending.change (.of_trace (fun _ _ => rfl) fun _ => rfl)
  refine keepsAt_bind (keeps_get _) fun s' t ht => ?_
  cases ht
  split
  · exact keeps_throw (fun _ => trivial) _
  · next n _ =>
    refine keepsAt_headed (l := .spawn) rfl (behind_spawnNPCFields n) (by decide) hl rfl fun t => ?_
    exact keeps_bind (calm_sending.note rfl) (fun _ => keeps_pure _) t

/-! ### Character lists -/

/-- A slot at which all of a character's stores are inside the buffer. -/
theorem behind_charFields {ch : CCharacter} {charpos : Int}
    (h : ∀ w ∈ charFields J ch charpos, w.inBounds = true) : Behind (charFields J ch charpos) := by
  have hpos : 0 ≤ 128 * charpos + 204 :=
    Write.nonneg (h (addByte ch.mobid (128 * charpos + 204)) (by simp [charFields]))
  have hitems : Behind ((List.range 15).flatMap fun slotnum : Nat =>
      let item := ch.eqitems slotnum
      let off : Int := 8 * slotnum + 128 * charpos
      [addWord item.itemid (off + 212), addByte item.add1 (off + 214), addByte item.val1 (off + 215),
        addByte item.add2 (off + 216), addByte item.val2 (off + 217), addByte item.add3 (off + 218),
        addByte item.val3 (off + 219)]) := by
    refine behind_flatMap fun slotnum => ?_
    simp only [Behind, addWord, addByte, List.mem_cons, List.not_mem_nil, or_false, forall_eq_or_imp,
      forall_eq]
    omega
  unfold charFields
  simp only [behind_append, hitems, and_true]
  simp only [Behind, addWord, addByte, addDWord, addStr, List.mem_cons, List.not_mem_nil, or_false,
    forall_eq_or_imp, forall_eq]
  omega

theorem writeChars_opened {k : Nat} {chars : List CCharacter} {b : Bool}
    (hs : Opened l s.packet) (h : writeChars E J c k chars s = .ok b t) : Opened l t.packet := by
  induction chars generalizing k s with
  | nil =>
    cases h
    exact hs
  | cons ch chars ih =>
    obtain ⟨r, s1, h1, h⟩ := of_bind_ok h
    have hp1 : s1.packet = s.packet := (Keeps.rel_ok (calm_unsent.doSQL _ _) h1).2
    rcases r with _ | rows
    · cases h
      rw [hp1]
      exact hs
    obtain ⟨charpos, s2, h2, h⟩ := of_bind_ok h
    have hp2 : s2.packet = s1.packet := (Keeps.rel_ok (calm_unsent.lastPosid _ _) h2).2
    obtain ⟨_, s3, h3, h⟩ := of_bind_ok h
    cases h3
    obtain ⟨_, s4, h4, h⟩ := of_bind_ok h
    obtain ⟨rfl, hin⟩ := writes_stores h4
    refine ih (Opened.behind ?_ (behind_charFields hin)) h
    show Opened l s2.packet
    rw [hp2, hp1]
    exact hs

theorem keeps_writeChars_sending (k : Nat) (chars : List CCharacter) :
    Keeps (sending Q) (writeChars E J c k chars) := by
  induction chars generalizing k with
  | nil => exact keeps_pure _
  | cons ch chars ih =>
    refine keeps_bind (calm_sending.doSQL _ _) fun r => ?_
    cases r with
    | none => exact keeps_pure _
    | some rows =>
      exact keeps_bind (calm_sending.lastPosid _ _) fun _ => keeps_bind (calm_sending.note rfl)
        fun _ => keeps_bind (keeps_writes_sending _) fun _ => ih _

/-- An operation that sends nothing, with the header in the buffer. -/
theorem keepsAt_opened {α β : Type} {x : M α} {f : α → M β} (hs : Opened l s.packet)
    (hx : Keeps unsent x) (hf : ∀ a t, Opened l t.packet → KeepsAt (sending Q) t (f a)) :
    KeepsAt (sending Q) s (x >>= f) :=
  keepsAt_unsent hx fun a t ht => hf a t (ht ▸ hs)

/-- The characters written and the list sent. -/
theorem keepsAt_charsWritten {k : Nat} {chars : List CCharacter} {f : M Bool} (hs : Opened l s.packet)
    (hf : ∀ t : Server, Opened l t.packet → KeepsAt (sending Q) t f) :
    KeepsAt (sending Q) s (writeChars E J c k chars >>= fun
      | false => return false
      | true => f) := by
  refine keepsAt_bind (keeps_writeChars_sending _ _ s) fun b t ht => ?_
  cases b with
  | false => exact keeps_pure _ t
  | true => exact hf t (writeChars_opened hs ht)

/-- Stores behind the header. -/
theorem keepsAt_writes_opened {ws : List Write} {α : Type} {f : Unit → M α}
    (hs : Opened l s.packet) (hws : Behind ws)
    (hf : ∀ t : Server, Opened l t.packet → KeepsAt (sending Q) t (f ())) :
    KeepsAt (sending Q) s (writes ws >>= f) :=
  keepsAt_writes fun _ => hf _ (hs.behind hws)

theorem keeps_resendCharList_made (hl : .charListAgain ∈ ls) :
    Keeps (sending (Made ls)) (resendCharList E J c) := by
  intro s
  refine keepsAt_packetFree (keepsAt_writes fun _ => ?_)
  have hopen : Opened .charListAgain (stores [addWord 1824 0, addWord 274 4] fun _ => 0) := by decide
  refine keepsAt_opened hopen (calm_unsent.note rfl) fun _ t ht => ?_
  refine keepsAt_opened ht calm_unsent.selectChars fun r t ht => ?_
  rcases r with _ | rows
  · exact keeps_pure _ t
  refine keepsAt_opened ht (calm_unsent.fetchChars _ _) fun r t ht => ?_
  rcases r with _ | chars
  · exact keeps_pure _ t
  refine keepsAt_charsWritten ht fun t ht => ?_
  exact keepsAt_bind (keepsAt_sendMade ht hl (by decide) rfl) fun _ t _ => keeps_pure _ t

theorem behind_storageFields (storageitems : Nat → CItem) : Behind (storageFields storageitems) := by
  refine behind_flatMap fun i => ?_
  simp only [Behind, addWord, addByte, List.mem_cons, List.not_mem_nil, or_false, forall_eq_or_imp,
    forall_eq]
  omega

theorem keeps_sendCharList_made (hl : .charList ∈ ls) :
    Keeps (sending (Made ls)) (sendCharList E J c) := by
  intro s
  unfold sendCharList
  refine keepsAt_packetFree ?_
  refine keepsAt_bind (calm_sending.client c _) fun thisclient t ht => ?_
  obtain rfl := (client_ok ht).2.symm
  refine keepsAt_writes fun _ => ?_
  have hopen : Opened .charList (stores [addWord 1824 0, addWord 0x010a 4,
      addWord thisclient.playerSession.userid 6] fun _ => 0) :=
    .stores 2 (by decide : Opened .charList (stores [addWord 1824 0, addWord 0x010a 4] fun _ => 0))
      (by simp [Behind, addWord])
  refine keepsAt_opened hopen (calm_unsent.note rfl) fun _ t ht => ?_
  refine keepsAt_opened ht calm_unsent.selectChars fun r t ht => ?_
  rcases r with _ | rows
  · exact keeps_pure _ t
  refine keepsAt_opened ht (calm_unsent.fetchChars _ _) fun r t ht => ?_
  rcases r with _ | chars
  · exact keeps_pure _ t
  refine keepsAt_opened ht (calm_unsent.doSQL _ _) fun r t ht => ?_
  rcases r with _ | rows
  · exact keeps_pure _ t
  refine keepsAt_opened ht (calm_unsent.fetchItems _ _ _ _) fun storageitems t ht => ?_
  refine keepsAt_charsWritten ht fun t ht =>
    keepsAt_writes_opened ht (behind_storageFields _) fun t ht =>
      keepsAt_writes_opened ht ?_ fun t ht => ?_
  · simp [Behind, addWord, addDWord, addStr, addData]
  exact keepsAt_bind (keepsAt_sendMade ht hl (by decide) rfl) fun _ t _ => keeps_pure _ t

/-! ### World entry -/

theorem behind_worldFields (cl : CConnClient) : Behind (worldFields J cl) := by
  have hitems : Behind ((List.range 78).flatMap fun i : Nat =>
      let item := cl.items i
      let off : Int := 8 * i
      [addWord item.itemid (off + 116), addByte item.add1 (off + 118), addByte item.val1 (off + 119),
        addByte item.add2 (off + 120), addByte item.val2 (off + 121), addByte item.add3 (off + 122),
        addByte item.val3 (off + 123)]) := by
    refine behind_flatMap fun i => ?_
    simp only [Behind, addWord, addByte, List.mem_cons, List.not_mem_nil, or_false,
      forall_eq_or_imp, forall_eq]
    omega
  unfold worldFields
  simp only [behind_append, behind_addByteRun (by decide : 6 ≤ 52),
    behind_addByteRun (by decide : 6 ≤ 104), behind_addByteRun (by decide : 6 ≤ 110),
    behind_addByteRun (by decide : 6 ≤ 744), behind_addByteRun (by decide : 6 ≤ 760),
    behind_addByteRun (by decide : 6 ≤ 768), behind_addByteRun (by decide : 6 ≤ 778),
    behind_addByteRun (by decide : 6 ≤ 794), behind_addByteRun (by decide : 6 ≤ 828), hitems,
    and_true]
  simp [Behind, addWord, addDWord, addByte, addStr]

theorem behind_selfFields (thisclient : CConnClient) :
    Behind ((selfFields J thisclient).drop 2) := behind_spawnCharFields thisclient

theorem keeps_sendToWorld_made (hw : .worldEntry ∈ ls) (hspawn : .spawn ∈ ls) :
    Keeps (sending (Made ls)) (sendToWorld E J c P) := by
  intro s
  refine keepsAt_packetFree (keepsAt_bind (calm_sending.client c _) fun thisclient t ht => ?_)
  obtain rfl := (client_ok ht).2.symm
  refine keepsAt_unsent (calm_unsent.rdInt _ _) fun slot t ht => ?_
  refine keepsAt_bind (calm_sending.doSQL _ _ t) fun r u hu => ?_
  rcases r with _ | rows
  · exact keeps_pure _ u
  refine keepsAt_writes fun _ => ?_
  have hopen : Opened .worldEntry (stores [addWord 1244 0, addWord 276 4,
      addWord thisclient.playerSession.clientid 6] u.packet) :=
    .stores 2 (opened_header (by decide) _ : Opened .worldEntry (stores Layout.worldEntry.header u.packet))
      (by simp [Behind, addWord])
  refine keepsAt_opened hopen (calm_unsent.selectName _) fun _ t ht => ?_
  refine keepsAt_opened ht calm_unsent.loaddata fun _ t ht => ?_
  refine keepsAt_opened ht (calm_unsent.client c) fun thisclient t ht =>
    keepsAt_writes_opened ht (behind_worldFields _) fun t ht => ?_
  refine keepsAt_bind (keepsAt_sendMade ht hw (by decide) rfl) fun _ t _ => ?_
  refine keepsAt_bind (calm_sending.modifySession _ _ t) fun _ t _ => ?_
  refine keepsAt_bind (calm_sending.modifyClient _ _ t) fun _ t _ => keepsAt_packetFree ?_
  exact keepsAt_headed (l := .spawn) rfl (behind_selfFields thisclient) (by decide) hspawn rfl
    fun t => keeps_pure _ t

/-! ### Other packets -/

theorem keeps_gameToCharList_made (hl : .toCharList ∈ ls) :
    Keeps (sending (Made ls)) (gameToCharList c) := by
  refine keeps_bind (calm_sending.client c) fun thisclient s => ?_
  refine keepsAt_headed (l := .toCharList) rfl ?_ (by decide) hl rfl fun t => keeps_pure _ t
  simp [Behind, addWord]

theorem behind_shopFields (n : CNPC) : Behind (shopFields n) := by
  refine behind_flatMap fun i => ?_
  simp only [Behind, addWord, addByte, List.mem_cons, List.not_mem_nil, or_false, forall_eq_or_imp,
    forall_eq]
  omega

theorem keeps_sendNPCSellItems_made (hl : .sellItems ∈ ls) :
    Keeps (sending (Made ls)) (sendNPCSellItems c P) := by
  refine keeps_bind (calm_sending.rdInt _ _) fun tmpid => keeps_bind keeps_get fun s' s => ?_
  refine keepsAt_packetFree (keepsAt_writes fun _ => ?_)
  have hopen : Opened .sellItems (stores [addWord 236 0, addWord 0x017C 4, addWord 30000 6]
      fun _ => 0) := .stores 2 (opened_header (by decide) _) (by simp [Behind, addWord])
  split
  · exact keeps_throw (fun _ => trivial) _
  next n _ =>
  refine keepsAt_writes_opened hopen ?_ fun t ht => keepsAt_writes_opened ht ?_ fun t ht => ?_
  · have hshop := behind_shopFields n
    split
    · exact behind_cons.mpr ⟨by simp [addWord], hshop⟩
    split
    · exact behind_cons.mpr ⟨by simp [addWord], hshop⟩
    · simp [Behind]
  · simp [Behind, addByte]
  exact keepsAt_bind (keepsAt_sendMade ht hl (by decide) rfl) fun _ t _ => keeps_pure _ t

/-! ### Commands -/

theorem keeps_pakGMNotice_made (hl : .serverMsg ∈ ls) (mem : Bytes) :
    Keeps (sending (Made ls)) (pakGMNotice J c mem) := by
  refine keeps_bind (calm_sending.strtok _ _) fun ⟨token, _, _⟩ => ?_
  cases token with
  | none => exact keeps_bind (keeps_sendServerMsg_made hl _ _) fun _ => keeps_pure _
  | some tmp =>
    intro s
    have hopen : Opened .serverMsg (stores [addWord 108 0, addByte 1 4, addByte 1 5,
        addStr J tmp 12] fun _ => 0) :=
      .stores 3 (by decide : Opened .serverMsg (stores [addWord 108 0, addByte 1 4, addByte 1 5]
        fun _ => 0)) (by simp [Behind, addStr])
    refine keepsAt_packetFree (keepsAt_writes fun _ => ?_)
    refine keepsAt_opened hopen (calm_unsent.note rfl) fun _ t ht => ?_
    have hsend : Made ls (t.first 108) := ht.made hl (by decide)
    exact keepsAt_bind (keepsAt_sendToAll hsend) fun _ t _ => keeps_pure _ t

theorem keeps_pakGMTele_made (hl : .movement ∈ ls) (x y : Int) :
    Keeps (sending (Made ls)) (pakGMTele c x y) := by
  intro s
  refine keepsAt_packetFree (keepsAt_bind (calm_sending.client c _) fun thisclient t ht => ?_)
  obtain rfl := (client_ok ht).2.symm
  have hopen : Opened .movement (stores [addByte 52 0, addWord 0x0366 4] fun _ => 0) := by decide
  refine keepsAt_writes fun _ => ?_
  have hbehind : Behind ((List.range 23).map fun i : Nat => addWord 0xcc (28 + i)) :=
    behind_map fun i => by simp only [addWord]; omega
  refine keepsAt_bind (keepsAt_sendToVisible ?_) fun _ t _ => keeps_pure _ t
  refine Opened.made (l := .movement) (.stores 2 hopen ?_) hl (by decide)
  simp only [List.cons_append, List.drop_succ_cons, List.drop_zero, behind_cons, List.nil_append,
    hbehind, and_true]
  simp [addWord]

theorem keeps_pakGMSpawn_made (hl : .spawn ∈ ls) (mobcode mobid : Int) (name : Bytes) :
    Keeps (sending (Made ls)) (pakGMSpawn J c mobcode mobid name) := by
  intro s
  refine keepsAt_packetFree (keepsAt_bind (calm_sending.client c _) fun thisclient t ht => ?_)
  obtain rfl := (client_ok ht).2.symm
  refine keepsAt_bind (keeps_get _) fun s' t ht => ?_
  cases ht
  have h12 : Behind ((List.range 12).map fun i : Nat => addByte 0xcc (18 + i)) :=
    behind_map fun i => by simp only [addByte]; omega
  have h29 : Behind ((List.range 29).map fun i : Nat => addByte 0xcc (147 + i)) :=
    behind_map fun i => by simp only [addByte]; omega
  refine keepsAt_writes fun _ => ?_
  refine keepsAt_opened (l := .spawn) (.stores 2 (opened_header (by decide) _) ?_)
    (calm_unsent.note rfl) fun _ t ht => ?_
  · simp only [List.cons_append, List.drop_succ_cons, List.drop_zero, behind_cons, behind_append,
      List.nil_append, h12, h29, and_true]
    simp [Behind, addWord, addByte, addStr]
  have hsend : Made ls (t.first 172) := ht.made hl (by decide)
  refine keepsAt_bind (keepsAt_sendToVisible hsend) fun _ t _ => ?_
  refine keeps_bind (calm_sending.change (f := fun s => { s with npcid := s.npcid + 1 }) ?_)
    (fun _ => keeps_pure _) t
  exact .of_trace (fun _ _ => rfl) fun _ => rfl

theorem keeps_pakGMItem_made (hl : .item ∈ ls)
    (slotnum itemid add1 val1 add2 val2 add3 val3 : Int) :
    Keeps (sending (Made ls)) (pakGMItem c slotnum itemid add1 val1 add2 val2 add3 val3) := by
  intro s
  refine keepsAt_packetFree (keepsAt_bind (calm_sending.client c _) fun thisclient t ht => ?_)
  obtain rfl := (client_ok ht).2.symm
  refine keepsAt_writes fun _ => ?_
  refine keepsAt_opened (l := .item) (.stores 2 (opened_header (by decide) _) ?_)
    (calm_unsent.note rfl) fun _ t ht => ?_
  · simp [Behind, addWord, addByte]
  have hsend : Made ls (t.first 24) := ht.made hl (by decide)
  exact keepsAt_bind (keepsAt_sendToVisible hsend) fun _ t _ => keeps_pure _ t

/-! ### Packets sent on -/

/-- The packets that their handlers send on. -/
def relayed : List Nat := [0x0366, 0x0333, 0x0376, 0x039d, 0x0379]

theorem word_stores_addBytes {b : Bytes} (h : 6 ≤ b.length) (D : Nat → UInt8) :
    wordAt (stores [addBytes b] D) 4 = word b 4 := by
  have hget : ∀ i, i < b.length → stores [addBytes b] D i = b.getD i 0 := by
    intro i hi
    have hb : b[i]? = some (b.getD i 0) := by simp [List.getD, List.getElem?_eq_getElem hi]
    have hat := Write.store_at (D := D) hb 0
    rwa [Nat.zero_add] at hat
  unfold wordAt word
  rw [hget 4 (by omega), hget 5 (by omega)]
  obtain ⟨b0, b1, b2, b3, b4, b5, rest, rfl⟩ : ∃ b0 b1 b2 b3 b4 b5 rest,
      b = b0 :: b1 :: b2 :: b3 :: b4 :: b5 :: rest := by
    match b, h with
    | b0 :: b1 :: b2 :: b3 :: b4 :: b5 :: rest, _ => exact ⟨b0, b1, b2, b3, b4, b5, rest, rfl⟩
  rfl

/-- The bytes of a packet copied into the buffer, its opcode among them. -/
theorem opcode_addBytes (h : 6 ≤ n) (hn : n ≤ P.mem.length) (D : Nat → UInt8) :
    wordAt (stores [addBytes ((P.mem.drop 0).take n)] D) 4 = P.opcode := by
  rw [word_stores_addBytes (by simp; omega)]
  unfold word Packet.opcode
  rw [List.drop_zero, List.drop_take, List.take_take, Nat.min_eq_left (by omega)]

theorem keeps_relay_copied (hQ : ∀ b, word b 4 = P.opcode → Q b) {copied sent : Nat}
    (hc : 6 ≤ copied) (hs : 6 ≤ sent) : Keeps (sending Q) (relay c P copied sent) := by
  intro s
  refine keepsAt_packetFree (keepsAt_bind (calm_sending.rd _ _ _) fun b t ht => ?_)
  have hmapped := rd_mapped ht
  obtain ⟨rfl, rfl⟩ := rd_ok ht
  refine keepsAt_writes fun _ => keepsAt_bind (keepsAt_sendToVisible (hQ _ ?_)) fun _ t _ =>
    keeps_pure _ t
  rw [word_first (by omega)]
  exact opcode_addBytes hc (by omega) _

theorem keeps_objectMove_copied (hQ : ∀ b, word b 4 = P.opcode → Q b) :
    Keeps (sending Q) (objectMove c P) := by
  unfold objectMove
  iterate 5 refine keeps_bind (calm_sending.rdInt _ _) fun _ => ?_
  exact keeps_bind (keeps_relay_copied hQ (by decide) (by decide)) fun _ =>
    keeps_bind (calm_sending.modifyClient _ _) fun _ => keeps_pure _

theorem keeps_changeInventory_copied (hQ : ∀ b, word b 4 = P.opcode → Q b) :
    Keeps (sending Q) (changeInventory c P) := by
  intro s
  refine keepsAt_packetFree (keepsAt_bind (calm_sending.rd _ _ _) fun b t ht => ?_)
  have hmapped := rd_mapped ht
  obtain ⟨rfl, rfl⟩ := rd_ok ht
  refine keepsAt_writes fun _ => keepsAt_bind (keepsAt_sendPacket (hQ _ ?_)) fun _ t _ =>
    keeps_pure _ t
  rw [word_first (by omega)]
  exact opcode_addBytes (by decide) (by omega) _

/-- The price is sent on; the gold and the item are the server's own packets. -/
theorem keeps_shopItemBuy_copied (hQ : ∀ b, word b 4 = P.opcode → Q b)
    (hmade : ∀ b, Made (layouts.erase .movement) b → Q b) : Keeps (sending Q) (shopItemBuy J c P) := by
  refine keeps_bind (calm_sending.client c) fun thisclient => keeps_ite (fun _ => ?_) fun _ s => ?_
  · exact keeps_sending_mono (keeps_bind (keeps_sendServerMsg_made (by decide) _ _) fun _ =>
      keeps_pure _) hmade
  refine keepsAt_packetFree (keepsAt_bind (calm_sending.rd _ _ _) fun b t ht => ?_)
  have hmapped := rd_mapped ht
  obtain ⟨rfl, rfl⟩ := rd_ok ht
  refine keepsAt_writes fun _ => keepsAt_bind (keepsAt_sendPacket (hQ _ ?_)) fun _ t _ => ?_
  · rw [word_first (by omega)]
    have hbehind : Behind [addWord 30000 6, addDWord 66000 20] := by
      simp [Behind, addWord, addDWord]
    rw [← opcode_addBytes (n := 24) (by decide) (by omega) fun _ => 0]
    exact wordAt_clear fun w hw => by
      have hoff := hbehind w hw
      exact ⟨.inr (by omega), by omega⟩
  refine keepsAt_bind (calm_sending.modifyClient _ _ t) fun _ t _ => ?_
  refine keeps_sending_mono ?_ hmade t
  intro t
  refine keepsAt_packetFree ?_
  refine keepsAt_headed (l := .gold) rfl (by simp [Behind, addWord, addDWord]) (by decide) (by decide)
    rfl fun t => ?_
  refine keepsAt_bind (calm_sending.rdInt _ _ t) fun itemid t _ => keepsAt_packetFree ?_
  refine keepsAt_bind (calm_sending.rd _ _ _) fun b t _ => ?_
  refine keepsAt_headed (l := .item) rfl ?_ (by decide) (by decide) rfl fun t => keeps_pure _ t
  simp only [List.cons_append, List.drop_succ_cons, List.drop_zero, behind_cons,
    List.nil_append, behind_addByteRun (by decide : 6 ≤ 18), and_true]
  simp [addWord, addByte]

/-! ## Steps -/

/-- A packet that a step sends on. -/
def Copied : Step → Bytes → Prop
  | .packet _ P _, b => P.opcode ∈ relayed ∧ word b 4 = P.opcode
  | _, _ => False

instance : (i : Step) → (b : Bytes) → Decidable (Copied i b)
  | .packet _ P _, b => inferInstanceAs (Decidable (P.opcode ∈ relayed ∧ word b 4 = P.opcode))
  | .addUser _, _ | .disconnectClient _, _ | .visiblityList .., _ => .isFalse nofun

/-- Handlers that send nothing but packets without a movement, but for those that teleport and
those that send a packet on. -/
theorem keeps_dispatch_sending (P : Packet) (hmade : ∀ b, Made (layouts.erase .movement) b → Q b)
    (hcopy : P.opcode ∈ relayed → ∀ b, word b 4 = P.opcode → Q b)
    (hcommand : P.opcode = 0x0334 → KeepsAt (sending Q) s (packetCommand J c P))
    (htele : P.opcode = 0x0290 → KeepsAt (sending Q) s (pakGMTele c 1047 1725)) :
    KeepsAt (sending Q) s (dispatch E J c P P.opcode) := by
  have hsent := fun {x : M Bool} (h : Keeps (sending (Made (layouts.erase .movement))) x) =>
    keeps_sending_mono h hmade
  have hmsg : ∀ f a, Keeps (sending (Made (layouts.erase .movement))) (sendServerMsg J c f a) :=
    keeps_sendServerMsg_made (by decide)
  have hresend : Keeps (sending (Made (layouts.erase .movement))) (resendCharList E J c) :=
    keeps_resendCharList_made (by decide)
  generalize hop : P.opcode = opcode at hcopy hcommand htele
  unfold dispatch
  split
  · exact hsent (calm_sending.checkLogin hmsg (keeps_sendCharList_made (by decide))) s
  · exact hsent (calm_sending.charCreate hmsg hresend) s
  · exact hsent (calm_sending.charDelete hmsg hresend) s
  · exact hsent (keeps_sendToWorld_made (by decide) (by decide)) s
  · exact keeps_objectMove_copied (fun b hb => hcopy (by decide) b (hb.trans hop)) s
  · exact keeps_pure _ s
  · exact keeps_relay_copied (fun b hb => hcopy (by decide) b (hb.trans hop)) (by decide)
      (by decide) s
  · exact hcommand rfl
  · exact htele rfl
  · exact keeps_changeInventory_copied (fun b hb => hcopy (by decide) b (hb.trans hop)) s
  · exact keeps_pure _ s
  · exact hsent (keeps_sendNPCSellItems_made (by decide)) s
  · exact keeps_relay_copied (fun b hb => hcopy (by decide) b (hb.trans hop)) (by decide)
      (by decide) s
  · exact hsent (keeps_gameToCharList_made (by decide)) s
  · exact keeps_shopItemBuy_copied (fun b hb => hcopy (by decide) b (hb.trans hop)) hmade s
  · exact keeps_pure _ s
  · exact keeps_ite (fun _ => keeps_bind (calm_sending.rd _ _) fun _ => keeps_pure _)
      (fun _ => keeps_pure _) s

theorem keeps_dispatch_made (P : Packet) : Keeps (sending fun b => Made layouts b ∨
    Copied (.packet c P J) b) (dispatch E J c P P.opcode) := by
  have hmade : ∀ {x : M Bool}, Keeps (sending (Made layouts)) x →
      Keeps (sending fun b => Made layouts b ∨ Copied (.packet c P J) b) x :=
    fun h => keeps_sending_mono h fun _ => .inl
  refine fun s => keeps_dispatch_sending P ?_ (fun hmem b hb => .inr ⟨hmem, hb⟩) (fun _ => ?_)
    fun _ => hmade (keeps_pakGMTele_made (by decide) _ _) s
  · rintro b ⟨l, hl, hb⟩
    exact .inl ⟨l, List.mem_of_mem_erase hl, hb⟩
  · exact hmade (calm_sending.packetCommand (fun f a => keeps_sendServerMsg_made (by decide) f a)
      (keeps_pakGMNotice_made (by decide)) (keeps_pakGMTele_made (by decide))
      (keeps_pakGMSpawn_made (by decide)) (keeps_pakGMItem_made (by decide))) s

/-- **What a step sends** has one of the layouts, but for the packets it sends on. -/
theorem keepsAt_step_made (s : Server) (i : Step) :
    KeepsAt (sending fun b => Made layouts b ∨ Copied i b) s (exec E i) := by
  cases i with
  | addUser J => exact keepsAt_ok rfl (sending_of_trace rfl)
  | disconnectClient c =>
    refine keeps_bind keeps_get (fun s' => keeps_ite (fun _ => ?_) fun _ => keeps_pure _) s
    exact keeps_bind (calm_sending.client c) fun _ => keeps_modify fun _ => sending_of_trace rfl
  | packet c P J =>
    refine keeps_bind keeps_get (fun s' => keeps_ite (fun _ => ?_) fun _ => keeps_pure _) s
    refine keeps_bind (calm_sending.modifyClient _ _) fun _ => ?_
    have hcontrol : Keeps (sending fun b => Made layouts b ∨ Copied (.packet c P J) b)
        (packetControl E J c P) := by
      intro s
      refine keepsAt_bind (calm_sending.rdInt _ _ s) fun op t ht => ?_
      obtain ⟨rfl, rfl⟩ := rdInt_ok ht
      exact keepsAt_bind (calm_sending.rdInt _ _ _) fun _ t _ => keeps_dispatch_made P t
    exact keeps_bind hcontrol fun _ => keeps_pure _
  | visiblityList c J =>
    refine keeps_bind keeps_get (fun s' => keeps_ite (fun _ => ?_) fun _ => keeps_pure _) s
    refine keeps_bind (keeps_sending_mono ?_ fun _ => .inl) fun _ => keeps_pure _
    exact calm_sending.visiblityList (keeps_spawnChar_made (by decide)) (keeps_spawnNPC_made (by decide))

/-- The packets a step sends, the newest first. -/
def Server.sentIn (s t : Server) : List Bytes := (s.since t).filterMap fun e => e.plain.map (·.2)

theorem mem_copies {n : Nat} {b : Bool} {e : Event} (h : e ∈ s.copies c n b) :
    e.plain.map (·.2) = some (s.first n) := by
  have hcopy : ∀ p, (s.copy n p).plain.map (·.2) = some (s.first n) := fun p => rfl
  unfold Server.copies at h
  rcases List.mem_append.mp h with h | h
  · split at h
    · rw [List.mem_singleton.mp h]
      exact hcopy c
    · cases h
  · obtain ⟨p, -, rfl⟩ := List.mem_map.mp (List.mem_reverse.mp h)
    exact hcopy p

/-- The size word of a packet the server composes is the length handed to `Encrypt`, unless
the packet is a character list. -/
theorem size_iff (E : Env) (s : Server) (i : Step) :
    ∀ b ∈ s.sentIn (fin (exec E i s)), ¬ Copied i b →
      (word b 0 = b.length ↔ word b 4 ≠ Layout.charList.opcode ∧ word b 4 ≠ Layout.charListAgain.opcode) := by
  intro b hb hc
  obtain ⟨es, he, hes⟩ := (keepsAt_step_made (E := E) s i).rel
  rw [Server.sentIn, since_eq he] at hb
  obtain ⟨e, hmem, hplain⟩ := List.mem_filterMap.mp hb
  obtain ⟨⟨c, b'⟩, hpb, rfl⟩ := Option.map_eq_some_iff.mp hplain
  obtain ⟨l, hl, h0, h4, hlen⟩ := (hes e hmem c b' hpb).resolve_right hc
  have hall : ∀ l ∈ layouts, l.size = l.length ↔
      l.opcode ≠ Layout.charList.opcode ∧ l.opcode ≠ Layout.charListAgain.opcode := by decide
  rw [h0, h4, hlen]
  exact hall l hl

/-- A server with one client that has not logged in. -/
def oneClient : Server := fin (exec Env.plain (.addUser default) (Server.start (Db.empty schema)))

theorem size_iff_toCharList :
    word [12, 0, 0, 0, 22, 1, 0, 0, 0, 0, 0, 0] 0 = 12 ↔
      word [12, 0, 0, 0, 22, 1, 0, 0, 0, 0, 0, 0] 4 ≠ Layout.charList.opcode ∧
      word [12, 0, 0, 0, 22, 1, 0, 0, 0, 0, 0, 0] 4 ≠ Layout.charListAgain.opcode :=
  size_iff Env.plain oneClient (.packet 0 (frame 0x0215 []) default) _ (by decide +kernel) (by decide)

/-- The client creates a character. -/
def creation : Step := .packet 0 (frame 0x020f (List.replicate 21 0)) default

/-- The character list is announced as 1824 bytes, and 756 are sent. -/
theorem creation_short : thrown (exec Env.plain creation oneClient) = none ∧
    ((oneClient.sentIn (fin (exec Env.plain creation oneClient))).map fun b =>
      (word b 0, b.length)) = [(1824, 756)] ∧
    ¬ ∀ b ∈ oneClient.sentIn (fin (exec Env.plain creation oneClient)),
      ¬ Copied creation b → word b 0 = b.length := by
  decide +kernel

/-- The two character lists are announced longer than they are. -/
example : layouts.filter (fun l => l.size ≠ l.length) = [.charList, .charListAgain] := by
  decide +kernel

end Destiny
