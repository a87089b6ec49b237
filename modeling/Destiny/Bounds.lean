import Destiny.Server.Handlers

/-!
# Reads of a received packet

No handler looks at the size of the packet it is given: each reads fixed places, or scans
for the end of a word. `Fits` is, opcode by opcode, what a packet must hold for these reads
to stay inside it. `ReadsAt n s x p` says of a program that its reads from `s` on stay
below `n` just when `p`; what it has read stays read, so the reads of a sequence stay
below `n` just when those of each part do.
-/

namespace Destiny

open Text Sql Prog

/-! ## What a packet must hold -/

/-- The scans for `k` words, each from the end of the one before, stay below `n`. -/
def Stays (n : Nat) : Nat → Bytes → Nat → Prop
  | 0, _, _ => True
  | k + 1, mem, i =>
    match scan mem i with
    | none => False
    | some r => r.last < n ∧ (r.token ≠ none →
      Stays n k (mem.set r.last 0) (if mem[r.last]? = some 0 then r.last else r.last + 1))

instance Stays.decide (n : Nat) : ∀ k mem i, Decidable (Stays n k mem i)
  | 0, _, _ => .isTrue trivial
  | k + 1, mem, i => by
    haveI := fun mem i => Stays.decide n k mem i
    unfold Stays
    split <;> infer_instance

/-- The number of words that a command looks for behind its name. -/
def words (accesslevel : Nat) (name : Bytes) : Nat :=
  if name = ascii "notice" then if 90 > accesslevel then 0 else 1
  else if name = ascii "telexy" then if 90 > accesslevel then 0 else 2
  else if name = ascii "spawn" then if 90 > accesslevel then 0 else 3
  else if name = ascii "time" then 0
  else if name = ascii "srv" then 3
  else if name = ascii "item" then if 90 > accesslevel then 0 else 8
  else 0

/-- The name of a command ends inside the packet, and so do the words behind it. -/
def FitsCommand (P : Packet) (accesslevel : Nat) : Prop :=
  match scan P.mem 12 with
  | none => False
  | some r => r.last < P.size ∧
    ∀ name ∈ r.token, Stays P.size (words accesslevel name) (P.mem.set r.last 0) 28

instance (P : Packet) (accesslevel : Nat) : Decidable (FitsCommand P accesslevel) := by
  unfold FitsCommand
  split <;> infer_instance

/-- The database answers that no character has the name in the packet. -/
def NameVacant (E : Env) (J : Junk) (s : Server) (P : Packet) : Prop :=
  (vsprintf (ascii Query.charName) [txt (P.charName J)]).length < 2000 ∧
    (E.sql.query s.sqlCalls s.db (vsprintf (ascii Query.charName) [txt (P.charName J)])).2 = some []

instance (E : Env) (J : Junk) (s : Server) (P : Packet) : Decidable (NameVacant E J s P) :=
  inferInstanceAs (Decidable (_ ∧ _))

/-- A packet with an opcode holds what the handler reads. -/
def FitsOpcode (E : Env) (J : Junk) (s : Server) (cl : CConnClient) (P : Packet) (opcode : Nat) :
    Prop :=
  match opcode with
  | 0x020d => 94 ≤ P.size
  | 0x020f => 31 ≤ P.size ∧ (NameVacant E J s P → 33 ≤ P.size)
  | 0x0211 => 44 ≤ P.size
  | 0x0213 => 13 ≤ P.size
  | 0x0366 => 53 ≤ P.size
  | 0x0333 => 109 ≤ P.size
  | 0x0334 => FitsCommand P cl.playerSession.accesslevel
  | 0x0376 => 21 ≤ P.size
  | 0x027b => 14 ≤ P.size
  | 0x039d => 96 ≤ P.size
  | 0x0379 => cl.playerInfo.gold < 66000 ∨ 24 ≤ P.size
  | _ => True

instance (E : Env) (J : Junk) (s : Server) (cl : CConnClient) (P : Packet) (opcode : Nat) :
    Decidable (FitsOpcode E J s cl P opcode) := by
  unfold FitsOpcode
  split <;> infer_instance

/-- The packet holds its header and what its handler reads. -/
def Fits (E : Env) (J : Junk) (s : Server) (cl : CConnClient) (P : Packet) : Prop :=
  8 ≤ P.size ∧ FitsOpcode E J s cl P P.opcode

instance (E : Env) (J : Junk) (s : Server) (cl : CConnClient) (P : Packet) :
    Decidable (Fits E J s cl P) := inferInstanceAs (Decidable (_ ∧ _))

variable {α β : Type} {E : Env} {J : Junk} {c : Ptr} {s t : Server} {P : Packet} {n : Nat}
  {p q : Prop}

/-! ## Reads of a program -/

/-- What `x` reads from `s` on stays below `n` just when `p`. -/
structure ReadsAt (n : Nat) (s : Server) (x : M α) (p : Prop) : Prop where
  grows : s.reads <+: (fin (x s)).reads
  below : (∀ i ∈ s.reads, i < n) → ((∀ i ∈ (fin (x s)).reads, i < n) ↔ p)

/-- The reads are unchanged. -/
def readsView : Frame Fault Server := .same Server.reads

theorem ReadsAt.of_view {x : M α} (h : KeepsAt readsView s x) : ReadsAt n s x True := by
  have hr : (fin (x s)).reads = s.reads := h.rel
  exact ⟨by rw [hr], fun hs => by simpa [hr] using hs⟩

theorem ReadsAt.congr {x : M α} (h : ReadsAt n s x p) (hp : p ↔ q) : ReadsAt n s x q :=
  ⟨h.grows, fun hs => (h.below hs).trans hp⟩

/-- The rule for sequences. A part that does not run has nothing to keep. -/
theorem ReadsAt.bind {x : M α} {f : α → M β} (hx : ReadsAt n s x p)
    (hf : ∀ a t, x s = .ok a t → ReadsAt n t (f a) q)
    (hthrow : ∀ e t, x s = .error e t → p → q) : ReadsAt n s (x >>= f) (p ∧ q) := by
  have hg := hx.grows
  have hb := hx.below
  cases h : x s with
  | ok a t =>
    rw [h] at hg hb
    have hf := hf a t h
    refine ⟨by rw [bind_ok h]; exact hg.trans hf.grows, fun hs => ?_⟩
    rw [bind_ok h, ← hb hs]
    refine ⟨fun hall => ?_, fun ⟨ht, hq⟩ => (hf.below ht).mpr hq⟩
    have ht : ∀ i ∈ t.reads, i < n := fun i hi => hall i (hf.grows.subset hi)
    exact ⟨ht, (hf.below ht).mp hall⟩
  | error e t =>
    rw [h] at hg hb
    refine ⟨by rw [bind_error h]; exact hg, fun hs => ?_⟩
    rw [bind_error h]
    exact (hb hs).trans ⟨fun hp => ⟨hp, hthrow e t h hp⟩, fun h => h.1⟩

/-- Before a part that reads, what reads nothing. -/
theorem ReadsAt.after {x : M α} {f : α → M β} (hx : Keeps readsView x)
    (hf : ∀ a t, x s = .ok a t → t.reads = s.reads → ReadsAt n t (f a) p)
    (hthrow : ∀ e t, x s = .error e t → p) : ReadsAt n s (x >>= f) p :=
  ((ReadsAt.of_view (hx s)).bind (fun a t h => hf a t h (hx.rel_ok h)) fun e t h _ =>
    hthrow e t h).congr (Iff.of_eq (true_and p))

theorem ReadsAt.ite {b : Prop} [Decidable b] {x y : M α} (hx : b → ReadsAt n s x p)
    (hy : ¬ b → ReadsAt n s y p) : ReadsAt n s (if b then x else y) p := by
  split
  · next h => exact hx h
  · next h => exact hy h

/-- A read that stays in the log bears on what comes after it. -/
theorem ReadsAt.of_read {x : M α} {i : Nat} (h : ReadsAt n s x p) (hi : i ∈ s.reads)
    (hp : i < n → (p ↔ q)) : ReadsAt n s x q :=
  ⟨h.grows, fun hs => (h.below hs).trans (hp (hs i hi))⟩

theorem readsAt_rd (P : Packet) (off : Nat) {k : Nat} (hk : 0 < k) :
    ReadsAt P.size s (rd P off k) (off + k ≤ P.size) := by
  have hfin : (fin (rd P off k s)).reads = s.reads ++ List.range' off k := by
    cases h : rd P off k s with
    | ok b t => rw [(rd_ok h).2]; rfl
    | error e t =>
      rcases of_bind_error h with h | ⟨_, u, hu, h⟩
      · cases h
      cases hu
      rcases of_bind_error h with h | ⟨_, v, -, h⟩
      · unfold check at h
        split at h <;> cases h
        rfl
      · cases h
  refine ⟨by rw [hfin]; exact List.prefix_append _ _, fun hs => ?_⟩
  simp only [hfin, List.mem_append, List.mem_range'_1]
  refine ⟨fun h => ?_, fun h i hi => hi.elim (hs i) fun hi => by omega⟩
  have := h (off + k - 1) (.inr (by omega))
  omega

theorem rd_error_size {off k : Nat} {e : Fault} (h : rd P off k s = .error e t) :
    ¬ off + k ≤ P.size := by
  rcases of_bind_error h with h | ⟨_, u, -, h⟩
  · cases h
  rcases of_bind_error h with h | ⟨_, v, -, h⟩
  · unfold check at h
    split at h
    · cases h
    · next hlen =>
      unfold Packet.mem at hlen
      rw [List.length_append] at hlen
      unfold Packet.size
      omega
  · cases h

theorem ReadsAt.rd (off : Nat) {k : Nat} {f : Bytes → M β} (hk : 0 < k)
    (hf : ∀ b t, Destiny.rd P off k s = .ok b t → ReadsAt P.size t (f b) p) :
    ReadsAt P.size s (Destiny.rd P off k >>= f) (off + k ≤ P.size ∧ p) :=
  (readsAt_rd P off hk).bind hf fun _ _ h hsize => absurd hsize (rd_error_size h)

theorem ReadsAt.rdInt (off : Nat) {k : Nat} {f : Nat → M β} (hk : 0 < k)
    (hf : ∀ v t, Destiny.rdInt P off k s = .ok v t → ReadsAt P.size t (f v) p) :
    ReadsAt P.size s (Destiny.rdInt P off k >>= f) (off + k ≤ P.size ∧ p) := by
  have hsame : Destiny.rdInt P off k >>= f = Destiny.rd P off k >>= fun b => f (ofLE b) := by
    rw [Destiny.rdInt, bind_assoc]
    simp only [pure_bind]
  rw [hsame]
  exact .rd off hk fun b t hb => hf _ t (bind_ok hb)

/-! ## What reads nothing -/

theorem basic_readsView : Basic readsView where
  packet _ _ := rfl
  calls _ := rfl
  send _ _ _ _ := rfl
  fault _ _ _ _ := trivial

theorem derefs_readsView (c : Ptr) : Derefs readsView c := fun _ _ => trivial

theorem body_readsView (c : Ptr) : Body readsView c := fun _ _ _ => rfl

theorem visible_readsView (c : Ptr) : DerefsVisible readsView c := fun _ _ _ _ _ _ => trivial

theorem enters_readsView (c : Ptr) : Enters readsView c :=
  ⟨fun _ _ => rfl, fun _ => rfl, fun _ => rfl⟩

theorem lists_readsView (c : Ptr) : Lists readsView c :=
  ⟨fun _ => rfl, fun _ _ => rfl, fun _ => trivial⟩

theorem logins_readsView (c : Ptr) (u : Bytes) : Logins readsView c u :=
  ⟨⟨fun _ => rfl, fun _ _ => rfl, fun _ _ => rfl⟩, fun _ _ => rfl, fun _ => rfl⟩

theorem keeps_doSQL_readsView (fmt : String) (args : List Arg) :
    Keeps readsView (doSQL E fmt args) := keeps_doSQL basic_readsView (fun _ _ => rfl) fmt args

theorem keeps_sendServerMsg_readsView (format : Bytes) (args : List Arg) :
    Keeps readsView (sendServerMsg J c format args) :=
  keeps_sendServerMsg basic_readsView (derefs_readsView c) format args

theorem keeps_resendCharList_readsView : Keeps readsView (resendCharList E J c) :=
  keeps_resendCharList basic_readsView (derefs_readsView c) (lists_readsView c)

theorem keeps_modify_readsView {f : Server → Server} (h : ∀ s, (f s).reads = s.reads) :
    Keeps readsView (modify f : M Unit) := keeps_modify h

theorem keeps_modifyClient_readsView (f : CConnClient → CConnClient) :
    Keeps readsView (modifyClient c f) := keeps_modify fun _ => rfl

theorem keeps_sendPacket_readsView (k : Nat) : Keeps readsView (sendPacket c k) :=
  keeps_sendPacket basic_readsView (derefs_readsView c) k

/-! ## Handlers -/

theorem readsAt_checkLogin : ReadsAt P.size s (checkLogin E J c P) (94 ≤ P.size) := by
  have hB := basic_readsView
  have hc := derefs_readsView c
  have hread : ReadsAt P.size s (readLogin E c P)
      (80 ≤ P.size ∧ 24 ≤ P.size ∧ 36 ≤ P.size ∧ 94 ≤ P.size ∧ True) := by
    refine .rd 64 (by omega) fun k _ _ => .rd 12 (by omega) fun p _ _ =>
      .rd 24 (by omega) fun u _ _ => .rdInt 92 (by omega) fun _ t _ => .of_view ?_
    refine keeps_bind (keeps_client hc) (fun cl => keeps_bind (keeps_modifySession fun _ => rfl)
      fun _ => ?_) t
    refine keeps_bind (keeps_modify (f := fun s : Server => { s with
      keysLogin := k, hash1 := E.getHash1 k cl.recvpkts }) fun _ => rfl) fun _ => ?_
    exact keeps_bind (keeps_note fun _ => rfl) fun _ => keeps_pure _
  have hcheck : ∀ u p v, Keeps readsView (checkAccount E J c u p v) := fun u p v =>
    keeps_checkAccount hB hc (keeps_doSQL_readsView _ _) (fun _ _ _ _ _ => rfl)
      (keeps_sendCharList hB hc (lists_readsView c)) (logins_readsView c u) v
  refine (hread.bind (fun ⟨u, p, v⟩ t _ => .of_view (hcheck u p v t)) fun _ _ _ _ => trivial).congr
    ⟨fun h => h.1.2.2.2.1, fun h => ⟨⟨by omega, by omega, by omega, h, trivial⟩, trivial⟩⟩

theorem readsAt_charDelete : ReadsAt P.size s (charDelete E J c P) (44 ≤ P.size) := by
  have hB := basic_readsView
  have hc := derefs_readsView c
  refine ReadsAt.congr (.rd 16 (by omega) fun nameField _ _ => .rd 32 (by omega)
    fun passField t _ => .of_view ?_) ⟨fun h => h.2.1, fun h => ⟨by omega, h, trivial⟩⟩
  refine keeps_bind (keeps_client hc) (fun _ => keeps_bind (keeps_doSQL_readsView _ _) fun r => ?_) t
  rcases r with _ | rows
  · exact keeps_pure _
  refine keeps_ite (fun _ => ?_) fun _ => keeps_sendServerMsg_readsView _ _
  refine keeps_bind (keeps_doSQL_readsView _ _) fun r => ?_
  rcases r with _ | _ | ⟨row2, rows2⟩
  · exact keeps_pure _
  · exact keeps_throw_nullPtr hB
  · exact keeps_bind (keeps_doSQL_readsView _ _) fun _ => keeps_bind (keeps_doSQL_readsView _ _)
      fun _ => keeps_resendCharList_readsView

theorem doSQL_length {fmt : String} {args : List Arg} {r : Option (List Fetched)}
    (h : doSQL E fmt args s = .ok r t) : (vsprintf (ascii fmt) args).length < 2000 := by
  obtain ⟨_, s', hs', -⟩ := of_bind_ok h
  unfold check at hs'
  split at hs'
  · next hlen => exact hlen
  · cases hs'

theorem doSQL_error_length {fmt : String} {args : List Arg} {e : Fault}
    (h : doSQL E fmt args s = .error e t) : ¬ (vsprintf (ascii fmt) args).length < 2000 := by
  intro hlen
  rcases of_bind_error h with h | ⟨_, s', -, h⟩
  · rw [check, if_pos hlen] at h
    cases h
  · cases h

theorem readsAt_charCreate : ReadsAt P.size s (charCreate E J c P)
    (31 ≤ P.size ∧ (NameVacant E J s P → 33 ≤ P.size)) := by
  have hB := basic_readsView
  have hc := derefs_readsView c
  refine ReadsAt.rd 16 (by omega) fun field t ht => ?_
  obtain ⟨rfl, rfl⟩ := rd_ok ht
  refine .after (keeps_doSQL_readsView _ _) (fun r u hu _ => ?_) fun e u hu => ?_
  · have hlen := doSQL_length hu
    obtain ⟨hr, -⟩ := doSQL_ok hu
    rcases r with _ | rows
    · refine .congr (.of_view (keeps_pure _ u)) ⟨fun _ h => ?_, fun _ => trivial⟩
      exact absurd (h.2.symm.trans hr.symm) (by simp)
    refine .ite (fun hnone => ?_) fun hsome => ?_
    · have hvacant : NameVacant E J s P := by
        rw [List.eq_nil_of_length_eq_zero hnone] at hr
        exact ⟨hlen, hr.symm⟩
      refine .congr (.rdInt 32 (by omega) fun charclass _ _ => .rdInt 12 (by omega)
        fun destpos v _ => .of_view ?_) (show 32 + 1 ≤ P.size ∧ 12 + 1 ≤ P.size ∧ True ↔ _ from
          ⟨fun h _ => h.1, fun h => ⟨h hvacant, by have := h hvacant; omega, trivial⟩⟩)
      refine keeps_bind (keeps_bind (keeps_client hc) fun cl => ?_)
        (fun _ => keeps_resendCharList_readsView) v
      split
      · exact keeps_pure _
      · refine keeps_ite (fun _ => keeps_pure _) fun _ => ?_
        exact keeps_createChars hB (fun _ => keeps_doSQL_readsView _ _)
          (fun _ _ _ _ _ _ _ _ _ => keeps_doSQL_readsView _ _) _ _
    · refine .congr (.of_view (keeps_sendServerMsg_readsView _ _ u)) ⟨fun _ h => ?_, fun _ => trivial⟩
      have hrows := Option.some.inj (h.2.symm.trans hr.symm)
      exact absurd (by rw [← hrows]; rfl) hsome
  · exact fun h => absurd h.1 (doSQL_error_length hu)

/-- Behind a part that returns and reads nothing. -/
theorem ReadsAt.of_ok {x : M α} {f : α → M β} {a : α} (hx : x s = .ok a t)
    (ht : t.reads = s.reads) (hf : ReadsAt n t (f a) p) : ReadsAt n s (x >>= f) p := by
  refine ⟨?_, fun hs => ?_⟩
  · rw [bind_ok hx, ← ht]
    exact hf.grows
  · rw [bind_ok hx]
    exact hf.below (ht ▸ hs)

theorem readsAt_sendToWorld {cl : CConnClient} (h : s.heap c = some cl) :
    ReadsAt P.size s (sendToWorld E J c P) (13 ≤ P.size) := by
  have hB := basic_readsView
  have hc := derefs_readsView c
  have hb := body_readsView c
  refine .of_ok rfl rfl (.of_ok (client_of_some h) rfl ?_)
  refine .congr (.rdInt 12 (by omega) fun slot t _ => .of_view ?_) (Iff.of_eq (and_true _))
  refine keeps_bind (keeps_doSQL_readsView _ _) (fun r => ?_) t
  rcases r with _ | rows
  · exact keeps_pure _
  refine keeps_bind (keeps_writes hB _) fun _ => keeps_bind (keeps_selectName hB hb _) fun _ => ?_
  refine keeps_bind (keeps_loaddata hB hc hb (fun _ _ _ => rfl) (enters_readsView c)) fun _ =>
    keeps_bind (keeps_client hc) fun _ => ?_
  refine keeps_bind (keeps_writes hB _) fun _ => keeps_bind (keeps_sendPacket hB hc _) fun _ => ?_
  refine keeps_bind (keeps_modifySession fun _ => rfl) fun _ => ?_
  refine keeps_bind (keeps_modifyClient hb fun _ => ⟨rfl, rfl⟩) fun _ => ?_
  refine keeps_bind (keeps_packetFree hB) fun _ => keeps_bind (keeps_writes hB _) fun _ => ?_
  exact keeps_bind (keeps_sendPacket hB hc _) fun _ => keeps_pure _

theorem readsAt_relay {copied : Nat} (h : 0 < copied) (sent : Nat) :
    ReadsAt P.size s (relay c P copied sent) (copied ≤ P.size) := by
  have hB := basic_readsView
  have hc := derefs_readsView c
  refine .of_ok rfl rfl (.congr (.rd 0 h fun b t _ => .of_view ?_) ?_)
  · exact keeps_bind (keeps_writes hB _) (fun _ => keeps_bind
      (keeps_sendToVisible hB hc (visible_readsView c) _ _) fun _ => keeps_pure _) t
  · rw [Nat.zero_add, and_true]

theorem readsAt_objectMove : ReadsAt P.size s (objectMove c P) (53 ≤ P.size) := by
  have hmove : ∀ t : Server, ∀ dx dy : Nat, ReadsAt P.size t (relay c P 53 52 >>= fun _ =>
      modifyClient c (fun cl => { cl with playerPosition := ⟨⟨dx, dy⟩, ⟨dx, dy⟩⟩ }) >>= fun _ =>
        pure true) (53 ≤ P.size ∧ True) := fun t dx dy =>
    (readsAt_relay (by omega) 52).bind (fun _ u _ => .of_view (keeps_bind
      (keeps_modifyClient_readsView _) (fun _ => keeps_pure _) u))
      fun _ _ _ _ => trivial
  refine .congr (.rdInt 6 (by omega) fun _ _ _ => .rdInt 12 (by omega) fun _ _ _ =>
    .rdInt 14 (by omega) fun _ _ _ => .rdInt 24 (by omega) fun dx _ _ =>
      .rdInt 26 (by omega) fun dy t _ => hmove t dx dy) ?_
  exact ⟨fun h => h.2.2.2.2.2.1,
    fun h => ⟨by omega, by omega, by omega, by omega, by omega, h, trivial⟩⟩

theorem readsAt_changeInventory : ReadsAt P.size s (changeInventory c P) (21 ≤ P.size) := by
  have hB := basic_readsView
  refine .of_ok rfl rfl (.congr (.rd 0 (by omega) fun b t _ => .of_view ?_)
    (Iff.of_eq (and_true _)))
  exact keeps_bind (keeps_writes hB _) (fun _ => keeps_bind
    (keeps_sendPacket hB (derefs_readsView c) _) fun _ => keeps_pure _) t

theorem readsAt_sendNPCSellItems : ReadsAt P.size s (sendNPCSellItems c P) (14 ≤ P.size) := by
  have hB := basic_readsView
  refine .congr (.rdInt 12 (by omega) fun tmpid t _ => .of_view ?_) (Iff.of_eq (and_true _))
  refine keeps_bind keeps_get (fun _ => keeps_bind (keeps_packetFree hB) fun _ =>
    keeps_bind (keeps_writes hB _) fun _ => ?_) t
  split
  · exact keeps_throw_nullPtr hB
  refine keeps_bind (keeps_writes hB _) fun _ => keeps_bind (keeps_writes hB _) fun _ => ?_
  exact keeps_bind (keeps_sendPacket hB (derefs_readsView c) _) fun _ => keeps_pure _

/-- The item and its values are read again from the bytes that were copied. -/
theorem readsAt_shopItemBuy {cl : CConnClient} (h : s.heap c = some cl) :
    ReadsAt P.size s (shopItemBuy J c P) (cl.playerInfo.gold < 66000 ∨ 24 ≤ P.size) := by
  have hB := basic_readsView
  have hc := derefs_readsView c
  refine .of_ok (client_of_some h) rfl (.ite (fun hgold => ?_) fun hgold => ?_)
  · refine .congr (.of_view (keeps_bind (keeps_sendServerMsg_readsView _ _) (fun _ => keeps_pure _) s))
      (iff_of_true trivial (.inl hgold))
  refine .congr (q := _) (.of_ok rfl rfl (.rd 0 (by omega) fun b t ht => ?_))
    (show 0 + 24 ≤ P.size ∧ True ↔ _ by simp only [hgold, false_or, and_true, Nat.zero_add])
  have ht : 23 ∈ t.reads := by
    rw [(rd_ok ht).2]
    exact List.mem_append_right _ (by decide)
  refine .after (keeps_writes hB _) (fun _ _ _ h1 => ?_) fun _ _ _ => trivial
  refine .after (keeps_sendPacket hB hc _) (fun _ _ _ h2 => ?_) fun _ _ _ => trivial
  refine .after (keeps_modifyClient_readsView _) (fun _ _ _ h3 => ?_) fun _ _ _ => trivial
  refine .after (keeps_packetFree hB) (fun _ _ _ h4 => ?_) fun _ _ _ => trivial
  refine .after (keeps_writes hB _) (fun _ _ _ h5 => ?_) fun _ _ _ => trivial
  refine .after (keeps_sendPacket hB hc _) (fun _ u _ h6 => ?_) fun _ _ _ => trivial
  have hu : 23 ∈ u.reads := by rw [h6, h5, h4, h3, h2, h1]; exact ht
  refine .of_read (p := 12 + 2 ≤ P.size ∧ 14 + 6 ≤ P.size ∧ True) (.rdInt 12 (by omega)
    fun itemid v _ => .of_ok rfl rfl (.rd 14 (by omega) fun b w _ => .of_view ?_)) hu
    fun h => iff_of_true ⟨by omega, by omega, trivial⟩ trivial
  exact keeps_bind (keeps_writes hB _) (fun _ => keeps_bind (keeps_sendPacket hB hc _) fun _ =>
    keeps_pure _) w

/-! ### Commands -/

theorem skipBlanks_ge {b : Bytes} {i j : Nat} (h : skipBlanks b i = some j) : i ≤ j := by
  induction b generalizing i with
  | nil => cases h
  | cons x b ih =>
    rw [skipBlanks] at h
    split at h
    · exact Nat.le_of_succ_le (ih h)
    · cases h
      exact Nat.le_refl _

theorem tokenEnd_ge {b : Bytes} {i j : Nat} (h : tokenEnd b i = some j) : i ≤ j := by
  induction b generalizing i with
  | nil => cases h
  | cons x b ih =>
    rw [tokenEnd] at h
    split at h
    · cases h
      exact Nat.le_refl _
    · exact Nat.le_of_succ_le (ih h)

/-- A scan only goes forward. -/
theorem scan_ge {mem : Bytes} {i : Nat} {r : Scan} (h : scan mem i = some r) : i ≤ r.last := by
  rw [scan, Option.bind_eq_bind, Option.bind_eq_some_iff] at h
  obtain ⟨j, hj, h⟩ := h
  have hij := skipBlanks_ge hj
  split at h
  · cases h
    exact hij
  · rw [Option.bind_eq_some_iff] at h
    obtain ⟨k, hk, h⟩ := h
    cases h
    exact hij.trans (tokenEnd_ge hk)

/-- The scan for a word stays below `n`, and so does what follows it. -/
def AfterScan (n : Nat) (mem : Bytes) (i : Nat) (q : Scan → Prop) : Prop :=
  match scan mem i with
  | none => False
  | some r => r.last < n ∧ q r

/-- Where `strtok` continues, and the memory it leaves. -/
def Scan.next (r : Scan) (mem : Bytes) : Nat := if mem[r.last]? = some 0 then r.last else r.last + 1

theorem ReadsAt.strtok {mem : Bytes} {i : Nat} {f : Option Bytes × Nat × Bytes → M β}
    {q : Scan → Prop} (hmem : n ≤ mem.length)
    (hf : ∀ r t, scan mem i = some r →
      ReadsAt n t (f (r.token, r.next mem, mem.set r.last 0)) (q r)) :
    ReadsAt n s (Destiny.strtok mem i >>= f) (AfterScan n mem i q) := by
  unfold AfterScan Destiny.strtok
  cases h : scan mem i with
  | none =>
    refine ⟨List.prefix_append _ _, fun _ => iff_of_false (fun hall => ?_) not_false⟩
    have := hall (max i mem.length) (List.mem_append_right _ (by
      rw [List.mem_range'_1]
      omega))
    omega
  | some r =>
    have hge := scan_ge h
    have hrest := hf r { s with reads := s.reads ++ List.range' i (r.last - i + 1) } h
    refine ⟨(List.prefix_append _ _).trans hrest.grows, fun hs => ?_⟩
    have hlog : (∀ j ∈ s.reads ++ List.range' i (r.last - i + 1), j < n) ↔ r.last < n := by
      simp only [List.mem_append, List.mem_range'_1]
      exact ⟨fun hall => hall _ (.inr (by omega)), fun hlast j hj => hj.elim (hs j) (by omega)⟩
    refine ⟨fun hall => ?_, fun ⟨hlast, hq⟩ => (hrest.below (hlog.mpr hlast)).mpr hq⟩
    have hlast := fun j hj => hall j (hrest.grows.subset hj)
    exact ⟨hlog.mp hlast, (hrest.below hlast).mp hall⟩

theorem readsAt_strtokMany {k : Nat} {mem : Bytes} {i : Nat} (hmem : n ≤ mem.length) :
    ReadsAt n s (strtokMany k mem i) (Stays n k mem i) := by
  induction k generalizing mem i s with
  | zero => exact .of_view (keeps_pure _ s)
  | succ k ih =>
    refine .congr (q := Stays n (k + 1) mem i) (.strtok hmem (q := fun r => r.token ≠ none →
      Stays n k (mem.set r.last 0) (r.next mem)) fun r t _ => ?_) Iff.rfl
    cases r.token with
    | none => exact .congr (.of_view (keeps_pure _ t)) (iff_of_true trivial fun h => absurd rfl h)
    | some w =>
      refine .congr (.bind (q := True) (ih (by rwa [List.length_set])) (fun o u _ => .of_view ?_)
        fun _ _ _ _ => trivial) ⟨fun h _ => h.1, fun h => ⟨h (by simp), trivial⟩⟩
      cases o <;> exact keeps_pure _ u

/-- The first word is needed, which makes no difference to the reads. -/
theorem readsAt_arguments {k : Nat} {mem : Bytes} (hmem : n ≤ mem.length) :
    ReadsAt n s (arguments k mem) (Stays n (k + 1) mem 28) := by
  refine .congr (q := Stays n (k + 1) mem 28) (.strtok hmem (q := fun r => r.token ≠ none →
    Stays n k (mem.set r.last 0) (r.next mem)) fun r t _ => ?_) Iff.rfl
  cases r.token with
  | none =>
    exact .congr (.of_view (keeps_throw_nullPtr basic_readsView t))
      (iff_of_true trivial fun h => absurd rfl h)
  | some w =>
    refine .congr (.bind (q := True) (readsAt_strtokMany (by rwa [List.length_set]))
      (fun o u _ => .of_view ?_) fun _ _ _ _ => trivial)
      ⟨fun h _ => h.1, fun h => ⟨h (by simp), trivial⟩⟩
    cases o <;> exact keeps_pure _ u

/-- A command that reads its words first. -/
theorem ReadsAt.words {k : Nat} {mem : Bytes} {f : Option (List Bytes) → M β}
    {x : M (Option (List Bytes))} (hx : ReadsAt n s x (Stays n k mem 28)) (hf : ∀ r, Keeps readsView (f r)) :
    ReadsAt n s (x >>= f) (Stays n k mem 28) :=
  (hx.bind (fun r t _ => .of_view (hf r t)) fun _ _ _ _ => trivial).congr (Iff.of_eq (and_true _))

theorem readsAt_command {accesslevel : Nat} {mem name : Bytes} (hmem : n ≤ mem.length) :
    ReadsAt n s (command J c accesslevel mem name) (Stays n (words accesslevel name) mem 28) := by
  have hB := basic_readsView
  have hc := derefs_readsView c
  have hv := visible_readsView c
  have hmsg := fun f a => keeps_bind (keeps_sendServerMsg_readsView (J := J) (c := c) f a) fun _ =>
    keeps_pure true
  have hlow : ReadsAt n s (pure true : M Bool) True := .of_view (keeps_pure _ s)
  unfold command words
  split
  · -- notice
    split
    · exact hlow
    refine .congr (.strtok hmem (q := fun _ => True) fun r t _ => .of_view ?_) ?_
    · cases r.token with
      | none => exact hmsg _ _ t
      | some w =>
        refine keeps_bind (keeps_packetFree hB) (fun _ => keeps_bind (keeps_writes hB _) fun _ => ?_) t
        exact keeps_bind (keeps_note fun _ => rfl) fun _ =>
          keeps_bind (keeps_sendToAll hB (fun _ _ _ _ => trivial) _) fun _ => keeps_pure _
    · unfold AfterScan Stays
      split
      · exact Iff.rfl
      · exact and_congr_right fun _ => iff_of_true trivial fun _ => trivial
  split
  · -- telexy
    split
    · exact hlow
    refine .words (readsAt_arguments hmem) fun r => ?_
    split
    · exact keeps_bind (keeps_note fun _ => rfl) fun _ => keeps_pakGMTele hB hc hv _ _
    · exact hmsg _ _
  split
  · -- spawn
    split
    · exact hlow
    refine .words (readsAt_arguments hmem) fun r => ?_
    split
    · exact keeps_pakGMSpawn hB hc hv (fun _ _ => rfl) (fun _ => rfl) _ _ _
    · exact hmsg _ _
  split
  · -- time
    exact .of_view (hmsg _ _ s)
  split
  · -- srv
    exact .words (readsAt_strtokMany hmem) fun _ => keeps_pure _
  split
  · -- item
    split
    · exact hlow
    refine .words (readsAt_arguments hmem) fun r => ?_
    split
    · exact keeps_pakGMItem hB hc hv (fun _ => rfl) _ _ _ _ _ _ _ _
    · exact hmsg _ _
  exact hlow

theorem readsAt_packetCommand {cl : CConnClient} (h : s.heap c = some cl) :
    ReadsAt P.size s (packetCommand J c P) (FitsCommand P cl.playerSession.accesslevel) := by
  have hmem : P.size ≤ P.mem.length := by
    rw [Packet.mem, List.length_append]
    exact Nat.le_add_right _ _
  refine .of_ok (client_of_some h) rfl (.congr (q := FitsCommand P cl.playerSession.accesslevel)
    (.strtok hmem (q := fun r => ∀ name ∈ r.token,
      Stays P.size (words cl.playerSession.accesslevel name) (P.mem.set r.last 0) 28)
      fun r t _ => ?_) Iff.rfl)
  cases r.token with
  | none => exact .congr (.of_view (keeps_pure _ t)) (by simp)
  | some name =>
    refine .congr (readsAt_command (by rwa [List.length_set])) ?_
    simp only [Option.mem_some_iff, forall_eq']

/-! ## Packets -/

theorem readsAt_dispatch {cl : CConnClient} (h : s.heap c = some cl) (opcode : Nat) :
    ReadsAt P.size s (dispatch E J c P opcode) (FitsOpcode E J s cl P opcode) := by
  have hB := basic_readsView
  have hc := derefs_readsView c
  have hpure : ReadsAt P.size s (pure true : M Bool) True := .of_view (keeps_pure _ s)
  unfold dispatch FitsOpcode
  split
  · exact readsAt_checkLogin
  · exact readsAt_charCreate
  · exact readsAt_charDelete
  · exact readsAt_sendToWorld h
  · exact readsAt_objectMove
  · exact hpure
  · exact readsAt_relay (by omega) _
  · exact readsAt_packetCommand h
  · exact .of_view (keeps_pakGMTele hB hc (visible_readsView c) _ _ s)
  · exact readsAt_changeInventory
  · exact hpure
  · exact readsAt_sendNPCSellItems
  · exact readsAt_relay (by omega) _
  · exact .of_view (keeps_gameToCharList hB hc s)
  · exact readsAt_shopItemBuy h
  · exact hpure
  · have hsize : ReadsAt P.size s (rd P 0 P.size) True := by
      rcases Nat.eq_zero_or_pos P.size with hzero | hpos
      · rw [hzero, rd]
        refine ReadsAt.of_ok (t := { s with reads := s.reads ++ [] }) rfl (List.append_nil _) ?_
        exact .of_view (keeps_bind (keeps_check fun _ => trivial) (fun _ => keeps_pure _) _)
      · exact (readsAt_rd P 0 hpos).congr (iff_of_true (by omega) trivial)
    have hunknown : ReadsAt P.size s (if J.fopen then do
        let _ ← rd P 0 P.size
        return true
      else return true) True := .ite (fun _ => (hsize.bind (q := True) (fun _ t _ => .of_view
        (keeps_pure _ t)) fun _ _ _ _ => trivial).congr (and_self_iff)) fun _ => hpure
    refine hunknown.congr ?_
    split <;> first | contradiction | exact Iff.rfl

/-- **The handlers read inside the packet** just when it holds its header and what the handler
that its opcode selects reads. -/
theorem reads_lt_size_iff {cl : CConnClient} (h : s.heap c = some cl) (P : Packet) :
    (∀ i ∈ (fin (packetControl E J c P { s with reads := [] })).reads, i < P.size) ↔
      Fits E J s cl P := by
  have hcontrol : ReadsAt P.size { s with reads := [] } (packetControl E J c P)
      (4 + 2 ≤ P.size ∧ 6 + 2 ≤ P.size ∧ FitsOpcode E J s cl P P.opcode) := by
    refine .rdInt 4 (by omega) fun opcode t ht => .rdInt 6 (by omega) fun _ u hu => ?_
    obtain ⟨rfl, rfl⟩ := rdInt_ok ht
    obtain ⟨-, hu⟩ := rdInt_ok hu
    have h : u.heap c = some cl := by rw [hu]; exact h
    have hfits : FitsOpcode E J u cl P P.opcode ↔ FitsOpcode E J s cl P P.opcode := by
      rw [hu]
      exact Iff.rfl
    exact (readsAt_dispatch h P.opcode).congr hfits
  refine (hcontrol.below (by simp)).trans ?_
  exact ⟨fun h => ⟨h.2.1, h.2.2⟩, fun h => ⟨by have := h.1; omega, h.1, h.2⟩⟩

/-- A server with one connection. -/
def oneUser : Server := fin (exec Env.plain (.addUser {}) (Server.start (Db.empty schema)))

/-- A whole move. -/
def longMove : { P : Packet // P.opcode = 0x0366 ∧ P.size = 53 } :=
  ⟨frame 0x0366 (List.replicate 41 0), by decide +kernel⟩

theorem reads_lt_size_iff_move :
    thrown (packetControl Env.plain {} 0 longMove oneUser) = none ∧
      ∀ i ∈ (fin (packetControl Env.plain {} 0 longMove { oneUser with reads := [] })).reads,
        i < longMove.val.size :=
  ⟨by decide +kernel, (reads_lt_size_iff (s := oneUser) (if_pos rfl) longMove).mpr
    (by decide +kernel)⟩

/-- A move of twelve bytes, all of them header. -/
def shortMove : Packet := { frame 0x0366 [] with after := List.replicate 64 0 }

/-- It is relayed with what lies behind it. -/
theorem shortMove_reads :
    shortMove.size = 12 ∧ thrown (packetControl Env.plain {} 0 shortMove oneUser) = none ∧
      ¬ ∀ i ∈ (fin (packetControl Env.plain {} 0 shortMove { oneUser with reads := [] })).reads,
        i < shortMove.size := by
  decide +kernel

/-- Without the level for it a command looks for no words. -/
example : words 90 (ascii "spawn") = 3 ∧ words 89 (ascii "spawn") = 0 := by decide +kernel

end Destiny
