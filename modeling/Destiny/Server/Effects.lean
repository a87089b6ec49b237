import Destiny.Server.Control
import Destiny.Server.Statements

/-!
# What the operations do

Each operation keeps every frame that allows the few changes it makes. `Basic F` allows
what all handlers do: building and sending packets, and running queries that only read.
The other conditions name one further change each, so that a handler's lemma
(`Handlers.lean`) lists what it can do beyond that. An invariant then chooses a frame, and
looks only at the handlers whose changes the frame does not allow.
-/

namespace Destiny

open Text Sql Prog

/-! ## Conditions on a frame -/

/-- Allows building and sending packets and reading the database. -/
structure Basic (F : Frame Fault Server) : Prop where
  packet : ∀ s D, F.rel s { s with packet := D }
  calls : ∀ s, F.rel s { s with sqlCalls := s.sqlCalls + 1 }
  send : ∀ s p n, s.heap p ≠ none → F.rel s (s.sent p n)
  fault : ∀ s e, e ≠ .useAfterFree → e ≠ .charsIndex → F.err s e

/-- A client's session, what it sees and how it is seen. -/
def CConnClient.sight (cl : CConnClient) : CAccount × List Ptr × List Nat × Bool × Bool :=
  (cl.playerSession, cl.visibleClients, cl.visibleNPCs, cl.isInvisibleMode, cl.isActive)

section Sight
variable {a b : CConnClient} (h : a.sight = b.sight)
include h

theorem CConnClient.session_of_sight : a.playerSession = b.playerSession := congrArg (·.1) h
theorem CConnClient.clients_of_sight : a.visibleClients = b.visibleClients := congrArg (·.2.1) h
theorem CConnClient.npcs_of_sight : a.visibleNPCs = b.visibleNPCs := congrArg (·.2.2.1) h

theorem CConnClient.invisible_of_sight : a.isInvisibleMode = b.isInvisibleMode :=
  congrArg (·.2.2.2.1) h

end Sight

section Conditions
variable (F : Frame Fault Server) (c : Ptr)

/-- A fault when the client is deleted. -/
def Derefs : Prop := ∀ s, s.heap c = none → F.err s .useAfterFree

/-- A fault when a client visible to this one is deleted. -/
def DerefsVisible : Prop := ∀ s cl, s.heap c = some cl → ∀ p ∈ cl.visibleClients,
  s.heap p = none → F.err s .useAfterFree

/-- A fault when a listed client is deleted. -/
def DerefsListed : Prop := ∀ s, ∀ p ∈ s.clientList, s.heap p = none → F.err s .useAfterFree

def Logs (e : Event) : Prop := ∀ s, F.rel s { s with trace := e :: s.trace }

/-- Reads of the received packet. -/
def Reads : Prop := ∀ s l, F.rel s { s with reads := l }

/-- Changes to the database. -/
def Data : Prop := ∀ s db, F.rel s { s with db := db }

/-- Ids given out. -/
def Ids : Prop := ∀ s now i j, s.freeID now i = some j →
  F.rel s { s with clientIDList := setAt s.clientIDList j 0 }

/-- Ids given to NPCs. -/
def Npcs : Prop := ∀ s l, F.rel s { s with npcList := l }

/-- The counter of spawned monsters. -/
def NpcId : Prop := ∀ s n, F.rel s { s with npcid := n }

/-- Changes to a client other than to its session, to what it sees and to how it is seen. -/
def Moves : Prop := ∀ s f, (∀ cl, (f cl).sight = cl.sight) → F.rel s (s.update c f)

/-- The same of a client that stays where it is. -/
def Body : Prop := ∀ s f, (∀ cl, (f cl).sight = cl.sight ∧
  (f cl).playerPosition = cl.playerPosition) → F.rel s (s.update c f)

/-- A change to a client's session. -/
def Session (f : CAccount → CAccount) : Prop := ∀ s,
  F.rel s (s.update c fun cl => { cl with playerSession := f cl.playerSession })

/-- Spawn packets. -/
structure Spawns : Prop where
  char : ∀ p, Logs F (.spawnChar c p)
  npc : ∀ i id, Logs F (.spawnNPC c i id)

/-- Character lists: the entries they log, and the fault of a seventh character. -/
structure Lists : Prop where
  listing : Logs F (.listing c)
  slot : ∀ charpos, Logs F (.slot c charpos)
  chars : ∀ s, F.err s .charsIndex

/-- What a login packet sets before any check. -/
structure Tries : Prop where
  names : ∀ p u, Session F c fun a => { a with password := p, username := u }
  keys : ∀ s k h, F.rel s { s with keysLogin := k, hash1 := h }
  logs : ∀ u, Logs F (.loginTry c u)

/-- A login as an account that is created. -/
structure Creates (u : Bytes) : Prop where
  ok : Logs F (.loginOk c u)
  userid : ∀ n, Session F c fun a => { a with userid := n }
  grant : ∀ s b, F.rel s (s.grant c (atoi b))

/-- A login as an account after its checks. -/
structure Logins (u : Bytes) : Prop extends Creates F c u where
  clientid : ∀ n, Session F c fun a => { a with clientid := n }
  loggedIn : Session F c fun a => { a with isLoggedIn := true }

/-- World entry. -/
structure Enters : Prop where
  charid : ∀ n, Session F c fun a => { a with charid := n }
  loggedIn : Session F c fun a => { a with isLoggedIn := true }
  inGame : Session F c fun a => { a with inGame := true }

end Conditions

/-! ## Operations -/

theorem keeps_check {F : Frame Fault Server} {p : Prop} [Decidable p] {e : Fault}
    (h : ∀ s, F.err s e) : Keeps F (check p e) :=
  keeps_ite (fun _ => keeps_pure _) fun _ => keeps_throw h

theorem keeps_client {F : Frame Fault Server} {c : Ptr} (hc : Derefs F c) : Keeps F (client c) := by
  intro s
  cases h : s.heap c with
  | some cl => exact keepsAt_ok (a := cl) (by rw [client, h]) (F.refl s)
  | none => exact keepsAt_error (e := .useAfterFree) (by rw [client, h]) (F.refl s) (hc s h)

section Client
variable {c : Ptr} {s t : Server} {cl : CConnClient}

theorem client_of_some (h : s.heap c = some cl) :
    client c s = .ok cl s := by rw [client, h]

theorem client_of_none (h : s.heap c = none) :
    client c s = .error .useAfterFree s := by rw [client, h]

theorem client_ok (h : client c s = .ok cl t) :
    s.heap c = some cl ∧ t = s := by
  unfold client at h
  split at h <;> cases h
  exact ⟨‹_›, rfl⟩

end Client

section Operations
variable {F : Frame Fault Server} (hF : Basic F) {E : Env} {J : Junk} {c : Ptr}
include hF

theorem keeps_throw_nullPtr {α : Type} : Keeps F (throw .nullPtr : M α) :=
  keeps_throw fun s => hF.fault s _ (by decide) (by decide)

theorem keeps_col (row : Fetched) (i : Nat) : Keeps F (col row i) := by
  unfold col
  split
  · exact keeps_pure _
  · exact keeps_throw_nullPtr hF

theorem keeps_colInt (row : Fetched) (i : Nat) : Keeps F (colInt row i) :=
  keeps_bind (keeps_col hF row i) fun _ => keeps_pure _

theorem keeps_colName (row : Fetched) (i : Nat) : Keeps F (colName row i) :=
  keeps_bind (keeps_col hF row i) fun _ =>
    keeps_bind (keeps_check fun s => hF.fault s _ (by decide) (by decide)) fun _ => keeps_pure _

theorem keeps_colItem (row : Fetched) : Keeps F (colItem row) := by
  unfold colItem
  iterate 7 refine keeps_bind (keeps_colInt hF _ _) fun _ => ?_
  exact keeps_pure _

theorem keeps_fetchItems {e : Fault} (he : ∀ s, F.err s e) (n : Nat) (rows : List Fetched)
    (items : Nat → CItem) : Keeps F (fetchItems n e rows items) := by
  induction rows generalizing items with
  | nil => exact keeps_pure _
  | cons row rows ih =>
    exact keeps_bind (keeps_colInt hF _ _) fun _ => keeps_bind (keeps_check he) fun _ =>
      keeps_bind (keeps_colItem hF _) fun _ => ih _

theorem keeps_packetFree : Keeps F packetFree := keeps_modify fun s => hF.packet s _

theorem keeps_writes (ws : List Write) : Keeps F (writes ws) := by
  induction ws with
  | nil => exact keeps_pure _
  | cons w ws ih =>
    exact keeps_bind (keeps_check fun s => hF.fault s _ (by decide) (by decide)) fun _ =>
      keeps_bind (keeps_modify fun s => hF.packet s _) fun _ => ih

theorem keeps_sendPacket (hc : Derefs F c) (n : Nat) : Keeps F (sendPacket c n) := by
  intro s
  refine keepsAt_bind (keeps_client hc s) fun cl t ht => ?_
  obtain ⟨h, rfl⟩ := client_ok ht
  exact keeps_modify_at (hF.send t c n (by simp [h]))

omit hF in
theorem keeps_note {e : Event} (h : Logs F e) : Keeps F (note e) := keeps_modify h

omit hF in
theorem keeps_rd (hr : Reads F) (hu : ∀ s, F.err s .unmapped) (P : Packet) (off n : Nat) :
    Keeps F (rd P off n) :=
  keeps_bind (keeps_modify fun s => hr s _) fun _ => keeps_bind (keeps_check hu) fun _ =>
    keeps_pure _

theorem keeps_rdInt (hr : Reads F) (P : Packet) (off n : Nat) : Keeps F (rdInt P off n) :=
  keeps_bind (keeps_rd hr (fun s => hF.fault s _ (by decide) (by decide)) P off n) fun _ =>
    keeps_pure _

omit hF in
theorem keeps_modifySession {f : CAccount → CAccount} (h : Session F c f) :
    Keeps F (modifySession c f) := keeps_modify h

omit hF in
theorem keeps_modifyClient (hb : Body F c) {f : CConnClient → CConnClient}
    (hf : ∀ cl, (f cl).sight = cl.sight ∧ (f cl).playerPosition = cl.playerPosition) :
    Keeps F (modifyClient c f) := keeps_modify fun s => hb s f hf

omit hF in
theorem keeps_moveClient (hm : Moves F c) {f : CConnClient → CConnClient}
    (hf : ∀ cl, (f cl).sight = cl.sight) : Keeps F (modifyClient c f) :=
  keeps_modify fun s => hm s f hf

/-- A query in general. -/
theorem keeps_doSQL (hd : Data F) (fmt : String) (args : List Arg) :
    Keeps F (doSQL E fmt args) :=
  keeps_bind (keeps_check fun s => hF.fault s _ (by decide) (by decide)) fun _ s =>
    keepsAt_ok rfl (F.trans (hF.calls s) (hd _ _))

/-- A query that only reads. -/
theorem keeps_select {fmt : String} (h : fmt ∈ Query.selects) (args : List Arg) :
    Keeps F (doSQL E fmt args) := by
  refine keeps_bind (keeps_check fun s => hF.fault s _ (by decide) (by decide)) fun _ s => ?_
  refine keepsAt_ok rfl ?_
  rw [E.sql.select s.sqlCalls s.db _ (begins_select h args)]
  exact hF.calls s

/-! ### Sends -/

omit hF in
theorem sendPacket_of_some {s : Server} {cl : CConnClient} (h : s.heap c = some cl) (n : Nat) :
    sendPacket c n s = .ok () (s.sent c n) := bind_ok (client_of_some h)

omit hF in
theorem sendPacket_ok {n : Nat} {u : Unit} {s t : Server} (h : sendPacket c n s = .ok u t) :
    (∃ cl, s.heap c = some cl) ∧ t = s.sent c n := by
  obtain ⟨cl, s1, h1, h⟩ := of_bind_ok h
  obtain rfl := (client_ok h1).2.symm
  cases h
  exact ⟨⟨cl, (client_ok h1).1⟩, rfl⟩

/-- Sends change neither the clients nor their list. -/
theorem keepsAt_sendEach {size : Nat} {ps : List Ptr} {s : Server}
    (h : ∀ t : Server, t.heap = s.heap → ∀ p ∈ ps, t.heap p = none → F.err t .useAfterFree) :
    KeepsAt F s (sendEach size ps) := by
  induction ps generalizing s with
  | nil => exact keeps_pure _ s
  | cons p ps ih =>
    cases hp : s.heap p with
    | none =>
      exact keepsAt_error (bind_error (bind_error (client_of_none hp))) (F.refl s)
        (h s rfl p List.mem_cons_self hp)
    | some cl =>
      have hsend := sendPacket_of_some hp size
      refine keepsAt_bind (keepsAt_ok hsend (hF.send s p _ (by simp [hp]))) fun _ t ht => ?_
      rw [hsend] at ht
      cases ht
      exact ih fun t ht q hq => h t ht q (List.mem_cons_of_mem _ hq)

theorem keepsAt_sendInGame {size : Nat} {ps : List Ptr} {s : Server}
    (h : ∀ t : Server, t.heap = s.heap → t.clientList = s.clientList →
      ∀ p ∈ ps, t.heap p = none → F.err t .useAfterFree) :
    KeepsAt F s (sendInGame size ps) := by
  induction ps generalizing s with
  | nil => exact keeps_pure _ s
  | cons p ps ih =>
    cases hp : s.heap p with
    | none =>
      exact keepsAt_error (bind_error (client_of_none hp)) (F.refl s)
        (h s rfl rfl p List.mem_cons_self hp)
    | some cl =>
      refine keepsAt_bind (keepsAt_ok (client_of_some hp) (F.refl s)) fun cl' t ht => ?_
      rw [client_of_some hp] at ht
      cases ht
      have hq := fun t ht hl q hq => h t ht hl q (List.mem_cons_of_mem p hq)
      cases cl.playerSession.inGame with
      | false => exact ih hq
      | true =>
        have hsend := sendPacket_of_some hp size
        refine keepsAt_bind (keepsAt_ok hsend (hF.send s p _ (by simp [hp]))) fun _ t ht => ?_
        have ht : sendPacket p size s = .ok _ t := ht
        rw [hsend] at ht
        cases ht
        exact ih hq

theorem keeps_sendToVisible (hc : Derefs F c) (hv : DerefsVisible F c) (size : Nat)
    (dothisclient : Bool) : Keeps F (sendToVisible c size dothisclient) := by
  intro s
  refine keepsAt_bind (keeps_client hc s) fun cl t ht => ?_
  obtain ⟨h, rfl⟩ := client_ok ht
  refine keepsAt_bind (keepsAt_sendEach hF fun t ht => hv t cl (by rw [ht, h])) fun _ t _ => ?_
  exact keeps_ite (fun _ => keeps_sendPacket hF hc _) (fun _ => keeps_pure _) t

theorem keeps_sendToAll (hl : DerefsListed F) (size : Nat) : Keeps F (sendToAll size) := by
  intro s
  refine keepsAt_bind (keeps_get s) fun s' t ht => ?_
  cases ht
  exact keepsAt_sendInGame hF fun t _ hlist p hp => hl t p (hlist ▸ hp)

theorem keeps_sendServerMsg (hc : Derefs F c) (format : Bytes) (args : List Arg) :
    Keeps F (sendServerMsg J c format args) :=
  keeps_bind (keeps_check fun s => hF.fault s _ (by decide) (by decide)) fun _ =>
    keeps_bind (keeps_packetFree hF) fun _ => keeps_bind (keeps_writes hF _) fun _ =>
      keeps_bind (keeps_sendPacket hF hc _) fun _ => keeps_pure _

end Operations

/-! ## What a packet says -/

def Packet.byteAt (P : Packet) (off : Nat) : Nat := ofLE ((P.mem.drop off).take 1)

/-- The account and the password a login packet names, and the version it gives. -/
def Packet.username (P : Packet) : Field 12 := .copy 12 ((P.mem.drop 24).take 12)

def Packet.password (P : Packet) : Field 12 := .copy 12 ((P.mem.drop 12).take 12)

def Packet.cliver (P : Packet) : Nat := ofLE ((P.mem.drop 92).take 2)

/-- The name in a packet about a character, and the password to delete it. -/
def Packet.charName (P : Packet) (J : Junk) : Bytes :=
  cstr ((P.mem.drop 16).take 15 ++ J.afterName)

def Packet.charPass (P : Packet) (J : Junk) : Bytes :=
  cstr ((P.mem.drop 32).take 12 ++ J.afterPass)

section Reading
variable {P : Packet} {off n : Nat} {s t : Server} {e : Fault}

theorem rd_ok {b : Bytes} (h : rd P off n s = .ok b t) :
    b = (P.mem.drop off).take n ∧ t = { s with reads := s.reads ++ List.range' off n } := by
  obtain ⟨_, u, hu, h⟩ := of_bind_ok h
  cases hu
  obtain ⟨_, v, hv, h⟩ := of_bind_ok h
  unfold check at hv
  split at hv <;> cases hv
  cases h
  exact ⟨rfl, rfl⟩

theorem rd_mapped {b : Bytes} (h : rd P off n s = .ok b t) : off + n ≤ P.mem.length := by
  obtain ⟨_, u, hu, h⟩ := of_bind_ok h
  obtain ⟨_, v, hv, h⟩ := of_bind_ok h
  unfold check at hv
  split at hv
  · assumption
  · cases hv

theorem rdInt_ok {v : Nat} (h : rdInt P off n s = .ok v t) :
    v = ofLE ((P.mem.drop off).take n) ∧ t = { s with reads := s.reads ++ List.range' off n } := by
  obtain ⟨b, u, hu, h⟩ := of_bind_ok h
  obtain ⟨rfl, rfl⟩ := rd_ok hu
  cases h
  exact ⟨rfl, rfl⟩

theorem rd_error (h : rd P off n s = .error e t) :
    e = .unmapped ∧ ∃ l, t = { s with reads := l } := by
  rcases of_bind_error h with h | ⟨_, u, hu, h⟩
  · cases h
  cases hu
  rcases of_bind_error h with h | ⟨_, v, -, h⟩
  · unfold check at h
    split at h <;> cases h
    exact ⟨rfl, _, rfl⟩
  · cases h

theorem rdInt_error (h : rdInt P off n s = .error e t) :
    e = .unmapped ∧ ∃ l, t = { s with reads := l } := by
  rcases of_bind_error h with h | ⟨_, u, -, h⟩
  · exact rd_error h
  · cases h

end Reading

end Destiny
