import Destiny.Server.Control

/-!
# Operations that send nothing

Most of what a handler does neither looks at the packet buffer nor sends a packet. A property
of programs that holds of these few operations, and is closed under sequencing (`Calm`), holds
of all helper functions of the handlers that neither write a packet nor send one.
-/

namespace Destiny

open Text Sql Prog

/-- What a send hands to `Encrypt`, and for whom. -/
def Event.plain : Event → Option (Ptr × Bytes)
  | .send c plain _ => some (c, plain)
  | _ => none

/-- A change of the state that leaves the packet buffer alone, does not depend on it, and logs
no send. -/
structure Unsent (f : Server → Server) : Prop where
  apart : ∀ s D, f { s with packet := D } = { f s with packet := D }
  trace : ∀ s, ∃ es, (f s).trace = es ++ s.trace ∧ ∀ e ∈ es, e.plain = none

theorem Unsent.of_trace {f : Server → Server}
    (apart : ∀ s D, f { s with packet := D } = { f s with packet := D })
    (h : ∀ s, (f s).trace = s.trace) : Unsent f :=
  ⟨apart, fun s => ⟨[], h s, by simp⟩⟩

structure Calm (p : ∀ α, M α → Prop) : Prop where
  pure : ∀ {α : Type} (a : α), p α (pure a)
  throw : ∀ {α : Type} (e : Fault), p α (throw e)
  bind : ∀ {α β : Type} {x : M α} {f : α → M β}, p α x → (∀ a, p β (f a)) → p β (x >>= f)
  get : ∀ {α : Type} {f : Server → M α}, (∀ s D, f { s with packet := D } = f s) →
    (∀ s, p α (f s)) → p α (get >>= f)
  client : ∀ c, p CConnClient (client c)
  query : ∀ E text, p _ (mysqlQuery E text)
  newID : ∀ J i, p Nat (getNewID J i)
  change : ∀ {f}, Unsent f → p PUnit (modify f)

variable {p : ∀ α, M α → Prop} (h : Calm p) {E : Env} {J : Junk} {c : Ptr} {P : Packet}

section
include h

theorem Calm.check (q : Prop) [Decidable q] (e : Fault) : p _ (check q e) := by
  unfold Destiny.check
  split
  · exact h.pure _
  · exact h.throw e

theorem Calm.modifyClient (c : Ptr) (f : CConnClient → CConnClient) : p _ (modifyClient c f) :=
  h.change (.of_trace (fun _ _ => rfl) fun _ => rfl)

theorem Calm.modifySession (c : Ptr) (f : CAccount → CAccount) : p _ (modifySession c f) :=
  h.modifyClient c _

theorem Calm.note {e : Event} (he : e.plain = none) : p _ (note e) :=
  h.change ⟨fun _ _ => rfl, fun s => ⟨[e], rfl, by simpa using he⟩⟩

/-! ## Queries -/

theorem Calm.doSQL (fmt : String) (args : List Arg) : p _ (doSQL E fmt args) :=
  h.bind (h.check _ _) fun _ => h.query E _

theorem Calm.col (row : Fetched) (i : Nat) : p _ (col row i) := by
  unfold Destiny.col
  split
  · exact h.pure _
  · exact h.throw _

theorem Calm.colInt (row : Fetched) (i : Nat) : p _ (colInt row i) :=
  h.bind (h.col row i) fun _ => h.pure _

theorem Calm.colName (row : Fetched) (i : Nat) : p _ (colName row i) :=
  h.bind (h.col row i) fun _ => h.bind (h.check _ _) fun _ => h.pure _

theorem Calm.colItem (row : Fetched) : p _ (colItem row) := by
  unfold Destiny.colItem
  iterate 7 refine h.bind (h.colInt _ _) fun _ => ?_
  exact h.pure _

theorem Calm.fetchItems (n : Nat) (e : Fault) (rows : List Fetched) (items : Nat → CItem) :
    p _ (fetchItems n e rows items) := by
  induction rows generalizing items with
  | nil => exact h.pure _
  | cons row rows ih =>
    exact h.bind (h.colInt _ _) fun _ => h.bind (h.check _ _) fun _ =>
      h.bind (h.colItem _) fun _ => ih _

/-! ## Packets received -/

theorem Calm.rd (off n : Nat) : p _ (rd P off n) :=
  h.bind (h.change (.of_trace (fun _ _ => rfl) fun _ => rfl)) fun _ =>
    h.bind (h.check _ _) fun _ => h.pure _

theorem Calm.rdInt (off n : Nat) : p _ (rdInt P off n) := h.bind (h.rd off n) fun _ => h.pure _

theorem Calm.strtok (mem : Bytes) (i : Nat) : p _ (strtok mem i) := by
  unfold Destiny.strtok
  split
  · exact h.bind (h.change (.of_trace (fun _ _ => rfl) fun _ => rfl)) fun _ => h.throw _
  · exact h.bind (h.change (.of_trace (fun _ _ => rfl) fun _ => rfl)) fun _ => h.pure _

theorem Calm.strtokMany (n : Nat) (mem : Bytes) (i : Nat) : p _ (strtokMany n mem i) := by
  induction n generalizing mem i with
  | zero => exact h.pure _
  | succ n ih =>
    refine h.bind (h.strtok _ _) fun ⟨token, next, mem⟩ => ?_
    cases token with
    | none => exact h.pure _
    | some t =>
      refine h.bind (ih _ _) fun r => ?_
      cases r <;> exact h.pure _

theorem Calm.arguments (n : Nat) (mem : Bytes) : p _ (arguments n mem) := by
  refine h.bind (h.strtok _ _) fun ⟨token, next, mem⟩ => ?_
  cases token with
  | none => exact h.throw _
  | some t =>
    refine h.bind (h.strtokMany _ _ _) fun r => ?_
    cases r <;> exact h.pure _

/-! ## Character lists -/

theorem Calm.selectChars : p _ (selectChars E c) := h.bind (h.client c) fun _ => h.doSQL _ _

theorem Calm.fetchChars (rows : List Fetched) (chars : List CCharacter) :
    p _ (fetchChars E J rows chars) := by
  induction rows generalizing chars with
  | nil => exact h.pure _
  | cons row rows ih =>
    unfold Destiny.fetchChars
    refine h.bind (h.check _ _) fun _ => h.bind (h.colName _ _) fun _ => ?_
    iterate 8 refine h.bind (h.colInt _ _) fun _ => ?_
    refine h.bind (h.col _ _) fun _ => h.bind (h.doSQL _ _) fun r => ?_
    cases r with
    | none => exact h.pure _
    | some rows2 => exact h.bind (h.fetchItems _ _ _ _) fun _ => ih _

theorem Calm.lastPosid (rows : List Fetched) (charpos : Int) : p _ (lastPosid rows charpos) := by
  induction rows generalizing charpos with
  | nil => exact h.pure _
  | cons row rows ih => exact h.bind (h.colInt _ _) fun _ => ih _

/-! ## Logins -/

theorem Calm.takeNewAccount (rows : List Fetched) : p _ (takeNewAccount c rows) := by
  induction rows with
  | nil => exact h.pure _
  | cons row rows ih =>
    refine h.bind (h.colInt _ _) fun _ => h.bind (h.modifySession _ _) fun _ =>
      h.bind (h.colInt _ _) fun acesslevel => h.bind (h.change ?_) fun _ => ih
    exact ⟨fun _ _ => rfl, fun s => ⟨[.granted c acesslevel], rfl, by simp [Event.plain]⟩⟩

theorem Calm.takeAccount (rows : List Fetched) : p _ (takeAccount J c rows) := by
  induction rows with
  | nil => exact h.pure _
  | cons row rows ih =>
    refine h.bind (h.colInt _ _) fun _ => h.bind (h.modifySession _ _) fun _ =>
      h.bind (h.newID _ _) fun clientid => h.bind (h.modifySession _ _) fun _ => ?_
    split
    · exact h.pure _
    refine h.bind (h.modifySession _ _) fun _ =>
      h.bind (h.colInt _ _) fun acesslevel => h.bind (h.change ?_) fun _ => ih
    exact ⟨fun _ _ => rfl, fun s => ⟨[.granted c acesslevel], rfl, by simp [Event.plain]⟩⟩

theorem Calm.readLogin : p _ (readLogin E c P) := by
  refine h.bind (h.rd _ _) fun _ => h.bind (h.rd _ _) fun _ => h.bind (h.rd _ _) fun _ =>
    h.bind (h.rdInt _ _) fun _ => h.bind (h.client _) fun _ => ?_
  exact h.bind (h.modifySession _ _) fun _ =>
    h.bind (h.change (.of_trace (fun _ _ => rfl) fun _ => rfl)) fun _ =>
      h.bind (h.note rfl) fun _ => h.pure _

/-! ## Creating characters -/

theorem Calm.createItems (charid : Int) (nodes : List Xml) : p _ (createItems E charid nodes) := by
  induction nodes with
  | nil => exact h.pure _
  | cons subp rest ih =>
    unfold Destiny.createItems
    split
    · split
      · exact h.bind (h.doSQL _ _) fun _ => ih
      · exact ih
    · exact ih

theorem Calm.createChars (username charname : Bytes) (charclass destpos : Nat) (charid : Int)
    (nodes : List Xml) :
    p _ (createChars E J username charname charclass destpos charid nodes) := by
  induction nodes generalizing charid with
  | nil => exact h.pure _
  | cons node rest ih =>
    unfold Destiny.createChars
    split
    · split
      · refine h.bind (h.doSQL _ _) fun _ => h.bind (h.doSQL _ _) fun r => ?_
        rcases r with _ | _ | ⟨row, _⟩
        · exact h.pure _
        · exact h.throw _
        · exact h.bind (h.colInt _ _) fun _ => h.bind (h.createItems _ _) fun _ => ih _
      · exact h.bind (h.createItems _ _) fun _ => ih _
    · exact ih _

theorem Calm.loadCreateChar (charclass : Nat) (charname : Bytes) (destpos : Nat) :
    p _ (loadCreateChar E J c charclass charname destpos) := by
  refine h.bind (h.client _) fun _ => ?_
  split
  · exact h.pure _
  split
  · exact h.pure _
  · exact h.createChars _ _ _ _ _ _

/-! ## World entry -/

theorem Calm.selectName (rows : List Fetched) : p _ (selectName c rows) := by
  induction rows with
  | nil => exact h.pure _
  | cons row rows ih =>
    exact h.bind (h.colName _ _) fun _ => h.bind (h.modifyClient _ _) fun _ => ih

theorem Calm.loaddata : p _ (loaddata E c) := by
  refine h.bind (h.client _) fun _ => h.bind (h.doSQL _ _) fun r => ?_
  rcases r with _ | _ | ⟨row, _⟩
  · exact h.pure _
  · exact h.throw _
  iterate 16 refine h.bind (h.colInt _ _) fun _ => ?_
  refine h.bind (h.modifySession _ _) fun _ => h.bind (h.modifyClient _ _) fun _ => ?_
  refine h.bind (h.col _ _) fun _ => h.bind (h.doSQL _ _) fun r => ?_
  rcases r with _ | rows
  · exact h.pure _
  exact h.bind (h.fetchItems _ _ _ _) fun _ => h.bind (h.modifyClient _ _) fun _ =>
    h.bind (h.modifySession _ _) fun _ => h.pure _

/-! ## Handlers -/

theorem Calm.checkLogin (hmsg : ∀ format args, p _ (sendServerMsg J c format args))
    (hlist : p _ (sendCharList E J c)) : p _ (checkLogin E J c P) := by
  refine h.bind h.readLogin fun ⟨u, pw, cliver⟩ => ?_
  dsimp only
  unfold checkAccount
  split
  swap
  · exact h.bind (hmsg _ _) fun _ => h.pure _
  refine h.bind (h.doSQL _ _) fun r => ?_
  rcases r with _ | rows
  · exact h.pure _
  dsimp only
  split
  · split
    swap
    · exact hmsg _ _
    -- the account is created
    refine h.bind (h.doSQL _ _) fun r => ?_
    rcases r with _ | _
    · exact h.pure _
    refine h.bind (h.note rfl) fun _ => h.bind (h.doSQL _ _) fun r => ?_
    rcases r with _ | rows
    · exact h.pure _
    exact h.bind (h.takeNewAccount _) fun _ => hlist
  refine h.bind (h.doSQL _ _) fun r => ?_
  rcases r with _ | rows
  · exact h.pure _
  dsimp only
  split
  · exact hmsg _ _
  refine h.bind (h.doSQL _ _) fun r => ?_
  rcases r with _ | rows
  · exact h.pure _
  dsimp only
  split
  · exact hmsg _ _
  refine h.bind (h.doSQL _ _) fun r => ?_
  rcases r with _ | rows
  · exact h.pure _
  dsimp only
  split
  · exact hmsg _ _
  refine h.bind (h.note rfl) fun _ => h.bind (h.doSQL _ _) fun r => ?_
  rcases r with _ | rows
  · exact h.pure _
  refine h.bind (h.takeAccount _) fun b => ?_
  cases b with
  | false => exact h.pure _
  | true => exact hlist

theorem Calm.charCreate (hmsg : ∀ format args, p _ (sendServerMsg J c format args))
    (hresend : p _ (resendCharList E J c)) : p _ (charCreate E J c P) := by
  refine h.bind (h.rd _ _) fun _ => h.bind (h.doSQL _ _) fun r => ?_
  rcases r with _ | rows
  · exact h.pure _
  dsimp only
  split
  swap
  · exact hmsg _ _
  refine h.bind (h.rdInt _ _) fun _ => h.bind (h.rdInt _ _) fun _ => ?_
  exact h.bind (h.loadCreateChar _ _ _) fun _ => hresend

theorem Calm.charDelete (hmsg : ∀ format args, p _ (sendServerMsg J c format args))
    (hresend : p _ (resendCharList E J c)) : p _ (charDelete E J c P) := by
  refine h.bind (h.rd _ _) fun _ => h.bind (h.rd _ _) fun _ => h.bind (h.client _) fun _ =>
    h.bind (h.doSQL _ _) fun r => ?_
  rcases r with _ | rows
  · exact h.pure _
  dsimp only
  split
  swap
  · exact hmsg _ _
  refine h.bind (h.doSQL _ _) fun r => ?_
  rcases r with _ | _ | ⟨row2, _⟩
  · exact h.pure _
  · exact h.throw _
  exact h.bind (h.doSQL _ _) fun _ => h.bind (h.doSQL _ _) fun _ => hresend

theorem Calm.command {accesslevel : Nat} {mem name : Bytes}
    (hmsg : ∀ format args, p _ (sendServerMsg J c format args))
    (hnotice : ∀ mem, p _ (pakGMNotice J c mem))
    (htele : name = ascii "telexy" → ¬ 90 > accesslevel → ∀ x y, p _ (pakGMTele c x y))
    (hspawn : ∀ mobcode mobid name, p _ (pakGMSpawn J c mobcode mobid name))
    (hitem : ∀ slotnum itemid add1 val1 add2 val2 add3 val3,
      p _ (pakGMItem c slotnum itemid add1 val1 add2 val2 add3 val3)) :
    p _ (command J c accesslevel mem name) := by
  have husage := fun format args => h.bind (hmsg format args) fun _ => h.pure true
  have hlow : p _ (Pure.pure true : M Bool) := h.pure _
  unfold Destiny.command
  split
  · split
    · exact hlow
    · exact hnotice _
  split
  · next hname =>
    split
    · exact hlow
    next hlevel =>
    refine h.bind (h.arguments _ _) fun r => ?_
    split
    · exact h.bind (h.note rfl) fun _ => htele hname hlevel _ _
    · exact husage _ _
  split
  · split
    · exact hlow
    refine h.bind (h.arguments _ _) fun r => ?_
    split
    · exact hspawn _ _ _
    · exact husage _ _
  split
  · exact husage _ _
  split
  · exact h.bind (h.strtokMany _ _ _) fun _ => hlow
  split
  swap
  · exact hlow
  split
  · exact hlow
  refine h.bind (h.arguments _ _) fun r => ?_
  split
  · exact hitem _ _ _ _ _ _ _ _
  · exact husage _ _

theorem Calm.packetCommand (hmsg : ∀ format args, p _ (sendServerMsg J c format args))
    (hnotice : ∀ mem, p _ (pakGMNotice J c mem)) (htele : ∀ x y, p _ (pakGMTele c x y))
    (hspawn : ∀ mobcode mobid name, p _ (pakGMSpawn J c mobcode mobid name))
    (hitem : ∀ slotnum itemid add1 val1 add2 val2 add3 val3,
      p _ (pakGMItem c slotnum itemid add1 val1 add2 val2 add3 val3)) :
    p _ (packetCommand J c P) := by
  refine h.bind (h.client _) fun _ => h.bind (h.strtok _ _) fun ⟨token, _, mem⟩ => ?_
  cases token with
  | none => exact h.pure _
  | some name => exact h.command hmsg hnotice (fun _ _ => htele) hspawn hitem

theorem Calm.visiblityClients (hspawn : ∀ o, p _ (spawnChar J c o)) (seen ps : List Ptr) :
    p _ (visiblityClients J c seen ps) := by
  induction ps with
  | nil => exact h.pure _
  | cons o ps ih =>
    have hadd := h.bind ih fun new => h.pure (o :: new)
    refine h.bind (h.client _) fun _ => h.bind (h.client _) fun _ => ?_
    dsimp only
    split
    · exact ih
    split
    · split
      · exact hadd
      · exact h.bind (h.pure _) fun _ => ih
    · split
      · exact h.bind (hspawn o) fun _ => hadd
      · exact ih

theorem Calm.visiblityNPCs (hspawn : ∀ i, p _ (spawnNPC J c i)) (seen is : List Nat) :
    p _ (visiblityNPCs J c seen is) := by
  induction is with
  | nil => exact h.pure _
  | cons i is ih =>
    have hadd := h.bind ih fun new => h.pure (i :: new)
    refine h.bind (h.client _) fun _ => h.get (fun _ _ => rfl) fun s => ?_
    dsimp only
    split
    · exact h.throw _
    split
    · split
      · exact hadd
      · exact h.bind (h.pure _) fun _ => ih
    · split
      · exact h.bind (hspawn i) fun _ => hadd
      · exact ih

theorem Calm.visiblityList (hchar : ∀ o, p _ (spawnChar J c o))
    (hnpc : ∀ i, p _ (spawnNPC J c i)) : p _ (visiblityList J c) := by
  refine h.bind (h.client _) fun _ => h.get (fun _ _ => rfl) fun s => ?_
  refine h.bind (h.visiblityClients hchar _ _) fun _ => h.bind (h.visiblityNPCs hnpc _ _) fun _ => ?_
  exact h.bind (h.modifyClient _ _) fun _ => h.pure _

end

end Destiny
