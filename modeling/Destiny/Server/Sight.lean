import Destiny.Prog.Latch
import Destiny.Server.Buffer
import Destiny.Server.Listing

/-!
# What a look around does

`VisiblityList` computes two lists from the positions, and sends a packet for every object
that it newly shows. `Server.shows` and `Server.showsNPC` say what it lists, as functions of
the state before. An object newly shown is in range of 30, one shown before in range of 50;
distances are compared by their squares. An NPC that is newly shown gets a new id
(`Server.renew`).
-/

namespace Destiny

open Text Sql Prog

/-! ## What is shown -/

/-- Whether a look around by `c` lists the client `p`. -/
def Server.shows (s : Server) (c p : Ptr) : Bool :=
  match s.heap c, s.heap p with
  | some this, some otherclient =>
    decide (c ≠ p) && otherclient.playerSession.inGame && !otherclient.isInvisibleMode &&
      latch 900 2500 (distSq this.playerPosition.current otherclient.playerPosition.current)
        (decide (p ∈ this.visibleClients))
  | _, _ => false

/-- Whether it lists the NPC at an index. -/
def Server.showsNPC (s : Server) (c : Ptr) (i : Nat) : Bool :=
  match s.heap c, s.npcList[i]? with
  | some this, some thisnpc =>
    latch 900 2500 (distSq this.playerPosition.current thisnpc.pos)
      (decide (i ∈ this.visibleNPCs))
  | _, _ => false

def Server.visible (s : Server) (c : Ptr) : List Ptr :=
  match s.heap c with
  | some cl => cl.visibleClients
  | none => []

def Server.visibleNPCs (s : Server) (c : Ptr) : List Nat :=
  match s.heap c with
  | some cl => cl.visibleNPCs
  | none => []

/-- What a look around by `c` lists, and what of it is new. -/
def Server.chars (s : Server) (c : Ptr) : List Ptr := s.clientList.filter (s.shows c)

def Server.npcs (s : Server) (c : Ptr) : List Nat :=
  (List.range s.npcList.length).filter (s.showsNPC c)

def Server.newChars (s : Server) (c : Ptr) : List Ptr := (s.chars c).filter (· ∉ s.visible c)

def Server.newNPCs (s : Server) (c : Ptr) : List Nat := (s.npcs c).filter (· ∉ s.visibleNPCs c)

/-- The NPC at an index gets a new id. -/
def Server.renew (s : Server) (now : Int) (i : Nat) : Server :=
  match s.freeID now 2000 with
  | some j => { s with
      clientIDList := setAt s.clientIDList j 0
      npcList := s.npcList.modify i fun n => { n with clientid := u16 j } }
  | none => { s with npcList := s.npcList.modify i fun n => { n with clientid := u16 0 } }

/-- NPCs get new ids one after another. -/
def Server.renews (s : Server) (now : Int) (l : List Nat) : Server :=
  l.foldl (fun s i => s.renew now i) s

/-- What showing `c` the client `p` logs, the newest event first: a packet to `c`, made from the
state of `p`. -/
def Server.charShown (s : Server) (J : Junk) (c p : Ptr) : List Event :=
  match s.heap p with
  | some o => [.spawnChar c p,
      .send c ((List.range 172).map (stores (spawnCharFields J o) fun _ => 0)) s.hash1]
  | none => []

/-- What showing `c` the NPC at an index logs. -/
def Server.npcShown (s : Server) (J : Junk) (c : Ptr) (i : Nat) : List Event :=
  match s.npcList[i]? with
  | some n => [.spawnNPC c i n.clientid,
      .send c ((List.range 172).map (stores (spawnNPCFields J n) fun _ => 0)) s.hash1]
  | none => []

/-- Clients are shown one after another. -/
def Server.charsShown (s : Server) (J : Junk) (c : Ptr) (l : List Ptr) : List Event :=
  l.reverse.flatMap (s.charShown J c)

def Server.npcsShown (s : Server) (J : Junk) (c : Ptr) (l : List Nat) : List Event :=
  l.reverse.flatMap (s.npcShown J c)

/-- The id of the NPC at an index. -/
def Server.npcId (s : Server) (i : Nat) : Nat := ((s.npcList[i]?).map (·.clientid)).getD 0

variable {J : Junk} {c p : Ptr} {i n : Nat} {s t : Server} {this : CConnClient}

theorem visible_of_some (h : s.heap c = some this) : s.visible c = this.visibleClients := by
  rw [Server.visible, h]

theorem visibleNPCs_of_some (h : s.heap c = some this) : s.visibleNPCs c = this.visibleNPCs := by
  rw [Server.visibleNPCs, h]

theorem visible_update {f : CConnClient → CConnClient}
    (hf : ∀ cl, (f cl).visibleClients = cl.visibleClients) (s : Server) (c : Ptr) :
    (s.update c f).visible = s.visible := by
  funext p
  by_cases hp : p = c
  · subst hp
    cases h : s.heap p <;> simp [Server.visible, Server.update, h, hf]
  · simp [Server.visible, Server.update, hp]

/-! ## Packets -/

theorem packetFree_ok {u : Unit} (h : packetFree s = .ok u t) : ∃ D, t = { s with packet := D } := by
  cases h
  exact ⟨_, rfl⟩

theorem writes_ok {ws : List Write} {u : Unit} (h : writes ws s = .ok u t) :
    ∃ D, t = { s with packet := D } := by
  induction ws generalizing s with
  | nil =>
    cases h
    exact ⟨_, rfl⟩
  | cons w ws ih =>
    obtain ⟨_, s1, h1, h⟩ := of_bind_ok h
    obtain ⟨_, s2, h2, h⟩ := of_bind_ok h
    unfold check at h1
    split at h1 <;> cases h1
    cases h2
    obtain ⟨D, rfl⟩ := ih h
    exact ⟨D, rfl⟩

theorem spawnChar_ok {b : Bool} (h : spawnChar J c p s = .ok b t) : (s.heap p).isSome ∧
    ∃ D, t = { s with packet := D, trace := s.charShown J c p ++ s.trace } := by
  obtain ⟨o, s1, h1, h⟩ := of_bind_ok h
  have ho := (client_ok h1).1
  obtain rfl := (client_ok h1).2.symm
  obtain ⟨_, s2, h2, h⟩ := of_bind_ok h
  obtain rfl : s2 = { s with packet := fun _ => 0 } := by
    cases h2
    rfl
  obtain ⟨_, s3, h3, h⟩ := of_bind_ok h
  obtain ⟨rfl, -⟩ := writes_stores h3
  obtain ⟨_, s4, h4, h⟩ := of_bind_ok h
  obtain ⟨-, rfl⟩ := sendPacket_ok h4
  obtain ⟨_, s5, h5, h⟩ := of_bind_ok h
  cases h5
  cases h
  refine ⟨by rw [ho]; rfl, stores (spawnCharFields J o) fun _ => 0, ?_⟩
  rw [Server.charShown, ho]
  rfl

theorem getNewMobID_renew {id : Nat} (h : getNewMobID J s = .ok id t) :
    { t with npcList := t.npcList.modify i fun n => { n with clientid := u16 id } } =
      s.renew J.now i := by
  unfold getNewMobID getNewID at h
  unfold Server.renew
  cases hj : s.freeID J.now 2000 with
  | some j =>
    rw [hj] at h
    cases h
    rfl
  | none =>
    rw [hj] at h
    cases h
    rfl

@[simp] theorem renew_heap (s : Server) (now : Int) (i : Nat) : (s.renew now i).heap = s.heap := by
  unfold Server.renew
  split <;> rfl

@[simp] theorem renew_list (s : Server) (now : Int) (i : Nat) :
    (s.renew now i).clientList = s.clientList := by
  unfold Server.renew
  split <;> rfl

@[simp] theorem renew_hash1 (s : Server) (now : Int) (i : Nat) : (s.renew now i).hash1 = s.hash1 := by
  unfold Server.renew
  split <;> rfl

@[simp] theorem renew_trace (s : Server) (now : Int) (i : Nat) : (s.renew now i).trace = s.trace := by
  unfold Server.renew
  split <;> rfl

/-- Only the id changes, and only that of one NPC. -/
theorem renew_npcList (s : Server) (now : Int) (i : Nat) : ∃ id : Nat,
    (s.renew now i).npcList = s.npcList.modify i fun n => { n with clientid := u16 id } := by
  unfold Server.renew
  split
  · next j _ => exact ⟨j, rfl⟩
  · exact ⟨0, rfl⟩

theorem spawnNPC_ok {b : Bool} (h : spawnNPC J c i s = .ok b t) : ∃ D,
    t = { s.renew J.now i with packet := D, trace := (s.renew J.now i).npcShown J c i ++ s.trace } := by
  obtain ⟨id, s1, h1, h⟩ := of_bind_ok h
  obtain ⟨_, s2, h2, h⟩ := of_bind_ok h
  cases h2
  dsimp only at h
  rw [getNewMobID_renew h1] at h
  obtain ⟨_, s3, h3, h⟩ := of_bind_ok h
  obtain rfl : s3 = { s.renew J.now i with packet := fun _ => 0 } := by
    cases h3
    rfl
  obtain ⟨_, s4, h4, h⟩ := of_bind_ok h
  cases h4
  cases hn : (s.renew J.now i).npcList[i]? with
  | none =>
    simp only [hn] at h
    cases h
  | some n =>
  simp only [hn] at h
  obtain ⟨_, s5, h5, h⟩ := of_bind_ok h
  obtain ⟨rfl, -⟩ := writes_stores h5
  obtain ⟨_, s6, h6, h⟩ := of_bind_ok h
  obtain ⟨-, rfl⟩ := sendPacket_ok h6
  obtain ⟨_, s7, h7, h⟩ := of_bind_ok h
  cases h7
  cases h
  refine ⟨stores (spawnNPCFields J n) fun _ => 0, ?_⟩
  rw [Server.npcShown, hn, renew_hash1, ← renew_trace s J.now i, ← renew_hash1 s J.now i]
  rfl

/-! ## The loop over the clients -/

theorem charsShown_cons (s : Server) (l : List Ptr) :
    s.charsShown J c (p :: l) = s.charsShown J c l ++ s.charShown J c p := by
  simp [Server.charsShown, List.flatMap_append]

/-- Of what showing a client logs, one event is its showing. -/
theorem charShown_spawns (h : (s.heap p).isSome) :
    (s.charShown J c p).filter Event.isSpawn = [.spawnChar c p] := by
  obtain ⟨o, ho⟩ := Option.isSome_iff_exists.mp h
  rw [Server.charShown, ho]
  rfl

theorem charsShown_spawns {l : List Ptr} (h : ∀ p ∈ l, (s.heap p).isSome) :
    (s.charsShown J c l).filter Event.isSpawn = (l.map (Event.spawnChar c)).reverse := by
  induction l with
  | nil => rfl
  | cons p l ih =>
    rw [charsShown_cons, List.filter_append, ih fun q hq => h q (List.mem_cons_of_mem _ hq),
      charShown_spawns (h p List.mem_cons_self), List.map_cons, List.reverse_cons]

theorem live_of_shows (h : s.shows c p = true) : (s.heap p).isSome := by
  unfold Server.shows at h
  split at h
  · next hp => rw [hp]; rfl
  · cases h

/-- The loop over the clients `ps` lists those in sight, and shows the new ones. -/
structure SeesChars (c : Ptr) (ps new : List Ptr) (s t : Server) : Prop where
  list : new = ps.filter (s.shows c)
  state : ∃ D es, t = { s with packet := D, trace := es ++ s.trace } ∧
    es.filter Event.isSpawn = ((new.filter (· ∉ s.visible c)).map (Event.spawnChar c)).reverse

/-- The same, with all that is logged. -/
structure ShowsChars (J : Junk) (c : Ptr) (ps new : List Ptr) (s t : Server) : Prop where
  list : new = ps.filter (s.shows c)
  state : ∃ D, t = { s with
    packet := D, trace := s.charsShown J c (new.filter (· ∉ s.visible c)) ++ s.trace }

section Chars
variable {ps new : List Ptr} {D : Nat → UInt8}

theorem ShowsChars.sees (h : ShowsChars J c ps new s t) : SeesChars c ps new s t := by
  obtain ⟨rfl, D, rfl⟩ := h
  refine ⟨rfl, D, _, rfl, charsShown_spawns fun p hp => ?_⟩
  exact live_of_shows (List.mem_filter.mp (List.mem_of_mem_filter hp)).2

theorem ShowsChars.skip (h : ShowsChars J c ps new s t) (hp : s.shows c p = false) :
    ShowsChars J c (p :: ps) new s t :=
  ⟨by rw [List.filter_cons_of_neg (by rw [hp]; exact Bool.false_ne_true)]; exact h.list, h.state⟩

/-- A client that was listed before. -/
theorem ShowsChars.cons_old (h : ShowsChars J c ps new s t) (hp : s.shows c p = true)
    (hseen : p ∈ s.visible c) : ShowsChars J c (p :: ps) (p :: new) s t := by
  refine ⟨?_, ?_⟩
  · rw [List.filter_cons_of_pos hp]
    exact congrArg (p :: ·) h.list
  · rw [List.filter_cons_of_neg (by simpa using hseen)]
    exact h.state

/-- A new client, listed after the packet that shows it. -/
theorem ShowsChars.cons_new (hp : s.shows c p = true) (hseen : p ∉ s.visible c)
    (h : ShowsChars J c ps new { s with packet := D, trace := s.charShown J c p ++ s.trace } t) :
    ShowsChars J c (p :: ps) (p :: new) s t := by
  obtain ⟨hnew, D', rfl⟩ := h
  refine ⟨?_, D', ?_⟩
  · rw [List.filter_cons_of_pos hp]
    exact congrArg (p :: ·) hnew
  · rw [List.filter_cons_of_pos (by simpa using hseen), charsShown_cons, List.append_assoc]
    rfl

theorem visiblityClients_shows (hc : s.heap c = some this)
    (h : visiblityClients J c this.visibleClients ps s = .ok new t) : ShowsChars J c ps new s t := by
  induction ps generalizing s t new with
  | nil =>
    cases h
    exact ⟨rfl, _, rfl⟩
  | cons p ps ih =>
    obtain ⟨this', s1, h1, h⟩ := of_bind_ok h
    rw [client_of_some hc] at h1
    cases h1
    obtain ⟨o, s2, h2, h⟩ := of_bind_ok h
    obtain rfl := (client_ok h2).2.symm
    have hshows : s.shows c p = (decide (c ≠ p) && o.playerSession.inGame && !o.isInvisibleMode &&
        latch 900 2500 (distSq this.playerPosition.current o.playerPosition.current)
          (decide (p ∈ this.visibleClients))) := by
      rw [Server.shows, hc, (client_ok h2).1]
    have hvisible := visible_of_some hc
    split at h
    · next hcond =>
      refine (ih hc h).skip ?_
      rw [hshows]
      rcases hcond with rfl | hg
      · simp
      · simp [hg]
    next hcond =>
    rw [show (decide (c ≠ p) && o.playerSession.inGame) = true by simpa using hcond,
      Bool.true_and] at hshows
    dsimp only at h
    split at h
    · next hseen =>
      rw [decide_eq_true hseen, latch_true] at hshows
      split at h
      · next hd =>
        obtain ⟨new', u, hu, h⟩ := of_bind_ok h
        cases h
        exact (ih hc hu).cons_old (by simp [hshows, hd]) (by rw [hvisible]; exact hseen)
      · next hd =>
        obtain ⟨_, u, hu, h⟩ := of_bind_ok h
        cases hu
        refine (ih hc h).skip ?_
        rw [hshows, ← Bool.not_eq_true, Bool.and_eq_true, Bool.not_eq_true', decide_eq_true_eq]
        exact fun ⟨h1, h2⟩ => hd ⟨h2, by simp [h1]⟩
    · next hseen =>
      rw [decide_eq_false hseen, latch_false] at hshows
      split at h
      · next hd =>
        obtain ⟨_, u, hu, h⟩ := of_bind_ok h
        obtain ⟨-, D, rfl⟩ := spawnChar_ok hu
        obtain ⟨new', v, hv, h⟩ := of_bind_ok h
        cases h
        exact ShowsChars.cons_new (by simp [hshows, hd]) (by rw [hvisible]; exact hseen) (ih hc hv)
      · next hd =>
        refine (ih hc h).skip ?_
        rw [hshows, ← Bool.not_eq_true, Bool.and_eq_true, Bool.not_eq_true', decide_eq_true_eq]
        exact fun ⟨h1, h2⟩ => hd ⟨h2, by simp [h1]⟩

theorem visiblityClients_ok (hc : s.heap c = some this)
    (h : visiblityClients J c this.visibleClients ps s = .ok new t) : SeesChars c ps new s t :=
  (visiblityClients_shows hc h).sees

end Chars

/-! ## The loop over the NPCs -/

theorem npcList_renew_getElem? (s : Server) (now : Int) (i k : Nat) : ∃ id : Nat,
    (s.renew now i).npcList[k]? = (s.npcList[k]?).map fun n =>
      if i = k then { n with clientid := u16 id } else n := by
  obtain ⟨id, h⟩ := renew_npcList s now i
  refine ⟨id, ?_⟩
  rw [h, List.getElem?_modify]
  cases s.npcList[k]? with
  | none => rfl
  | some n => split <;> simp [*]

@[simp] theorem renew_length (s : Server) (now : Int) (i : Nat) :
    (s.renew now i).npcList.length = s.npcList.length := by
  obtain ⟨id, h⟩ := renew_npcList s now i
  rw [h, List.length_modify]

/-- A new id moves no NPC. -/
@[simp] theorem showsNPC_renew (s : Server) (now : Int) (i : Nat) :
    (s.renew now i).showsNPC = s.showsNPC := by
  funext c k
  obtain ⟨id, h⟩ := npcList_renew_getElem? s now i k
  unfold Server.showsNPC
  rw [renew_heap, h]
  cases s.heap c with
  | none => rfl
  | some this =>
    cases s.npcList[k]? with
    | none => rfl
    | some n =>
      show latch 900 2500 (distSq _ (if i = k then _ else n).pos) _ = _
      split <;> rfl

theorem npcId_renew_ne {now : Int} {k : Nat} (h : i ≠ k) :
    (s.renew now i).npcId k = s.npcId k := by
  obtain ⟨id, hk⟩ := npcList_renew_getElem? s now i k
  rw [Server.npcId, hk, Server.npcId]
  simp only [if_neg h, Option.map_id']

/-- Only the table of ids and the NPCs' ids change. -/
theorem renew_with (s : Server) (now : Int) (i : Nat) (D : Nat → UInt8) (tr : List Event) :
    ({ s with packet := D, trace := tr } : Server).renew now i =
      { s.renew now i with packet := D, trace := tr } := by
  show (match s.freeID now 2000 with | some j => _ | none => _) = _
  unfold Server.renew
  split <;> rfl

theorem renews_with (s : Server) (now : Int) (l : List Nat) (D : Nat → UInt8) (tr : List Event) :
    ({ s with packet := D, trace := tr } : Server).renews now l =
      { s.renews now l with packet := D, trace := tr } := by
  induction l generalizing s with
  | nil => rfl
  | cons i l ih =>
    show (({ s with packet := D, trace := tr } : Server).renew now i).renews now l = _
    rw [renew_with]
    exact ih (s.renew now i)

theorem npcId_renews {now : Int} {l : List Nat} {k : Nat} (h : k ∉ l) :
    (s.renews now l).npcId k = s.npcId k := by
  induction l generalizing s with
  | nil => rfl
  | cons i l ih =>
    rw [List.mem_cons, not_or] at h
    exact (ih h.2).trans (npcId_renew_ne (Ne.symm h.1))

/-- An NPC that gets no new id stays as it is. -/
theorem npcList_renew_ne {now : Int} {k : Nat} (h : i ≠ k) :
    (s.renew now i).npcList[k]? = s.npcList[k]? := by
  obtain ⟨id, hk⟩ := npcList_renew_getElem? s now i k
  rw [hk]
  simp only [if_neg h, Option.map_id']

theorem npcList_renews {now : Int} {l : List Nat} {k : Nat} (h : k ∉ l) :
    (s.renews now l).npcList[k]? = s.npcList[k]? := by
  induction l generalizing s with
  | nil => rfl
  | cons i l ih =>
    rw [List.mem_cons, not_or] at h
    exact (ih h.2).trans (npcList_renew_ne (Ne.symm h.1))

@[simp] theorem renews_hash1 (s : Server) (now : Int) (l : List Nat) :
    (s.renews now l).hash1 = s.hash1 := by
  induction l generalizing s with
  | nil => rfl
  | cons i l ih => exact (ih _).trans (renew_hash1 s now i)

@[simp] theorem renews_length (s : Server) (now : Int) (l : List Nat) :
    (s.renews now l).npcList.length = s.npcList.length := by
  induction l generalizing s with
  | nil => rfl
  | cons i l ih => exact (ih _).trans (renew_length s now i)

theorem npcShown_renews {now : Int} {l : List Nat} {k : Nat} (h : k ∉ l) :
    (s.renews now l).npcShown J c k = s.npcShown J c k := by
  unfold Server.npcShown
  rw [npcList_renews h, renews_hash1]

theorem npcsShown_cons (s : Server) (l : List Nat) :
    s.npcsShown J c (i :: l) = s.npcsShown J c l ++ s.npcShown J c i := by
  simp [Server.npcsShown, List.flatMap_append]

theorem npcShown_spawns (h : i < s.npcList.length) :
    (s.npcShown J c i).filter Event.isSpawn = [.spawnNPC c i (s.npcId i)] := by
  rw [Server.npcShown, Server.npcId, List.getElem?_eq_getElem h]
  rfl

theorem npcsShown_spawns {l : List Nat} (h : ∀ i ∈ l, i < s.npcList.length) :
    (s.npcsShown J c l).filter Event.isSpawn =
      (l.map fun i => Event.spawnNPC c i (s.npcId i)).reverse := by
  induction l with
  | nil => rfl
  | cons i l ih =>
    rw [npcsShown_cons, List.filter_append, ih fun k hk => h k (List.mem_cons_of_mem _ hk),
      npcShown_spawns (h i List.mem_cons_self), List.map_cons, List.reverse_cons]

theorem lt_of_showsNPC (h : s.showsNPC c i = true) : i < s.npcList.length := by
  unfold Server.showsNPC at h
  split at h
  · next hi => exact (List.getElem?_eq_some_iff.mp hi).1
  · cases h

/-- The loop over the NPCs `is` lists those in sight, and shows the new ones under new ids. -/
structure SeesNPCs (now : Int) (c : Ptr) (is new : List Nat) (s t : Server) : Prop where
  list : new = is.filter (s.showsNPC c)
  state : ∃ D es, t = { s.renews now (new.filter (· ∉ s.visibleNPCs c)) with
      packet := D, trace := es ++ s.trace } ∧
    es.filter Event.isSpawn =
      ((new.filter (· ∉ s.visibleNPCs c)).map fun i => Event.spawnNPC c i (t.npcId i)).reverse

/-- The same, with all that is logged. -/
structure ShowsNPCs (J : Junk) (c : Ptr) (is new : List Nat) (s t : Server) : Prop where
  list : new = is.filter (s.showsNPC c)
  state : ∃ D, t = { s.renews J.now (new.filter (· ∉ s.visibleNPCs c)) with
    packet := D
    trace := (s.renews J.now (new.filter (· ∉ s.visibleNPCs c))).npcsShown J c
      (new.filter (· ∉ s.visibleNPCs c)) ++ s.trace }

section NPCs
variable {is new : List Nat} {D : Nat → UInt8}

theorem ShowsNPCs.sees (h : ShowsNPCs J c is new s t) : SeesNPCs J.now c is new s t := by
  obtain ⟨rfl, D, rfl⟩ := h
  refine ⟨rfl, D, _, rfl, npcsShown_spawns fun i hi => ?_⟩
  rw [renews_length]
  exact lt_of_showsNPC (List.mem_filter.mp (List.mem_of_mem_filter hi)).2

theorem ShowsNPCs.skip (h : ShowsNPCs J c is new s t) (hi : s.showsNPC c i = false) :
    ShowsNPCs J c (i :: is) new s t :=
  ⟨by rw [List.filter_cons_of_neg (by rw [hi]; exact Bool.false_ne_true)]; exact h.list, h.state⟩

/-- An NPC that was listed before. -/
theorem ShowsNPCs.cons_old (h : ShowsNPCs J c is new s t) (hi : s.showsNPC c i = true)
    (hseen : i ∈ s.visibleNPCs c) : ShowsNPCs J c (i :: is) (i :: new) s t := by
  refine ⟨?_, ?_⟩
  · rw [List.filter_cons_of_pos hi]
    exact congrArg (i :: ·) h.list
  · rw [List.filter_cons_of_neg (by simpa using hseen)]
    exact h.state

/-- A new NPC, listed after the packet that shows it. -/
theorem ShowsNPCs.cons_new (hi : s.showsNPC c i = true) (hseen : i ∉ s.visibleNPCs c) (hmem : i ∉ is)
    (h : ShowsNPCs J c is new { s.renew J.now i with
      packet := D, trace := (s.renew J.now i).npcShown J c i ++ s.trace } t) :
    ShowsNPCs J c (i :: is) (i :: new) s t := by
  obtain ⟨hnew, D', ht⟩ := h
  have hshows : ∀ D tr, ({ s.renew J.now i with packet := D, trace := tr } : Server).showsNPC c =
      s.showsNPC c := fun D tr => congrFun (showsNPC_renew s J.now i) c
  have hvis : ∀ D tr, ({ s.renew J.now i with packet := D, trace := tr } : Server).visibleNPCs c =
      s.visibleNPCs c := fun D tr => by
    show (match (s.renew J.now i).heap c with | some cl => cl.visibleNPCs | none => []) = _
    rw [renew_heap]
    rfl
  rw [hshows] at hnew
  rw [hvis, renews_with] at ht
  have hnot : i ∉ new.filter (· ∉ s.visibleNPCs c) := fun h => by
    have hin := List.mem_of_mem_filter h
    rw [hnew] at hin
    exact hmem (List.mem_of_mem_filter hin)
  refine ⟨by rw [List.filter_cons_of_pos hi, hnew], D', ?_⟩
  rw [List.filter_cons_of_pos (by simpa using hseen), npcsShown_cons, ht]
  generalize new.filter (· ∉ s.visibleNPCs c) = fresh at hnot
  let u : Server := (s.renew J.now i).renews J.now fresh
  have hshown : u.npcShown J c i = (s.renew J.now i).npcShown J c i := npcShown_renews hnot
  show ({ u with
      packet := D'
      trace := u.npcsShown J c fresh ++ ((s.renew J.now i).npcShown J c i ++ s.trace) } : Server) =
    { u with
      packet := D'
      trace := (u.npcsShown J c fresh ++ u.npcShown J c i) ++ s.trace }
  rw [hshown, List.append_assoc]

theorem visiblityNPCs_shows (hc : s.heap c = some this) (hnodup : is.Nodup)
    (h : visiblityNPCs J c this.visibleNPCs is s = .ok new t) : ShowsNPCs J c is new s t := by
  induction is generalizing s t new with
  | nil =>
    cases h
    exact ⟨rfl, _, rfl⟩
  | cons i is ih =>
    obtain ⟨hmem, hnodup⟩ := List.nodup_cons.mp hnodup
    obtain ⟨this', s1, h1, h⟩ := of_bind_ok h
    rw [client_of_some hc] at h1
    cases h1
    obtain ⟨_, s2, h2, h⟩ := of_bind_ok h
    cases h2
    cases hn : s.npcList[i]? with
    | none =>
      simp only [hn] at h
      cases h
    | some thisnpc =>
    simp only [hn] at h
    have hshows : s.showsNPC c i = latch 900 2500
        (distSq this.playerPosition.current thisnpc.pos) (decide (i ∈ this.visibleNPCs)) := by
      rw [Server.showsNPC, hc, hn]
    have hvisible := visibleNPCs_of_some hc
    split at h
    · next hseen =>
      rw [decide_eq_true hseen, latch_true] at hshows
      split at h
      · next hd =>
        obtain ⟨new', u, hu, h⟩ := of_bind_ok h
        cases h
        exact (ih hc hnodup hu).cons_old (by rw [hshows]; exact decide_eq_true hd)
          (by rw [hvisible]; exact hseen)
      · next hd =>
        obtain ⟨_, u, hu, h⟩ := of_bind_ok h
        cases hu
        exact (ih hc hnodup h).skip (by rw [hshows]; exact decide_eq_false hd)
    · next hseen =>
      rw [decide_eq_false hseen, latch_false] at hshows
      split at h
      · next hd =>
        obtain ⟨_, u, hu, h⟩ := of_bind_ok h
        obtain ⟨D, rfl⟩ := spawnNPC_ok hu
        obtain ⟨new', v, hv, h⟩ := of_bind_ok h
        cases h
        refine ShowsNPCs.cons_new (by rw [hshows]; exact decide_eq_true hd)
          (by rw [hvisible]; exact hseen) hmem (ih ?_ hnodup hv)
        show (s.renew J.now i).heap c = _
        rw [renew_heap, hc]
      · next hd =>
        exact (ih hc hnodup h).skip (by rw [hshows]; exact decide_eq_false hd)

theorem visiblityNPCs_ok (hc : s.heap c = some this) (hnodup : is.Nodup)
    (h : visiblityNPCs J c this.visibleNPCs is s = .ok new t) : SeesNPCs J.now c is new s t :=
  (visiblityNPCs_shows hc hnodup h).sees

end NPCs

/-! ## A look around -/

/-- A look around that returns has made both lists what `c` can see now, has shown what is new,
and has given the new NPCs new ids. -/
theorem visiblityList_shows {b : Bool} (h : visiblityList J c s = .ok b t) :
    b = true ∧ (s.heap c).isSome ∧ ∃ D,
      t = ({ s.renews J.now (s.newNPCs c) with
        packet := D
        trace := (s.renews J.now (s.newNPCs c)).npcsShown J c (s.newNPCs c) ++
          (s.charsShown J c (s.newChars c) ++ s.trace) } : Server).update c
        (fun cl => { cl with visibleClients := s.chars c, visibleNPCs := s.npcs c }) := by
  obtain ⟨this, s1, h1, h⟩ := of_bind_ok h
  obtain rfl := (client_ok h1).2.symm
  have hthis := (client_ok h1).1
  obtain ⟨_, s2, h2, h⟩ := of_bind_ok h
  cases h2
  obtain ⟨chars, s3, h3, h⟩ := of_bind_ok h
  obtain ⟨hchars, D3, rfl⟩ := visiblityClients_shows hthis h3
  obtain ⟨npcs, s4, h4, h⟩ := of_bind_ok h
  obtain ⟨hnpcs, D4, rfl⟩ := visiblityNPCs_shows
    (s := { s with packet := D3, trace := s.charsShown J c _ ++ s.trace }) hthis
      List.nodup_range h4
  obtain ⟨_, s5, h5, h⟩ := of_bind_ok h
  cases h5
  cases h
  obtain rfl : chars = s.chars c := hchars
  obtain rfl : npcs = s.npcs c := hnpcs
  refine ⟨rfl, by rw [hthis]; rfl, D4, ?_⟩
  rw [renews_with]
  rfl

/-- The same of a step, and what it shows. -/
theorem visiblityList_ok {E : Env} (hc : c ∈ s.clientList)
    (h : exec E (.visiblityList c J) s = .ok () t) : ∃ D es,
    t = ({ s.renews J.now (s.newNPCs c) with packet := D, trace := es ++ s.trace } : Server).update c
      (fun cl => { cl with visibleClients := s.chars c, visibleNPCs := s.npcs c }) ∧
    es.filter Event.isSpawn =
      ((s.newNPCs c).map fun i => Event.spawnNPC c i (t.npcId i)).reverse ++
        ((s.newChars c).map (Event.spawnChar c)).reverse := by
  rw [exec, connected_apply, if_pos hc] at h
  obtain ⟨_, u, hlist, h⟩ := of_bind_ok h
  cases h
  obtain ⟨-, -, D, rfl⟩ := visiblityList_shows hlist
  refine ⟨D, _, by rw [List.append_assoc], ?_⟩
  have hnpcs : ∀ i ∈ s.newNPCs c, i < (s.renews J.now (s.newNPCs c)).npcList.length := by
    intro i hi
    rw [renews_length]
    exact lt_of_showsNPC (List.mem_filter.mp (List.mem_of_mem_filter hi)).2
  have hchars : ∀ p ∈ s.newChars c, (s.heap p).isSome := fun p hp =>
    live_of_shows (List.mem_filter.mp (List.mem_of_mem_filter hp)).2
  rw [List.filter_append, npcsShown_spawns hnpcs, charsShown_spawns hchars]
  rfl

@[simp] theorem renews_heap (s : Server) (now : Int) (l : List Nat) :
    (s.renews now l).heap = s.heap := by
  induction l generalizing s with
  | nil => rfl
  | cons i l ih => exact (ih _).trans (renew_heap s now i)

@[simp] theorem renews_list (s : Server) (now : Int) (l : List Nat) :
    (s.renews now l).clientList = s.clientList := by
  induction l generalizing s with
  | nil => rfl
  | cons i l ih => exact (ih _).trans (renew_list s now i)

section Look
variable {E : Env} (hc : c ∈ s.clientList) (h : exec E (.visiblityList c J) s = .ok () t)
include hc h

theorem look_list : t.clientList = s.clientList := by
  obtain ⟨D, es, rfl, -⟩ := visiblityList_ok hc h
  exact renews_list s J.now _

/-- Only the client's own lists change. -/
theorem look_heap (p : Ptr) : t.heap p = if p = c then (s.heap p).map (fun cl =>
    { cl with visibleClients := s.chars c, visibleNPCs := s.npcs c }) else s.heap p := by
  obtain ⟨D, es, rfl, -⟩ := visiblityList_ok hc h
  show (if p = c then ((s.renews J.now _).heap p).map _ else (s.renews J.now _).heap p) = _
  rw [renews_heap]

theorem look_visible_ne {p : Ptr} (hp : p ≠ c) : t.visible p = s.visible p := by
  rw [Server.visible, look_heap hc h, if_neg hp]
  rfl

theorem look_visible (hs : s.Sound) : t.visible c = s.chars c := by
  obtain ⟨cl, hcl⟩ := Option.isSome_iff_exists.mp ((hs.live c).mpr hc)
  rw [Server.visible, look_heap hc h, if_pos rfl, hcl]
  rfl

theorem look_visibleNPCs_ne {p : Ptr} (hp : p ≠ c) : t.visibleNPCs p = s.visibleNPCs p := by
  rw [Server.visibleNPCs, look_heap hc h, if_neg hp]
  rfl

theorem look_visibleNPCs (hs : s.Sound) : t.visibleNPCs c = s.npcs c := by
  obtain ⟨cl, hcl⟩ := Option.isSome_iff_exists.mp ((hs.live c).mpr hc)
  rw [Server.visibleNPCs, look_heap hc h, if_pos rfl, hcl]
  rfl

end Look

/-- What a look around that ends in a fault has done before. -/
theorem visiblityList_error {E : Env} {F : Frame Fault Server} (hB : Basic F)
    (hp : ∀ p, Derefs F p) (hs : Spawns F c) (hi : Ids F) (hn : Npcs F) {e : Fault}
    (h : exec E (.visiblityList c J) s = .error e t) : F.rel s t := by
  rw [exec, connected_apply] at h
  split at h
  swap
  · cases h
  rcases of_bind_error h with h | ⟨_, _, -, h⟩
  swap
  · cases h
  rcases of_bind_error h with h | ⟨this, s1, h1, h⟩
  · exact (keeps_client (hp c)).rel_error h
  obtain rfl := (client_ok h1).2.symm
  rcases of_bind_error h with h | ⟨_, s2, h2, h⟩
  · cases h
  cases h2
  have hchars : Keeps F (visiblityClients J c this.visibleClients s.clientList) :=
    keeps_visiblityClients hB (hp c) hs _ fun p _ => hp p
  have hnpcs := keeps_visiblityNPCs (J := J) hB (hp c) hs hi hn this.visibleNPCs
    (List.range s.npcList.length)
  rcases of_bind_error h with h | ⟨_, s3, h3, h⟩
  · exact hchars.rel_error h
  refine F.trans (hchars.rel_ok h3) ?_
  rcases of_bind_error h with h | ⟨_, s4, h4, h⟩
  · exact hnpcs.rel_error h
  refine F.trans (hnpcs.rel_ok h4) ?_
  rcases of_bind_error h with h | ⟨_, s5, h5, h⟩
  · cases h
  · cases h

/-! ## Lists change in a look around only -/

/-- What a client sees, and whether it can be seen. -/
def CConnClient.lists (cl : CConnClient) : List Ptr × List Nat × Bool :=
  (cl.visibleClients, cl.visibleNPCs, cl.isInvisibleMode)

/-- All clients' lists are unchanged. -/
def listsView : Frame Fault Server := .same fun s p => (s.heap p).map CConnClient.lists

theorem listsView_of_heap (h : t.heap = s.heap) : listsView.rel s t := by
  funext p
  show (t.heap p).map _ = (s.heap p).map _
  rw [h]

theorem listsView_update {f : CConnClient → CConnClient} (hf : ∀ cl, (f cl).lists = cl.lists)
    (s : Server) (c : Ptr) : listsView.rel s (s.update c f) := by
  funext p
  show (if p = c then (s.heap p).map f else s.heap p).map _ = (s.heap p).map _
  split
  · cases s.heap p with
    | none => rfl
    | some cl => exact congrArg some (hf cl)
  · rfl

theorem lists_of_sight {a b : CConnClient} (h : a.sight = b.sight) : a.lists = b.lists := by
  unfold CConnClient.lists
  rw [CConnClient.clients_of_sight h, CConnClient.npcs_of_sight h, CConnClient.invisible_of_sight h]

theorem open_listsView (c : Ptr) : Open listsView c where
  packet _ _ := listsView_of_heap rfl
  calls _ := listsView_of_heap rfl
  send _ _ _ _ := listsView_of_heap rfl
  fault _ _ _ _ := trivial
  derefs _ _ := trivial
  visible _ _ _ _ _ _ := trivial
  listed _ _ _ _ := trivial
  reads _ _ := listsView_of_heap rfl
  npcId _ _ := listsView_of_heap rfl
  body s _ hf := listsView_update (fun cl => lists_of_sight (hf cl).1) s c
  data _ _ := listsView_of_heap rfl
  ids _ _ _ _ _ := listsView_of_heap rfl
  moves s _ hf := listsView_update (fun cl => lists_of_sight (hf cl)) s c
  lists := ⟨fun _ => listsView_of_heap rfl, fun _ _ => listsView_of_heap rfl, fun _ => trivial⟩

theorem session_listsView (f : CAccount → CAccount) : Session listsView c f := fun s =>
  listsView_update (f := fun cl => { cl with playerSession := f cl.playerSession })
    (fun _ => rfl) s c

/-- No packet changes a list. -/
theorem lists_packet {E : Env} {P : Packet} :
    listsView.rel s (fin (exec E (.packet c P J) s)) := by
  have hF := open_listsView c
  exact (hF.free.exec_packet session_listsView (fun _ _ _ => listsView_of_heap rfl)
    (fun _ _ _ => listsView_of_heap rfl) P fun _ => hF.moves).rel

/-- Nor does a look around that ends in a fault. -/
theorem lists_visiblityList_error {E : Env} {e : Fault}
    (h : exec E (.visiblityList c J) s = .error e t) : listsView.rel s t :=
  visiblityList_error (open_listsView c).toBasic (fun _ _ _ => trivial)
    ⟨fun _ _ => listsView_of_heap rfl, fun _ _ _ => listsView_of_heap rfl⟩
    (open_listsView c).ids (fun _ _ => listsView_of_heap rfl) h

theorem visible_of_listsView (h : listsView.rel s t) : t.visible = s.visible := by
  funext p
  have hp : (t.heap p).map CConnClient.lists = (s.heap p).map CConnClient.lists := congrFun h p
  unfold Server.visible
  rcases ht : t.heap p with _ | cl' <;> rcases hs : s.heap p with _ | cl <;> rw [ht, hs] at hp
  · exact absurd hp.symm (Option.some_ne_none _)
  · exact absurd hp (Option.some_ne_none _)
  · exact congrArg (·.1) (Option.some.inj hp)

theorem visibleNPCs_of_listsView (h : listsView.rel s t) : t.visibleNPCs = s.visibleNPCs := by
  funext p
  have hp : (t.heap p).map CConnClient.lists = (s.heap p).map CConnClient.lists := congrFun h p
  unfold Server.visibleNPCs
  rcases ht : t.heap p with _ | cl' <;> rcases hs : s.heap p with _ | cl <;> rw [ht, hs] at hp
  · exact absurd hp.symm (Option.some_ne_none _)
  · exact absurd hp (Option.some_ne_none _)
  · exact congrArg (·.2.1) (Option.some.inj hp)

/-! ## Places change in a move or a world entry only -/

/-- All other clients are unchanged. -/
def others (c : Ptr) : Frame Fault Server := .same fun s p => if p = c then none else s.heap p

theorem others_of_heap (h : t.heap = s.heap) : (others c).rel s t := by
  show (fun p => if p = c then none else t.heap p) = _
  rw [h]

theorem others_update (f : CConnClient → CConnClient) (s : Server) (c : Ptr) :
    (others c).rel s (s.update c f) := by
  funext p
  show (if p = c then none else if p = c then (s.heap p).map f else s.heap p) =
    if p = c then none else s.heap p
  split <;> rfl

theorem open_others (c : Ptr) : Open (others c) c where
  packet _ _ := others_of_heap rfl
  calls _ := others_of_heap rfl
  send _ _ _ _ := others_of_heap rfl
  fault _ _ _ _ := trivial
  derefs _ _ := trivial
  visible _ _ _ _ _ _ := trivial
  listed _ _ _ _ := trivial
  reads _ _ := others_of_heap rfl
  npcId _ _ := others_of_heap rfl
  body s f _ := others_update f s c
  data _ _ := others_of_heap rfl
  ids _ _ _ _ _ := others_of_heap rfl
  moves s f _ := others_update f s c
  lists := ⟨fun _ => others_of_heap rfl, fun _ _ => others_of_heap rfl, fun _ => trivial⟩

/-- A packet changes no client but its own. -/
theorem others_packet {E : Env} {P : Packet} :
    (others c).rel s (fin (exec E (.packet c P J) s)) := by
  have hF := open_others c
  exact (hF.free.exec_packet (fun _ s => others_update _ s c) (fun _ _ _ => others_of_heap rfl)
    (fun _ _ _ => others_of_heap rfl) P fun _ => hF.moves).rel

theorem heap_of_others (h : (others c).rel s t) (hp : p ≠ c) : t.heap p = s.heap p := by
  have h := congrFun h p
  simpa only [if_neg hp] using h

/-- Nobody moves. -/
def placesView : Frame Fault Server := .same fun s p => (s.heap p).map (·.playerPosition)

theorem placesView_of_heap (h : t.heap = s.heap) : placesView.rel s t := by
  funext p
  show (t.heap p).map _ = (s.heap p).map _
  rw [h]

theorem placesView_update {f : CConnClient → CConnClient}
    (hf : ∀ cl, (f cl).playerPosition = cl.playerPosition) (s : Server) (c : Ptr) :
    placesView.rel s (s.update c f) := by
  funext p
  show (if p = c then (s.heap p).map f else s.heap p).map _ = (s.heap p).map _
  split
  · cases s.heap p with
    | none => rfl
    | some cl => exact congrArg some (hf cl)
  · rfl

theorem free_placesView (c : Ptr) : Free placesView c where
  packet _ _ := placesView_of_heap rfl
  calls _ := placesView_of_heap rfl
  send _ _ _ _ := placesView_of_heap rfl
  fault _ _ _ _ := trivial
  derefs _ _ := trivial
  visible _ _ _ _ _ _ := trivial
  listed _ _ _ _ := trivial
  reads _ _ := placesView_of_heap rfl
  npcId _ _ := placesView_of_heap rfl
  body s _ hf := placesView_update (fun cl => (hf cl).2) s c
  data _ _ := placesView_of_heap rfl
  ids _ _ _ _ _ := placesView_of_heap rfl
  lists := ⟨fun _ => placesView_of_heap rfl, fun _ _ => placesView_of_heap rfl, fun _ => trivial⟩

theorem session_placesView (f : CAccount → CAccount) : Session placesView c f := fun s =>
  placesView_update (f := fun cl => { cl with playerSession := f cl.playerSession })
    (fun _ => rfl) s c

theorem places_packet {E : Env} {P : Packet} (hm : P.opcode ≠ 0x0366) (hw : P.opcode ≠ 0x0213) :
    placesView.rel s (fin (exec E (.packet c P J) s)) := by
  exact ((free_placesView c).exec_packet session_placesView (fun _ _ _ => placesView_of_heap rfl)
    (fun _ _ _ => placesView_of_heap rfl) P fun h => (h.elim hw hm).elim).rel

end Destiny
