import Mathlib.Data.Rat.Sqrt
import Destiny.Teleport

/-!
# Walking

`MapProcess` calls `PlayerMovement` for every client that is ready. It divides the distance to
the client's destiny by the client's speed, and the time passed by the time the way takes. The
constructor sets the speed to zero and nothing sets it again, so the divisions are sound only
as long as they are not reached: while every client in the world stands at its destiny. What
takes a client away from there is `loaddata`, which sets `current` alone.

Positions are exact numbers, and `sqrt` is any function. A quotient by zero is infinite or no
number, as it is for floats, and the function goes on with it.
-/

namespace Destiny

open Text Sql Prog

attribute [ext] FPoint

/-! ## The map thread -/

/-- What `PlayerMovement` divides by. -/
inductive Divisor where
  | moveSpeed (n : Nat)
  | ntime (t : Option ℚ)

def Divisor.NonZero : Divisor → Prop
  | .moveSpeed n => n ≠ 0
  | .ntime t => t ≠ some 0

instance : DecidablePred Divisor.NonZero
  | .moveSpeed _ => inferInstanceAs (Decidable (¬ _))
  | .ntime _ => inferInstanceAs (Decidable (¬ _))

/-- The server, and what of its clients only `PlayerMovement` looks at. `divisors` logs the
divisions, the last first. -/
structure MapState where
  server : Server
  /-- `PlayerStats->Move_Speed`. -/
  moveSpeed : Ptr → Nat
  /-- `PlayerTime->lastMoveTime`. -/
  lastMoveTime : Ptr → Int
  divisors : List Divisor

/-- `a / b`, if it is a number. -/
def quotient (a b : ℚ) : Option ℚ := if b = 0 then none else some (a / b)

/-- A call of the server. -/
def onServer {α : Type} (x : M α) : EStateM Fault MapState α := fun m =>
  match x m.server with
  | .ok a s => .ok a { m with server := s }
  | .error e s => .error e { m with server := s }

def divideBy (d : Divisor) : EStateM Fault MapState Unit :=
  modify fun m => { m with divisors := d :: m.divisors }

/-- `PlayerMovement` from where it knows the time the way takes. -/
def advance (moved : Int) (c : Ptr) (position : Currentition) (distance etime : ℚ)
    (ntime : Option ℚ) : EStateM Fault MapState Bool := do
  modify fun m => { m with lastMoveTime := setAt m.lastMoveTime c moved }
  if ntime.any (· ≤ etime) ∨ distance = 0 then do
    onServer (modifyClient c fun cl => { cl with
      playerPosition := { cl.playerPosition with current := position.destiny } })
    return true
  else do
    divideBy (.ntime ntime)
    -- what is divided by an infinite time is nothing
    let part := (ntime.map (etime / ·)).getD 0
    let dx := position.destiny.x - position.current.x
    let dy := position.destiny.y - position.current.y
    onServer (modifyClient c fun cl => { cl with
      playerPosition := { cl.playerPosition with
        current := ⟨dx * part + position.current.x, dy * part + position.current.y⟩ } })
    return true

/-- `PlayerMovement`, whose two calls of `clock` return the numbers in `clock`. -/
def playerMovement (sqrt : ℚ → ℚ) (clock : Int × Int) (c : Ptr) : EStateM Fault MapState Bool := do
  let cl ← onServer (client c)
  let position := cl.playerPosition
  if ¬ cl.playerSession.inGame ∨ ¬ cl.playerSession.isLoggedIn then return true
  else if position.current.x = position.destiny.x ∧ position.current.y = position.destiny.y then
    return true
  else do
    let dx := position.destiny.x - position.current.x
    let dy := position.destiny.y - position.current.y
    let distance := sqrt (dx * dx + dy * dy)
    let m ← get
    let etime : ℚ := clock.1 - m.lastMoveTime c
    let speed : ℚ := m.moveSpeed c / 100
    divideBy (.moveSpeed (m.moveSpeed c))
    advance clock.2 c position distance etime ((quotient distance speed).map (· * 1000))

/-- The loop of `MapProcess` over the clients. -/
def mapClients (sqrt : ℚ → ℚ) (clock : Ptr → Int × Int) : List Ptr → EStateM Fault MapState Unit
  | [] => pure ()
  | c :: cs => do
    let thisclient ← onServer (client c)
    if ¬ thisclient.ready then mapClients sqrt clock cs
    else do
      let _ ← playerMovement sqrt (clock c) c
      mapClients sqrt clock cs

inductive Motion where
  | call (i : Step)
  /-- A turn of the loop of `MapProcess`. -/
  | mapProcess (clock : Ptr → Int × Int)

/-- The constructor of a client sets its speed and its time. -/
def MapState.construct (m : MapState) : Step → MapState
  | .addUser _ => { m with
      moveSpeed := setAt m.moveSpeed m.server.nextPtr 0
      lastMoveTime := setAt m.lastMoveTime m.server.nextPtr 0 }
  | _ => m

def move (E : Env) (sqrt : ℚ → ℚ) : Motion → EStateM Fault MapState Unit
  | .call i => do
    modify fun m => m.construct i
    onServer (exec E i)
  | .mapProcess clock => do
    let m ← get
    mapClients sqrt clock m.server.clientList

/-! ## Where the divisions are reached -/

/-- A client that is at its destiny. -/
def Server.Arrived (s : Server) (c : Ptr) : Prop :=
  ∀ cl, s.heap c = some cl → cl.playerPosition.current = cl.playerPosition.destiny

/-- A client that `PlayerMovement` moves. -/
def Server.Walks (s : Server) (c : Ptr) : Prop :=
  ∃ cl, s.heap c = some cl ∧ cl.ready ∧ cl.playerSession.inGame ∧ cl.playerSession.isLoggedIn ∧
    cl.playerPosition.current ≠ cl.playerPosition.destiny

variable {E : Env} {J : Junk} {sqrt : ℚ → ℚ} {clock : Ptr → Int × Int} {m m' : MapState}
  {s t : Server} {c p : Ptr} {cs : List Ptr} {i : Step} {P : Packet}

theorem onServer_ok {α : Type} {x : M α} {a : α} (h : x m.server = .ok a s) :
    onServer x m = .ok a { m with server := s } := by
  unfold onServer
  rw [h]

/-- A turn of the loop creates and deletes no client and gives none a speed. -/
def mapFrame : Frame Fault MapState :=
  (Frame.same fun m : MapState => (m.server.shape, m.server.trace, m.moveSpeed)).both
    (.log MapState.divisors fun _ => True)

theorem mapFrame_quiet (hs : m'.server.shape = m.server.shape)
    (htrace : m'.server.trace = m.server.trace) (hspeed : m'.moveSpeed = m.moveSpeed)
    (hd : m'.divisors = m.divisors) : mapFrame.rel m m' := by
  refine ⟨?_, [], hd, List.forall_mem_nil _⟩
  show (_, _, _) = (_, _, _)
  rw [hs, htrace, hspeed]

theorem keeps_onServer_client : Keeps mapFrame (onServer (client c)) := by
  intro m
  cases h : m.server.heap c with
  | some cl => exact keepsAt_ok (onServer_ok (client_of_some h)) (mapFrame.refl m)
  | none =>
    refine keepsAt_error (e := .useAfterFree) ?_ (mapFrame.refl m) ⟨trivial, trivial⟩
    unfold onServer
    rw [client_of_none h]

theorem keeps_onServer_modify (f : CConnClient → CConnClient) :
    Keeps mapFrame (onServer (modifyClient c f)) := fun m =>
  keepsAt_ok (onServer_ok rfl) (mapFrame_quiet (m.server.update_shape c f) rfl rfl rfl)

theorem keeps_divideBy (d : Divisor) : Keeps mapFrame (divideBy d) :=
  keeps_modify fun _ => ⟨rfl, [d], rfl, fun _ _ => trivial⟩

theorem keeps_advance (moved : Int) (position : Currentition) (distance etime : ℚ)
    (ntime : Option ℚ) : Keeps mapFrame (advance moved c position distance etime ntime) := by
  refine keeps_bind (keeps_modify fun _ => mapFrame_quiet rfl rfl rfl rfl) fun _ => ?_
  refine keeps_ite (fun _ => ?_) fun _ => ?_
  · exact keeps_bind (keeps_onServer_modify _) fun _ => keeps_pure _
  · exact keeps_bind (keeps_divideBy _) fun _ => keeps_bind (keeps_onServer_modify _) fun _ =>
      keeps_pure _

theorem keeps_playerMovement (clock : Int × Int) (c : Ptr) :
    Keeps mapFrame (playerMovement sqrt clock c) := by
  refine keeps_bind keeps_onServer_client fun cl => ?_
  refine keeps_ite (fun _ => keeps_pure _) fun _ => keeps_ite (fun _ => keeps_pure _) fun _ => ?_
  exact keeps_bind keeps_get fun m => keeps_bind (keeps_divideBy _) fun _ => keeps_advance _ _ _ _ _

theorem keeps_mapClients (sqrt : ℚ → ℚ) (clock : Ptr → Int × Int) (cs : List Ptr) :
    Keeps mapFrame (mapClients sqrt clock cs) := by
  induction cs with
  | nil => exact keeps_pure _
  | cons c cs ih =>
    refine keeps_bind keeps_onServer_client fun _ => keeps_ite (fun _ => ih) fun _ => ?_
    exact keeps_bind (keeps_playerMovement _ _) fun _ => ih

/-- What has been divided by stays in the log. -/
theorem mem_divisors {α : Type} {x : EStateM Fault MapState α} (hx : Keeps mapFrame x) {d : Divisor}
    (hd : d ∈ m.divisors) : d ∈ (fin (x m)).divisors := by
  obtain ⟨es, hes, -⟩ := (hx m).rel.2
  rw [hes]
  exact List.mem_append_right _ hd

theorem playerMovement_walks (sqrt : ℚ → ℚ) (k : Int × Int) (h : m.server.Walks c) :
    .moveSpeed (m.moveSpeed c) ∈ (fin (playerMovement sqrt k c m)).divisors := by
  obtain ⟨cl, hcl, -, hin, hlog, hne⟩ := h
  have hclient : onServer (client c) m = .ok cl m := onServer_ok (client_of_some hcl)
  have hplace : ¬ (cl.playerPosition.current.x = cl.playerPosition.destiny.x ∧
      cl.playerPosition.current.y = cl.playerPosition.destiny.y) :=
    fun h => hne (FPoint.ext h.1 h.2)
  unfold playerMovement
  rw [bind_ok hclient]
  dsimp only
  rw [if_neg (by rw [hin, hlog]; decide), if_neg hplace]
  exact mem_divisors (m := { m with divisors := .moveSpeed (m.moveSpeed c) :: m.divisors })
    (keeps_advance _ _ _ _ _) List.mem_cons_self

/-- A client that is ready stays as it is, unless it walks. -/
theorem playerMovement_stays (sqrt : ℚ → ℚ) (k : Int × Int) {cl : CConnClient} (hcl : m.server.heap c = some cl)
    (hready : cl.ready) (h : ¬ m.server.Walks c) : playerMovement sqrt k c m = .ok true m := by
  have hclient : onServer (client c) m = .ok cl m := onServer_ok (client_of_some hcl)
  refine (bind_ok hclient).trans ?_
  dsimp only
  split
  · rfl
  next hin =>
  obtain ⟨hin, hlog⟩ := not_or.mp hin
  have hplace : cl.playerPosition.current = cl.playerPosition.destiny := by
    by_contra hne
    exact h ⟨cl, hcl, hready, not_not.mp hin, not_not.mp hlog, hne⟩
  rw [if_pos ⟨congrArg FPoint.x hplace, congrArg FPoint.y hplace⟩]
  rfl

/-- While nobody walks, a turn of the loop changes nothing. -/
theorem mapClients_stays (hlive : ∀ c ∈ cs, (m.server.heap c).isSome)
    (h : ∀ c ∈ cs, ¬ m.server.Walks c) : mapClients sqrt clock cs m = .ok () m := by
  induction cs with
  | nil => rfl
  | cons c cs ih =>
    have ih := ih (fun d hd => hlive d (List.mem_cons_of_mem _ hd))
      fun d hd => h d (List.mem_cons_of_mem _ hd)
    obtain ⟨cl, hcl⟩ := Option.isSome_iff_exists.mp (hlive c List.mem_cons_self)
    refine (bind_ok (onServer_ok (client_of_some hcl))).trans ?_
    split
    · exact ih
    next hready =>
    have hmove := playerMovement_stays sqrt (clock c) hcl (not_not.mp hready)
      (h c List.mem_cons_self)
    exact (bind_ok hmove).trans ih

/-- Who walks has his distance divided by his speed. -/
theorem mapClients_walks (sqrt : ℚ → ℚ) (clock : Ptr → Int × Int)
    (hlive : ∀ c ∈ cs, (m.server.heap c).isSome)
    (hslow : ∀ c ∈ cs, m.moveSpeed c = 0) (h : ∃ c ∈ cs, m.server.Walks c) :
    .moveSpeed 0 ∈ (fin (mapClients sqrt clock cs m)).divisors := by
  induction cs with
  | nil =>
    obtain ⟨c, hc, -⟩ := h
    exact absurd hc List.not_mem_nil
  | cons c cs ih =>
    obtain ⟨cl, hcl⟩ := Option.isSome_iff_exists.mp (hlive c List.mem_cons_self)
    have hclient : onServer (client c) m = .ok cl m := onServer_ok (client_of_some hcl)
    have hrest : (∃ d ∈ cs, m.server.Walks d) →
        .moveSpeed 0 ∈ (fin (mapClients sqrt clock cs m)).divisors :=
      ih (fun d hd => hlive d (List.mem_cons_of_mem _ hd))
        fun d hd => hslow d (List.mem_cons_of_mem _ hd)
    unfold mapClients
    rw [bind_ok hclient]
    by_cases hc : m.server.Walks c
    · -- whatever the rest of the loop does, the division is in the log
      obtain ⟨cl', hcl', hready, -⟩ := id hc
      obtain rfl := Option.some.inj (hcl.symm.trans hcl')
      rw [if_neg (not_not.mpr hready)]
      have hlog := playerMovement_walks sqrt (clock c) hc
      rw [hslow c List.mem_cons_self] at hlog
      cases hm : playerMovement sqrt (clock c) c m with
      | ok b u =>
        rw [hm] at hlog
        rw [bind_ok hm]
        exact mem_divisors (keeps_mapClients sqrt clock cs) hlog
      | error e u =>
        rw [hm] at hlog
        rw [bind_error hm]
        exact hlog
    · have hrest := hrest (by
        obtain ⟨d, hd, hwalks⟩ := h
        rcases List.mem_cons.mp hd with rfl | hd
        · exact absurd hwalks hc
        · exact ⟨d, hd, hwalks⟩)
      split
      · exact hrest
      next hready =>
      rw [bind_ok (playerMovement_stays sqrt (clock c) hcl (not_not.mp hready) hc)]
      exact hrest

/-! ## What takes a client from its destiny -/

/-- A client is unchanged. -/
def clientView (p : Ptr) : Frame Fault Server := .same fun s => s.heap p

/-- A packet of one client changes no other. -/
theorem free_clientView (h : p ≠ c) : Free (clientView p) c where
  packet _ _ := rfl
  calls _ := rfl
  send _ _ _ _ := rfl
  fault _ _ _ _ := trivial
  derefs _ _ := trivial
  visible _ _ _ _ _ _ := trivial
  listed _ _ _ _ := trivial
  reads _ _ := rfl
  npcId _ _ := rfl
  body _ _ _ := if_neg h
  data _ _ := rfl
  ids _ _ _ _ _ := rfl
  lists := ⟨fun _ => rfl, fun _ _ => rfl, fun _ => trivial⟩

theorem packet_other (h : p ≠ c) : (fin (exec E (.packet c P J) s)).heap p = s.heap p :=
  ((free_clientView h).exec_packet (fun _ _ => if_neg h) (fun _ _ _ => rfl) (fun _ _ _ => rfl) P
    fun _ _ _ _ => if_neg h).rel

/-- A move sets both `current` and `destiny`. -/
theorem objectMove_arrived {r : Bool} (h : objectMove c P s = .ok r t) : t.Arrived c := by
  obtain ⟨_, s1, h1, h⟩ := of_bind_ok h
  obtain ⟨_, s2, h2, h⟩ := of_bind_ok h
  obtain ⟨_, s3, h3, h⟩ := of_bind_ok h
  obtain ⟨dx, s4, h4, h⟩ := of_bind_ok h
  obtain ⟨dy, s5, h5, h⟩ := of_bind_ok h
  obtain ⟨_, s6, h6, h⟩ := of_bind_ok h
  cases h
  intro cl hcl
  have hcl : (if c = c then (s6.heap c).map _ else s6.heap c) = some cl := hcl
  rw [if_pos rfl] at hcl
  obtain ⟨cl', -, rfl⟩ := Option.map_eq_some_iff.mp hcl
  rfl

/-- Of the packets only one that enters the world takes its client from where it is going. -/
theorem arrived_packet (hr : exec E (.packet c P J) s = .ok () t)
    (hentry : c = p → P.opcode ≠ 0x0213) (h : s.Arrived p) : t.Arrived p := by
  by_cases hp : p = c
  swap
  · have hheap := packet_other (E := E) (J := J) (P := P) (s := s) hp
    rw [hr] at hheap
    intro cl hcl
    exact h cl (hheap ▸ hcl)
  subst hp
  by_cases hc : p ∈ s.clientList
  swap
  · rw [exec, connected_apply, if_neg hc] at hr
    cases hr
    exact h
  by_cases hmove : P.opcode = 0x0366
  · obtain ⟨l, b, hd⟩ := packet_ok hc hr
    rw [hmove] at hd
    exact objectMove_arrived (c := p) (P := P) hd
  · have hplaces := places_packet (E := E) (J := J) (c := p) (s := s) hmove (hentry rfl)
    rw [hr] at hplaces
    have hplace : (t.heap p).map (·.playerPosition) = (s.heap p).map (·.playerPosition) :=
      congrFun hplaces p
    intro cl hcl
    rw [hcl] at hplace
    obtain ⟨old, hold, heq⟩ := Option.map_eq_some_iff.mp hplace.symm
    have heq : old.playerPosition = cl.playerPosition := heq
    rw [← heq]
    exact h old hold

/-! ## Runs -/

/-- The clients have no speed. -/
structure MapState.Slow (m : MapState) : Prop where
  sound : m.server.Sound
  speed : ∀ p, (m.server.heap p).isSome → m.moveSpeed p = 0

/-- No division was one by zero. -/
def MapState.Sane (m : MapState) : Prop := ∀ d ∈ m.divisors, d.NonZero

instance : DecidablePred MapState.Sane := fun m =>
  inferInstanceAs (Decidable (∀ d ∈ m.divisors, d.NonZero))

/-- When `MapProcess` comes around, each client it moves is where it is going. -/
def MapState.Rested (m : MapState) : Motion → Prop
  | .call _ => True
  | .mapProcess _ => ∀ c ∈ m.server.clientList, ∀ cl, m.server.heap c = some cl → cl.ready →
    cl.playerSession.inGame → cl.playerSession.isLoggedIn →
      cl.playerPosition.current = cl.playerPosition.destiny

/-- A step creates a client only by `AddUser`. -/
theorem born (h : s.Sound) (hp : ((fin (exec E i s)).heap p).isSome) :
    (s.heap p).isSome ∨ p = s.nextPtr ∧ ∃ J, i = .addUser J := by
  have hcall : ∀ {c} {x : M Unit}, KeepsAt (callOf c) s x → ((fin (x s)).heap p).isSome →
      (s.heap p).isSome := by
    intro c x hx hp
    have hlive : ((fin (x s)).heap p).isSome = (s.heap p).isSome :=
      congrFun (congrArg Prod.fst hx.rel.1 : _) p
    rwa [← hlive]
  cases i with
  | addUser J =>
    rw [addUser_heap] at hp
    split at hp
    · next he => exact .inr ⟨he, J, rfl⟩
    · exact .inl hp
  | disconnectClient c =>
    rw [exec_disconnectClient h] at hp
    left
    dsimp only [fin_ok] at hp
    split at hp
    · unfold Server.delete at hp
      dsimp only at hp
      split at hp
      · cases hp
      · exact hp
    · exact hp
  | packet c P J => exact .inl (hcall (callOf_packet J P) hp)
  | visiblityList c J => exact .inl (hcall (callOf_visiblityList J) hp)

/-- Soundness is about the clients that exist and about what has happened. -/
theorem Server.Sound.of_shape (h : s.Sound) (hshape : t.shape = s.shape)
    (htrace : t.trace = s.trace) : t.Sound := by
  have hlive : ∀ p, (t.heap p).isSome = (s.heap p).isSome :=
    congrFun (congrArg Prod.fst hshape : _)
  have hlist : t.clientList = s.clientList := congrArg (·.2.1) hshape
  have hnext : t.nextPtr = s.nextPtr := congrArg (·.2.2) hshape
  refine ⟨fun p => ?_, hlist ▸ h.nodup, fun p hp => ?_, fun e he p hp => ?_⟩
  · rw [hlive p, hlist]
    exact h.live p
  · rw [hnext]
    exact h.below p (hlist ▸ hp)
  · rw [hnext]
    exact h.about e (htrace ▸ he) p hp

theorem fin_onServer (x : M Unit) (m : MapState) :
    fin (onServer x m) = { m with server := fin (x m.server) } := by
  unfold onServer
  cases x m.server <;> rfl

theorem construct_server (m : MapState) (i : Step) : (m.construct i).server = m.server := by
  cases i <;> rfl

theorem construct_divisors (m : MapState) (i : Step) : (m.construct i).divisors = m.divisors := by
  cases i <;> rfl

theorem fin_call (m : MapState) (i : Step) :
    fin (move E sqrt (.call i) m) = { m.construct i with server := fin (exec E i m.server) } := by
  have h := fin_onServer (exec E i) (m.construct i)
  rw [construct_server] at h
  exact h

theorem MapState.Slow.move (h : m.Slow) (i : Motion) : (fin (Destiny.move E sqrt i m)).Slow := by
  cases i with
  | call i =>
    rw [fin_call]
    refine ⟨h.sound.step i, fun p hp => ?_⟩
    show (m.construct i).moveSpeed p = 0
    rcases born h.sound hp with hold | ⟨rfl, J, rfl⟩
    · cases i with
      | addUser J =>
        show (if p = m.server.nextPtr then 0 else m.moveSpeed p) = 0
        rw [h.speed p hold, ite_self]
      | disconnectClient c => exact h.speed p hold
      | packet c P J => exact h.speed p hold
      | visiblityList c J => exact h.speed p hold
    · exact if_pos rfl
  | mapProcess clock =>
    have hkeep := (keeps_mapClients sqrt clock m.server.clientList m).rel.1
    have hshape : (fin (mapClients sqrt clock m.server.clientList m)).server.shape = m.server.shape :=
      congrArg (·.1) hkeep
    have htrace : (fin (mapClients sqrt clock m.server.clientList m)).server.trace = m.server.trace :=
      congrArg (·.2.1) hkeep
    have hspeed : (fin (mapClients sqrt clock m.server.clientList m)).moveSpeed = m.moveSpeed :=
      congrArg (·.2.2) hkeep
    refine ⟨h.sound.of_shape hshape htrace, fun p hp => ?_⟩
    have hlive : ((fin (mapClients sqrt clock m.server.clientList m)).server.heap p).isSome =
        (m.server.heap p).isSome := congrFun (congrArg Prod.fst hshape : _) p
    exact (congrFun hspeed p).trans (h.speed p (hlive ▸ hp))

/-- A step keeps the log sound exactly when it reaches no division. -/
theorem sane_move (h : m.Slow) (hsane : m.Sane) (i : Motion) :
    (fin (move E sqrt i m)).Sane ↔ m.Rested i := by
  cases i with
  | call i =>
    rw [fin_call]
    refine iff_of_true ?_ trivial
    show ∀ d ∈ (m.construct i).divisors, d.NonZero
    rw [construct_divisors]
    exact hsane
  | mapProcess clock =>
    have hlive : ∀ c ∈ m.server.clientList, (m.server.heap c).isSome :=
      fun c hc => (h.sound.live c).mpr hc
    show (fin (mapClients sqrt clock m.server.clientList m)).Sane ↔ _
    by_cases hwalks : ∃ c ∈ m.server.clientList, m.server.Walks c
    · -- the first to walk is divided by zero
      have hzero := mapClients_walks sqrt clock hlive
        (fun c hc => h.speed c (hlive c hc)) hwalks
      refine iff_of_false (fun hs => hs _ hzero rfl) fun hrest => ?_
      obtain ⟨c, hc, cl, hcl, hready, hin, hlog, hne⟩ := hwalks
      exact hne (hrest c hc cl hcl hready hin hlog)
    · have hstay : ∀ c ∈ m.server.clientList, ¬ m.server.Walks c :=
        fun c hc hw => hwalks ⟨c, hc, hw⟩
      rw [mapClients_stays hlive hstay]
      refine iff_of_true hsane fun c hc cl hcl hready hin hlog => ?_
      by_contra hne
      exact hstay c hc ⟨cl, hcl, hready, hin, hlog, hne⟩

/-- **The divisions of `PlayerMovement` are sound**, in a run of packets and turns of
`MapProcess`, exactly when none is reached. -/
theorem sane_iff (E : Env) (sqrt : ℚ → ℚ) (hfresh : m.server.Fresh) (hlog : m.divisors = [])
    (is : List Motion) :
    Always (move E sqrt) MapState.Sane m is ↔ Along (move E sqrt) MapState.Rested m is := by
  have hslow : m.Slow := ⟨hfresh.sound, fun p hp => by rw [hfresh.heap] at hp; cases hp⟩
  refine always_iff_along (J := MapState.Slow) (fun _ i h => h.move i)
    (fun _ i h hs => sane_move h hs i) hslow fun d hd => ?_
  rw [hlog] at hd
  exact absurd hd List.not_mem_nil

/-- A player logs in, enters the world, and `MapProcess` comes around, before or after he walks. -/
def entersWorld : List Motion :=
  [.call (.addUser {}), .call (.packet 0 (loginFrame (ascii "bob") (ascii "pw")) { now := 100 }),
    .call (.packet 0 worldFrame {})]

def mapStart : MapState where
  server := Server.start (oneAccount 0)
  moveSpeed _ := 1
  lastMoveTime _ := 1
  divisors := []

theorem sane_iff_walk :
    let is := entersWorld ++ [.call (.packet 0 walk {}), .mapProcess fun _ => (1000, 1000)]
    Always (move Env.plain Rat.sqrt) MapState.Sane mapStart is ↔
      Along (move Env.plain Rat.sqrt) MapState.Rested mapStart is :=
  sane_iff Env.plain Rat.sqrt (Server.start_fresh _) rfl _

/-- A new character is stored at (2093, 2097), where its player has not walked to. -/
theorem entersWorld_divides :
    let is := entersWorld ++ [.mapProcess fun _ => (1000, 1000)]
    thrown (run (move Env.plain Rat.sqrt) is mapStart) = none ∧
      ¬ Always (move Env.plain Rat.sqrt) MapState.Sane mapStart is := by
  decide +kernel

end Destiny
