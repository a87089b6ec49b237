import Destiny.Server.ReadBack

/-!
# The two packets of a world entry

`SendToWorld` sends the player a picture of his own state, some hundred and fifty stores into
one buffer, and then the packet by which others see him, from a copy of the stores of
`SpawnChar`. A client that reads the first packet at the offsets of its fields gets the state
back, as far as the fields have room; the second is the packet that `SpawnChar` would send.
-/

namespace Destiny

open Text Sql Prog

/-! ## What the first packet says -/

/-- What a client reads in a world-entry packet. -/
structure WorldView where
  position : Nat × Nat
  positionAgain : Nat × Nat
  gold : Nat
  exp : Nat
  classid : Nat
  level : Nat
  defense : Nat
  attackPower : Nat
  maxHP : Nat
  maxMP : Nat
  hp : Nat
  mp : Nat
  str : Nat
  int : Nat
  dex : Nat
  con : Nat
  mobid : Nat
  clientid : Nat
  items : List CItem
  deriving DecidableEq

/-- The fields of a world-entry packet. -/
def readWorld (b : Bytes) : WorldView where
  position := (intIn b 12 2, intIn b 14 2)
  positionAgain := (intIn b 48 2, intIn b 50 2)
  gold := intIn b 40 4
  exp := intIn b 44 4
  classid := intIn b 36 1
  level := intIn b 80 2
  defense := intIn b 82 2
  attackPower := intIn b 84 2
  maxHP := intIn b 88 2
  maxMP := intIn b 90 2
  hp := intIn b 92 2
  mp := intIn b 94 2
  str := intIn b 96 2
  int := intIn b 98 2
  dex := intIn b 100 2
  con := intIn b 102 2
  mobid := intIn b 108 1
  clientid := intIn b 774 2
  items := (List.range 78).map fun i => itemIn b (116 + 8 * i)

/-- A client's state, as far as the fields have room. -/
def CConnClient.worldView (cl : CConnClient) : WorldView where
  position := (u16 (trunc cl.playerPosition.current.x), u16 (trunc cl.playerPosition.current.y))
  positionAgain := (u16 (trunc cl.playerPosition.current.x), u16 (trunc cl.playerPosition.current.y))
  gold := u32 cl.playerInfo.gold
  exp := u32 cl.playerInfo.exp
  classid := u8 cl.playerInfo.classid
  level := u16 cl.playerInfo.level
  defense := u16 cl.playerStats.defense
  attackPower := u16 cl.playerStats.attackPower
  maxHP := u16 cl.playerStats.maxHP
  maxMP := u16 cl.playerStats.maxMP
  hp := u16 cl.playerStats.hp
  mp := u16 cl.playerStats.mp
  str := u16 cl.playerStats.str
  int := u16 cl.playerStats.int
  dex := u16 cl.playerStats.dex
  con := u16 cl.playerStats.con
  mobid := u8 cl.playerInfo.mobid
  clientid := u16 cl.playerSession.clientid
  items := (List.range 78).map fun i => (cl.items i).wire

variable {E : Env} {J J' : Junk} {c other : Ptr} {s s' t t' : Server} {P : Packet}
  {D : Nat → UInt8} {cl : CConnClient} {i k : Nat}

/-! ## Reading the fields -/

theorem worldItems_eq (items : Nat → CItem) :
    ((List.range 78).flatMap fun i : Nat =>
      let item := items i
      let off : Int := 8 * i
      [addWord item.itemid (off + 116), addByte item.add1 (off + 118), addByte item.val1 (off + 119),
        addByte item.add2 (off + 120), addByte item.val2 (off + 121), addByte item.add3 (off + 122),
        addByte item.val3 (off + 123)]) = itemBlock items 116 78 := by
  refine List.flatMap_congr fun i _ => ?_
  simp only [itemStores, Int.add_assoc, Int.reduceAdd]

/-- Bytes stored one after another, outside a field. -/
theorem intAt_addByteRun_ne {off : Nat} {bs : List Int} (hne : i + k ≤ off ∨ off + bs.length ≤ i) :
    intAt (stores (addByteRun off bs) D) i k = intAt D i k := by
  refine intAt_clear fun w hw => ?_
  obtain ⟨j, hj, rfl⟩ := List.mem_mapIdx.mp hw
  simp only [Write.clear, addByte, leBytes_length]
  omega

/-- No store of the packet damages a field stored before it. -/
theorem readWorld_stores (hname : cl.playerInfo.charName.length ≤ 16) :
    readWorld ((List.range 1244).map (stores (worldFields J cl) D)) = cl.worldView := by
  rw [worldFields, worldItems_eq]
  generalize hE : stores _ D = D'
  have hitems : ((List.range 78).map fun i => itemIn ((List.range 1244).map D') (116 + 8 * i)) =
      (List.range 78).map fun i => (cl.items i).wire := by
    refine List.map_congr_left fun i hi => ?_
    have hi := List.mem_range.mp hi
    rw [itemIn_range (by omega), ← hE, stores_append]
    exact itemAt_itemBlock hi (by omega) (by omega)
  unfold readWorld CConnClient.worldView
  rw [hitems]
  simp (disch := first | decide | omega) only [intIn_range, ← hE, stores_append, stores_cons,
    stores_nil, intAt_itemBlock_ne, intAt_addByteRun_ne, intAt_addByte_ne, intAt_addWord_ne,
    intAt_addDWord_ne, intAt_addStr_ne, intAt_addByte, intAt_addWord, intAt_addDWord]

/-! ## The packets sent -/

/-- What `SendToWorld` does after it has called `loaddata`. -/
def showWorld (J : Junk) (c : Ptr) : M Bool := do
  let thisclient ← client c
  writes (worldFields J thisclient)
  sendPacket c 1244
  modifySession c fun a => { a with inGame := true }
  modifyClient c fun cl => { cl with ready := true }
  packetFree
  writes (selfFields J thisclient)
  sendPacket c 172
  return true

theorem showWorld_sent {b : Bool} (h : showWorld J c s = .ok b t) : b = true ∧
    ∃ cl, s.heap c = some cl ∧
      t.heap c = some { cl with
        playerSession := { cl.playerSession with inGame := true }, ready := true } ∧
      t.trace = .send c ((List.range 172).map (stores (selfFields J cl) fun _ => 0)) s.hash1 ::
        .send c ((List.range 1244).map (stores (worldFields J cl) s.packet)) s.hash1 :: s.trace := by
  obtain ⟨cl, s8, h8, h⟩ := of_bind_ok h
  have hcl := (client_ok h8).1
  obtain rfl := (client_ok h8).2.symm
  obtain ⟨s9, h, hheap9, hhash9, htrace9⟩ := composed_ok h
  obtain ⟨_, s10, h10, h⟩ := of_bind_ok h
  obtain ⟨_, s11, h11, h⟩ := of_bind_ok h
  -- the two flags are set
  have hheap11 : s11.heap c = some { cl with
      playerSession := { cl.playerSession with inGame := true }, ready := true } := by
    cases h10
    cases h11
    simp [Server.update, hheap9, hcl]
  have hhash11 : s11.hash1 = s9.hash1 := by
    cases h10
    cases h11
    rfl
  have htrace11 : s11.trace = s9.trace := by
    cases h10
    cases h11
    rfl
  obtain ⟨_, s12, h12, h⟩ := of_bind_ok h
  obtain rfl : s12 = { s11 with packet := fun _ => 0 } := by
    cases h12
    rfl
  obtain ⟨s13, h, hheap13, -, htrace13⟩ := composed_ok h
  cases h
  refine ⟨rfl, cl, hcl, (congrFun hheap13 c).trans hheap11, ?_⟩
  rw [htrace13]
  show Event.send c _ s11.hash1 :: s11.trace = _
  rw [hhash11, htrace11, htrace9, hhash9]

/-- A world entry that returns `true` has built both packets from one state of the client. -/
theorem sendToWorld_sent (h : sendToWorld E J c P s = .ok true t) :
    ∃ (u : Server) (cl : CConnClient) (D : Nat → UInt8), u.heap c = some cl ∧
    t.heap c = some { cl with
      playerSession := { cl.playerSession with inGame := true }, ready := true } ∧
    t.trace = .send c ((List.range 172).map (stores (selfFields J cl) fun _ => 0)) u.hash1 ::
      .send c ((List.range 1244).map (stores (worldFields J cl) D)) u.hash1 :: u.trace := by
  obtain ⟨_, s1, h1, h⟩ := of_bind_ok h
  obtain ⟨_, s2, h2, h⟩ := of_bind_ok h
  obtain ⟨slot, s3, h3, h⟩ := of_bind_ok h
  obtain ⟨r, s4, h4, h⟩ := of_bind_ok h
  rcases r with _ | rows
  · cases h
  obtain ⟨_, s5, h5, h⟩ := of_bind_ok h
  obtain ⟨_, s6, h6, h⟩ := of_bind_ok h
  obtain ⟨_, u, h7, h⟩ := of_bind_ok h
  obtain ⟨-, cl, hcl, ht, htrace⟩ := showWorld_sent h
  exact ⟨u, cl, u.packet, hcl, ht, htrace⟩

theorem spawnChar_sent (h : spawnChar J other c s = .ok true t) : ∃ cl, s.heap c = some cl ∧
    t.trace = .spawnChar other c ::
      .send other ((List.range 172).map (stores (spawnCharFields J cl) fun _ => 0)) s.hash1 ::
        s.trace := by
  obtain ⟨cl, s1, h1, h⟩ := of_bind_ok h
  have hcl := (client_ok h1).1
  obtain rfl := (client_ok h1).2.symm
  obtain ⟨_, s2, h2, h⟩ := of_bind_ok h
  obtain rfl : s2 = { s with packet := fun _ => 0 } := by
    cases h2
    rfl
  obtain ⟨s3, h, -, -, htrace⟩ := composed_ok h
  obtain ⟨_, s4, h4, h⟩ := of_bind_ok h
  cases h
  cases h4
  exact ⟨cl, hcl, congrArg (Event.spawnChar other c :: ·) htrace⟩

/-- **The first packet of a world entry gives the player's state back**, field by field. -/
theorem readWorld_sendToWorld (h : sendToWorld E J c P s = .ok true t)
    (hname : ∀ cl, t.heap c = some cl → cl.playerInfo.charName.length ≤ 16) :
    ∃ cl own world k k' tr, t.heap c = some cl ∧
      t.trace = .send c own k :: .send c world k' :: tr ∧ world.length = 1244 ∧
      readWorld world = cl.worldView := by
  obtain ⟨u, cl, D, -, ht, htrace⟩ := sendToWorld_sent h
  have hname := hname _ ht
  have hlength : ((List.range 1244).map (stores (worldFields J cl) D)).length = 1244 := by simp
  have hread : readWorld ((List.range 1244).map (stores (worldFields J cl) D)) = cl.worldView :=
    readWorld_stores hname
  generalize (List.range 1244).map (stores (worldFields J cl) D) = world at *
  exact ⟨_, _, world, _, _, _, ht, htrace, hlength, hread⟩

/-- Two connections, the first of them logged in. -/
def selecting : Server := fin (run (exec Env.plain)
  [.addUser {}, .addUser {}, .packet 0 (loginFrame (ascii "bob") (ascii "pw")) { now := 20 }]
  (Server.start (oneAccount 0)))

/-- The first player is in the world. -/
def playing : Server := fin (sendToWorld Env.plain {} 0 worldFrame selecting)

theorem playing_entered : sendToWorld Env.plain {} 0 worldFrame selecting = .ok true playing :=
  ok_of_returned (by decide +kernel)

theorem readWorld_sendToWorld_playing : ∃ cl own world k k' tr, playing.heap 0 = some cl ∧
    playing.trace = .send 0 own k :: .send 0 world k' :: tr ∧ world.length = 1244 ∧
    readWorld world = cl.worldView := by
  have hname : ∀ cl ∈ playing.heap 0, cl.playerInfo.charName.length ≤ 16 := by decide +kernel
  exact readWorld_sendToWorld playing_entered hname

/-! ## The second packet -/

/-- What the packet that shows a character says about him. -/
def CConnClient.shown (cl : CConnClient) : (Int × Int) × Nat × Bytes × Nat × Nat × CStats × List Nat :=
  ((trunc cl.playerPosition.current.x, trunc cl.playerPosition.current.y),
    cl.playerSession.clientid, cl.playerInfo.charName, cl.playerInfo.mobid, cl.playerInfo.level,
    cl.playerStats, (List.range 15).map fun i => (cl.items i).itemid)

/-- The two encoders store the same. -/
theorem selfFields_eq {cl cl' : CConnClient} (hshown : cl'.shown = cl.shown)
    (hstr : addStr J' cl.playerInfo.charName 18 = addStr J cl.playerInfo.charName 18) :
    spawnCharFields J' cl' = selfFields J cl := by
  simp only [CConnClient.shown, Prod.mk.injEq] at hshown
  obtain ⟨⟨hx, hy⟩, hid, hname, hmob, hlevel, hstats, hitems⟩ := hshown
  have hitems : (List.range 15).map (fun i : Nat => addWord (cl'.items i).itemid (2 * i + 36)) =
      (List.range 15).map fun i : Nat => addWord (cl.items i).itemid (2 * i + 36) :=
    List.map_congr_left fun i hi => by rw [List.map_inj_left.mp hitems i hi]
  rw [spawnCharFields, selfFields, hx, hy, hid, hname, hmob, hlevel, hstats, hitems, hstr]

/-- **A player is shown his own character as others are shown it**, byte for byte. -/
theorem own_eq_spawnChar (h : sendToWorld E J c P s = .ok true t)
    (h' : spawnChar J' other c s' = .ok true t')
    (hshown : (s'.heap c).map CConnClient.shown = (t.heap c).map CConnClient.shown)
    (hstr : ∀ cl, t.heap c = some cl →
      addStr J' cl.playerInfo.charName 18 = addStr J cl.playerInfo.charName 18) :
    ∃ plain k k' tr, plain.length = 172 ∧ t.trace = .send c plain k :: tr ∧
      t'.trace = .spawnChar other c :: .send other plain k' :: s'.trace := by
  obtain ⟨u, cl, D, -, ht, htrace⟩ := sendToWorld_sent h
  obtain ⟨cl', hcl', htrace'⟩ := spawnChar_sent h'
  have hstr := hstr _ ht
  rw [hcl', ht] at hshown
  have hfields : spawnCharFields J' cl' = selfFields J cl :=
    selfFields_eq (Option.some.inj hshown) hstr
  rw [hfields] at htrace'
  exact ⟨_, _, _, _, by simp, htrace, htrace'⟩

theorem own_eq_spawnChar_playing : ∃ plain k k' tr, plain.length = 172 ∧
    playing.trace = .send 0 plain k :: tr ∧
    (fin (spawnChar {} 1 0 playing)).trace =
      .spawnChar 1 0 :: .send 1 plain k' :: playing.trace :=
  own_eq_spawnChar playing_entered (ok_of_returned (by decide +kernel)) rfl fun _ _ => rfl

/-- A packet that is cleared has no gold and no items. -/
example : (readWorld (List.replicate 1244 0)).gold = 0 ∧
    (readWorld (List.replicate 1244 0)).items = List.replicate 78 {} := by decide +kernel

end Destiny
