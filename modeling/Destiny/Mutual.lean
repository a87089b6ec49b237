import Destiny.Delivery
import Destiny.WorldEntry

/-!
# Seeing and being seen

`ObjectMove` sends a move to the clients in the mover's own list. A client that has the
mover in its list gets it if it is in the mover's list too. The two lists are brought up to
date at different times, each as a latch on one distance; they agree about a pair as long as
neither of the two moves while one list is up to date about it and the other is not.
-/

namespace Destiny

open Text Sql Prog

def Server.inWorld (s : Server) (p : Ptr) : Bool := ((s.session p).map (·.inGame)).getD false

def Server.place (s : Server) (p : Ptr) : FPoint :=
  ((s.heap p).map (·.playerPosition.current)).getD ⟨0, 0⟩

def Server.invisible (s : Server) (p : Ptr) : Bool := ((s.heap p).map (·.isInvisibleMode)).getD false

/-- A look around by `x` would change whether it lists `y`. -/
def Server.stale (s : Server) (x y : Ptr) : Bool := s.shows x y != decide (y ∈ s.visible x)

/-- A client in the world moves, or enters it again, only when its list and that of each other
client in the world are both up to date about each other, or neither is; and only clients in
the world look around. -/
def Settled (s : Server) : Step → Prop
  | .packet m P _ => P.opcode = 0x0366 ∨ P.opcode = 0x0213 → s.inWorld m = true →
    ∀ p ∈ s.clientList, p ≠ m → s.inWorld p = true → s.stale m p = s.stale p m
  | .visiblityList c _ => c ∈ s.clientList → s.inWorld c = true
  | .addUser _ | .disconnectClient _ => True

instance (s : Server) : (i : Step) → Decidable (Settled s i)
  | .packet m P _ => inferInstanceAs (Decidable (P.opcode = 0x0366 ∨ P.opcode = 0x0213 →
      s.inWorld m = true → ∀ p ∈ s.clientList, p ≠ m → s.inWorld p = true →
        s.stale m p = s.stale p m))
  | .visiblityList c _ => inferInstanceAs (Decidable (c ∈ s.clientList → s.inWorld c = true))
  | .addUser _ | .disconnectClient _ => .isTrue trivial

/-- The events between two states. -/
def Server.since (s t : Server) : List Event := t.trace.take (t.trace.length - s.trace.length)

/-- When `m` moves, every other client in the world that has `m` in its list is in the list of
`m`, and is sent the move. -/
def MoveSeen (s t : Server) : Step → Prop
  | .packet m P _ => m ∈ s.clientList → P.opcode = 0x0366 →
    ∀ v ∈ s.clientList, v ≠ m → s.inWorld v = true → m ∈ s.visible v →
      v ∈ s.visible m ∧ .send v (P.mem.take 52) s.hash1 ∈ s.since t
  | _ => True

instance (s t : Server) : (i : Step) → Decidable (MoveSeen s t i)
  | .packet m P _ => inferInstanceAs (Decidable (m ∈ s.clientList → P.opcode = 0x0366 →
      ∀ v ∈ s.clientList, v ≠ m → s.inWorld v = true → m ∈ s.visible v →
        v ∈ s.visible m ∧ .send v (P.mem.take 52) s.hash1 ∈ s.since t))
  | .addUser _ | .disconnectClient _ | .visiblityList .. => .isTrue trivial

/-- The same of a step in a state, if it returns. -/
def MovesSeen (E : Env) (s : Server) (i : Step) : Prop :=
  match exec E i s with
  | .ok _ t => MoveSeen s t i
  | .error .. => True

instance (E : Env) (s : Server) (i : Step) : Decidable (MovesSeen E s i) :=
  match h : exec E i s with
  | .ok _ t => decidable_of_iff (MoveSeen s t i) (by simp only [MovesSeen, h])
  | .error .. => .isTrue (by simp only [MovesSeen, h])

variable {E : Env} {J : Junk} {c p x y : Ptr} {s t : Server} {P : Packet}

/-! ## Pairs -/

/-- Whether one of two clients sees the other, as a function of whether it did before. -/
def Server.range (s : Server) (x y : Ptr) : Bool → Bool :=
  latch 900 2500 (distSq (s.place x) (s.place y))

theorem range_range (s : Server) (x y : Ptr) (b : Bool) :
    s.range x y (s.range x y b) = s.range x y b := latch_latch (by norm_num)

theorem range_comm (s : Server) (x y : Ptr) : s.range x y = s.range y x := by
  unfold Server.range
  have hd : distSq (s.place x) (s.place y) = distSq (s.place y) (s.place x) := by
    unfold distSq
    ring
  rw [hd]

theorem shows_eq (hx : (s.heap x).isSome) (hxy : x ≠ y) : s.shows x y =
    (s.inWorld y && !s.invisible y && s.range x y (decide (y ∈ s.visible x))) := by
  obtain ⟨this, hthis⟩ := Option.isSome_iff_exists.mp hx
  unfold Server.shows Server.inWorld Server.invisible Server.range Server.place Server.visible
    Server.session
  rw [hthis]
  cases s.heap y with
  | none => rfl
  | some other => simp [hxy]

/-- What the two lists of a pair have in common, whenever they were brought up to date. -/
structure Mutual (s : Server) : Prop where
  paired : ∀ x ∈ s.clientList, ∀ y ∈ s.clientList, x ≠ y →
    Paired (s.range x y) (decide (y ∈ s.visible x)) (decide (x ∈ s.visible y))
  world : ∀ x ∈ s.clientList, ∀ y ∈ s.visible x,
    s.inWorld x = true ∧ (y ∈ s.clientList → s.inWorld y = true)
  seen : ∀ p, s.invisible p = false
  below : ∀ x ∈ s.clientList, ∀ y ∈ s.visible x, y < s.nextPtr

theorem Mutual.stale_eq (h : Mutual s) (hs : s.Sound) (hx : x ∈ s.clientList) (hxy : x ≠ y)
    (hy : s.inWorld y = true) : s.stale x y =
      (s.range x y (decide (y ∈ s.visible x)) != decide (y ∈ s.visible x)) := by
  rw [Server.stale, shows_eq ((hs.live x).mpr hx) hxy, hy, h.seen y]
  rfl

/-- A client moves only when it and each other client agree whether they see each other. -/
theorem Mutual.agree (h : Mutual s) (hs : s.Sound) {m : Ptr} {P : Packet} {J : Junk}
    (hset : Settled s (.packet m P J)) (hmove : P.opcode = 0x0366 ∨ P.opcode = 0x0213)
    (hm : m ∈ s.clientList) (hp : p ∈ s.clientList) (hpm : p ≠ m) :
    decide (p ∈ s.visible m) = decide (m ∈ s.visible p) := by
  by_cases hw : s.inWorld m = true ∧ s.inWorld p = true
  · have hstale := hset hmove hw.1 p hp hpm hw.2
    rw [h.stale_eq hs hm (Ne.symm hpm) hw.2, h.stale_eq hs hp hpm hw.1, range_comm s p m] at hstale
    refine (h.paired m hm p hp (Ne.symm hpm)).eq (range_range s m p) ?_
    have hiff := Bool.eq_iff_iff.mp hstale
    rw [bne_iff_ne, bne_iff_ne, not_iff_not] at hiff
    exact hiff
  · -- who is not in the world sees nobody and is not seen
    have h1 : p ∉ s.visible m := fun hmem =>
      hw ⟨(h.world m hm p hmem).1, (h.world m hm p hmem).2 hp⟩
    have h2 : m ∉ s.visible p := fun hmem =>
      hw ⟨(h.world p hp m hmem).2 hm, (h.world p hp m hmem).1⟩
    rw [decide_eq_false h1, decide_eq_false h2]

/-! ## Steps -/

theorem inWorld_of_session (h : t.session p = s.session p) : t.inWorld p = s.inWorld p := by
  rw [Server.inWorld, h]
  rfl

theorem range_of_heap (hx : t.heap x = s.heap x) (hy : t.heap y = s.heap y) :
    t.range x y = s.range x y := by
  unfold Server.range Server.place
  rw [hx, hy]

theorem invisible_of_listsView (h : listsView.rel s t) : t.invisible = s.invisible := by
  funext p
  have hp : (t.heap p).map CConnClient.lists = (s.heap p).map CConnClient.lists := congrFun h p
  have hmap := congrArg (fun o => (o.map fun l => l.2.2).getD false) hp
  rw [Option.map_map, Option.map_map] at hmap
  exact hmap

theorem place_of_placesView (h : placesView.rel s t) : t.place = s.place := by
  funext p
  have hp : (t.heap p).map _ = (s.heap p).map _ := congrFun h p
  have hmap := congrArg (fun o => (o.map fun q : Currentition => q.current).getD ⟨0, 0⟩) hp
  rw [Option.map_map, Option.map_map] at hmap
  exact hmap

/-- No packet takes a client out of the world. -/
theorem inWorld_packet (h : s.inWorld p = true) :
    (fin (exec E (.packet c P J) s)).inWorld p = true := by
  by_cases ho : P.opcode = 0x0213
  · have hsilent : Silent (.inv fun s => s.inWorld p = true) :=
      ⟨fun hq h => (inWorld_of_session (congrFun hq.session p)).trans h, fun _ _ => trivial⟩
    have hsession : ∀ f : CAccount → CAccount, (∀ a, a.inGame = true → (f a).inGame = true) →
        Session (.inv fun s => s.inWorld p = true) c f := fun f hf s h => by
      show (((s.setSession c f).session p).map (·.inGame)).getD false = true
      have h : ((s.session p).map (·.inGame)).getD false = true := h
      rw [session_setSession]
      split
      · next hpc =>
        subst hpc
        cases ha : s.session p with
        | none => rw [ha] at h; cases h
        | some a => rw [ha] at h; exact hf a h
      · exact h
    refine (hsilent.packet (fun _ hl => ?_) (fun _ => ⟨fun _ => hsession _ fun _ h => h,
      hsession _ fun _ h => h, hsession _ fun _ _ => rfl⟩) fun _ _ _ _ _ _ _ h => h).rel h
    rw [ho] at hl
    cases hl
  · have hview := congrFun (inGame_packet (E := E) (J := J) (c := c) (s := s) ho) p
    have hview : ((fin (exec E (.packet c P J) s)).session p).map CAccount.inGame =
      (s.session p).map CAccount.inGame := hview
    rw [Server.inWorld, hview]
    exact h

theorem Mutual.packet (h : Mutual s) (hs : s.Sound) (hset : Settled s (.packet c P J)) :
    Mutual (fin (exec E (.packet c P J) s)) := by
  by_cases hc : c ∈ s.clientList
  swap
  · rw [exec, connected_apply, if_neg hc]
    exact h
  have hshape := (callOf_packet (E := E) (c := c) (s := s) J P).rel.1
  have hlist : (fin (exec E (.packet c P J) s)).clientList = s.clientList := congrArg (·.2.1) hshape
  have hnext : (fin (exec E (.packet c P J) s)).nextPtr = s.nextPtr := congrArg (·.2.2) hshape
  have hlists := lists_packet (E := E) (J := J) (c := c) (s := s) (P := P)
  have hothers := others_packet (E := E) (J := J) (c := c) (s := s) (P := P)
  have hworld := fun p => inWorld_packet (E := E) (J := J) (c := c) (s := s) (P := P) (p := p)
  generalize hu : fin (exec E (.packet c P J) s) = u at *
  have hvis := visible_of_listsView hlists
  have hheap := fun p => heap_of_others (p := p) hothers
  refine ⟨fun x hx y hy hxy => ?_, fun x hx y hy => ?_, fun p => ?_, fun x hx y hy => ?_⟩
  · rw [hlist] at hx hy
    rw [hvis]
    by_cases hmove : P.opcode = 0x0366 ∨ P.opcode = 0x0213
    · by_cases hxc : x = c
      · subst hxc
        exact .of_eq (h.agree hs hset hmove hx hy (Ne.symm hxy))
      by_cases hyc : y = c
      · subst hyc
        exact .of_eq (h.agree hs hset hmove hy hx hxy).symm
      · rw [range_of_heap (hheap x hxc) (hheap y hyc)]
        exact h.paired x hx y hy hxy
    · rw [not_or] at hmove
      have hplace := place_of_placesView
        (places_packet (E := E) (J := J) (c := c) (s := s) hmove.1 hmove.2)
      rw [hu] at hplace
      have hrange : u.range x y = s.range x y := by
        unfold Server.range
        rw [hplace]
      rw [hrange]
      exact h.paired x hx y hy hxy
  · rw [hlist] at hx ⊢
    rw [hvis] at hy
    obtain ⟨h1, h2⟩ := h.world x hx y hy
    exact ⟨hworld x h1, fun hy => hworld y (h2 hy)⟩
  · rw [invisible_of_listsView hlists]
    exact h.seen p
  · rw [hlist] at hx
    rw [hvis] at hy
    rw [hnext]
    exact h.below x hx y hy

/-- A look around changes no session. -/
theorem look_session (hc : c ∈ s.clientList) (h : exec E (.visiblityList c J) s = .ok () t) (p : Ptr) :
    t.session p = s.session p := by
  rw [Server.session, look_heap hc h]
  split
  · rw [Option.map_map]
    rfl
  · rfl

theorem Mutual.look (h : Mutual s) (hs : s.Sound) (hc : c ∈ s.clientList)
    (hw : s.inWorld c = true) (hr : exec E (.visiblityList c J) s = .ok () t) (ht : t.Sound) :
    Mutual t := by
  have hlist := look_list hc hr
  have hworld : ∀ p, t.inWorld p = s.inWorld p := fun p =>
    inWorld_of_session (look_session hc hr p)
  have hplace : t.place = s.place := by
    funext p
    rw [Server.place, look_heap hc hr]
    split
    · rw [Option.map_map]
      rfl
    · rfl
  have hrange : ∀ x y, t.range x y = s.range x y := fun x y => by
    unfold Server.range
    rw [hplace]
  -- whom the client lists now
  have hnew : ∀ y ∈ s.clientList, c ≠ y → decide (y ∈ t.visible c) =
      (s.inWorld y && s.range c y (decide (y ∈ s.visible c))) := fun y hy hcy => by
    have hiff : y ∈ t.visible c ↔ s.shows c y = true := by
      rw [look_visible hc hr hs, Server.chars, List.mem_filter]
      exact ⟨fun h => h.2, fun h => ⟨hy, h⟩⟩
    rw [Bool.decide_congr hiff, Bool.decide_eq_true, shows_eq ((hs.live c).mpr hc) hcy, h.seen y]
    simp
  -- a pair whose first client looks around
  have hpair : ∀ y ∈ s.clientList, c ≠ y →
      Paired (s.range c y) (decide (y ∈ t.visible c)) (decide (c ∈ s.visible y)) := fun y hy hcy => by
    have hold := h.paired c hc y hy hcy
    rw [hnew y hy hcy]
    cases hy' : s.inWorld y with
    | true =>
      rw [Bool.true_and]
      exact hold.left (range_range s c y)
    | false =>
      have h1 : c ∉ s.visible y := fun hmem => by
        rw [(h.world y hy c hmem).1] at hy'
        cases hy'
      rw [decide_eq_false h1]
      exact .of_eq rfl
  refine ⟨fun x hx y hy hxy => ?_, fun x hx y hy => ?_, fun p => ?_, fun x hx y hy => ?_⟩
  · rw [hlist] at hx hy
    rw [hrange]
    by_cases hxc : x = c
    · subst hxc
      rw [look_visible_ne hc hr (Ne.symm hxy)]
      exact hpair y hy hxy
    · rw [look_visible_ne hc hr hxc]
      by_cases hyc : y = c
      · subst hyc
        rw [range_comm]
        exact (hpair x hx (Ne.symm hxy)).symm
      · rw [look_visible_ne hc hr hyc]
        exact h.paired x hx y hy hxy
  · rw [hlist] at hx ⊢
    rw [hworld, hworld]
    by_cases hxc : x = c
    · subst hxc
      refine ⟨hw, fun hy' => ?_⟩
      by_cases hxy : x = y
      · exact hxy ▸ hw
      · have := hnew y hy' hxy
        rw [decide_eq_true hy] at this
        exact (Bool.and_eq_true_iff.mp this.symm).1
    · rw [look_visible_ne hc hr hxc] at hy
      exact h.world x hx y hy
  · rw [Server.invisible, look_heap hc hr]
    split
    · rw [Option.map_map]
      exact h.seen p
    · exact h.seen p
  · rw [hlist] at hx
    by_cases hxc : x = c
    · subst hxc
      rw [look_visible hc hr hs] at hy
      exact ht.below y (hlist ▸ List.mem_of_mem_filter hy)
    · rw [look_visible_ne hc hr hxc] at hy
      have hnext : t.nextPtr = s.nextPtr := by
        have hshape := (callOf_visiblityList (E := E) (c := c) (s := s) J).rel.1
        rw [hr] at hshape
        exact congrArg (·.2.2) hshape
      rw [hnext]
      exact h.below x hx y hy

theorem Mutual.addUser (h : Mutual s) (hs : s.Sound) : Mutual (fin (exec E (.addUser J) s)) := by
  have hheap := fun p => addUser_heap (E := E) (s := s) J p
  have hlist : (fin (exec E (.addUser J) s)).clientList = s.clientList ++ [s.nextPtr] := rfl
  have hnext : (fin (exec E (.addUser J) s)).nextPtr = s.nextPtr + 1 := rfl
  generalize fin (exec E (.addUser J) s) = t at *
  have hold : ∀ x ∈ s.clientList, t.heap x = s.heap x := fun x hx => by
    rw [hheap, if_neg (Nat.ne_of_lt (hs.below x hx))]
  have hvis : ∀ x ∈ s.clientList, t.visible x = s.visible x := fun x hx => by
    rw [Server.visible, hold x hx]
    rfl
  have hworld : ∀ x ∈ s.clientList, t.inWorld x = s.inWorld x := fun x hx =>
    inWorld_of_session (congrArg _ (hold x hx))
  have hblind : t.visible s.nextPtr = [] := by
    rw [Server.visible, hheap, if_pos rfl]
  -- nobody has the new client in its list
  have hunseen : ∀ x ∈ s.clientList, s.nextPtr ∉ s.visible x := fun x hx hmem =>
    Nat.lt_irrefl _ (h.below x hx _ hmem)
  have hcases : ∀ x ∈ t.clientList, x ∈ s.clientList ∨ x = s.nextPtr := fun x hx => by
    rw [hlist] at hx
    exact (List.mem_append.mp hx).imp_right List.mem_singleton.mp
  refine ⟨fun x hx y hy hxy => ?_, fun x hx y hy => ?_, fun p => ?_, fun x hx y hy => ?_⟩
  · rcases hcases x hx with hx | rfl <;> rcases hcases y hy with hy | rfl
    · rw [range_of_heap (hold x hx) (hold y hy), hvis x hx, hvis y hy]
      exact h.paired x hx y hy hxy
    · rw [hvis x hx, hblind, decide_eq_false (hunseen x hx), decide_eq_false List.not_mem_nil]
      exact .of_eq rfl
    · rw [hvis y hy, hblind, decide_eq_false (hunseen y hy), decide_eq_false List.not_mem_nil]
      exact .of_eq rfl
    · exact absurd rfl hxy
  · rcases hcases x hx with hx | rfl
    · rw [hvis x hx] at hy
      rw [hworld x hx]
      refine ⟨(h.world x hx y hy).1, fun hy' => ?_⟩
      rcases hcases y hy' with hy' | rfl
      · rw [hworld y hy']
        exact (h.world x hx y hy).2 hy'
      · exact absurd hy (hunseen x hx)
    · rw [hblind] at hy
      cases hy
  · rw [Server.invisible, hheap]
    split
    · rfl
    · exact h.seen p
  · rw [hnext]
    rcases hcases x hx with hx | rfl
    · rw [hvis x hx] at hy
      exact Nat.lt_succ_of_lt (h.below x hx y hy)
    · rw [hblind] at hy
      cases hy

theorem Mutual.delete (h : Mutual s) (hs : s.Sound) (c : Ptr) : Mutual (s.delete c) := by
  have hheap : ∀ p, p ≠ c → (s.delete c).heap p = s.heap p := fun p hp => if_neg hp
  have hmem : ∀ p ∈ (s.delete c).clientList, p ≠ c ∧ p ∈ s.clientList := fun p hp =>
    hs.nodup.mem_erase_iff.mp hp
  have hworld : ∀ p, p ≠ c → (s.delete c).inWorld p = s.inWorld p := fun p hp =>
    inWorld_of_session (congrArg _ (hheap p hp))
  refine ⟨fun x hx y hy hxy => ?_, fun x hx y hy => ?_, fun p => ?_, fun x hx y hy => ?_⟩
  · obtain ⟨hxc, hx⟩ := hmem x hx
    obtain ⟨hyc, hy⟩ := hmem y hy
    rw [range_of_heap (hheap x hxc) (hheap y hyc), visible_delete_ne hxc, visible_delete_ne hyc]
    exact h.paired x hx y hy hxy
  · obtain ⟨hxc, hx⟩ := hmem x hx
    rw [visible_delete_ne hxc] at hy
    rw [hworld x hxc]
    refine ⟨(h.world x hx y hy).1, fun hy' => ?_⟩
    obtain ⟨hyc, hy'⟩ := hmem y hy'
    rw [hworld y hyc]
    exact (h.world x hx y hy).2 hy'
  · by_cases hp : p = c
    · rw [Server.invisible, hp, show (s.delete c).heap c = none from if_pos rfl]
      rfl
    · rw [Server.invisible, hheap p hp]
      exact h.seen p
  · obtain ⟨hxc, hx⟩ := hmem x hx
    rw [visible_delete_ne hxc] at hy
    exact h.below x hx y hy

theorem Mutual.step (h : Mutual s) (hs : s.Sound) {i : Step} (hset : Settled s i)
    (hr : exec E i s = .ok () t) : Mutual t := by
  cases i with
  | addUser J =>
    have := h.addUser (E := E) (J := J) hs
    rwa [hr] at this
  | disconnectClient c =>
    rw [exec_disconnectClient hs] at hr
    cases hr
    split
    · exact h.delete hs c
    · exact h
  | packet c P J =>
    have := h.packet (E := E) hs hset
    rwa [hr] at this
  | visiblityList c J =>
    have ht := hs.step (E := E) (.visiblityList c J)
    rw [hr] at ht
    by_cases hc : c ∈ s.clientList
    · exact h.look hs hc (hset hc) hr ht
    · rw [exec, connected_apply, if_neg hc] at hr
      cases hr
      exact h

/-! ## Moves -/

theorem since_eq {es : List Event} (h : t.trace = es ++ s.trace) : s.since t = es := by
  rw [Server.since, h, List.length_append, Nat.add_sub_cancel]
  exact List.take_left

/-- What is sent of the bytes of a packet that are copied into the buffer. -/
theorem first_addBytes {copied sent : Nat} (hn : sent ≤ copied) (hmapped : copied ≤ P.mem.length)
    (D : Nat → UInt8) : (List.range sent).map
      ((addBytes ((P.mem.drop 0).take copied)).store D) = P.mem.take sent := by
  refine List.ext_getElem (by simp; omega) fun i h1 h2 => ?_
  have hi : i < sent := by simpa using h1
  have hget : ((P.mem.drop 0).take copied)[i]? = some (P.mem.get ⟨i, by omega⟩) := by
    rw [List.drop_zero, List.getElem?_take_of_lt (by omega), List.getElem?_eq_getElem (by omega)]
    rfl
  rw [List.getElem_map, List.getElem_range, List.getElem_take]
  show (if 0 ≤ i then (((P.mem.drop 0).take copied)[i - 0]?).getD (D i) else D i) = _
  rw [if_pos (Nat.zero_le i), Nat.sub_zero, hget]
  rfl

/-- A relayed packet is sent to the clients in the list. -/
theorem relay_ok {copied sent : Nat} {b : Bool} (hn : sent ≤ copied)
    (h : relay c P copied sent s = .ok b t) :
    t.trace = ((s.visible c).map fun v => Event.send v (P.mem.take sent) s.hash1).reverse ++
      s.trace := by
  obtain ⟨_, s1, h1, h⟩ := of_bind_ok h
  cases h1
  obtain ⟨bytes, s2, h2, h⟩ := of_bind_ok h
  have hmapped := rd_mapped h2
  obtain ⟨rfl, rfl⟩ := rd_ok h2
  obtain ⟨_, s3, h3, h⟩ := of_bind_ok h
  obtain ⟨_, s4, h4, h3⟩ := of_bind_ok h3
  unfold check at h4
  split at h4 <;> cases h4
  cases h3
  obtain ⟨_, s5, h5, h⟩ := of_bind_ok h
  obtain ⟨-, rfl⟩ := sendToVisible_ok h5
  cases h
  have hbuf := first_addBytes hn (Nat.zero_add copied ▸ hmapped) fun _ => 0
  show (Server.copies _ c sent false) ++ s.trace = _
  unfold Server.copies Server.copy
  rw [if_neg Bool.false_ne_true, List.nil_append]
  exact congrArg (fun pak => ((s.visible c).map fun v => Event.send v pak s.hash1).reverse ++
    s.trace) hbuf

theorem objectMove_ok {b : Bool} (h : objectMove c P s = .ok b t) :
    t.trace = ((s.visible c).map fun v => Event.send v (P.mem.take 52) s.hash1).reverse ++
      s.trace := by
  obtain ⟨_, s1, h1, h⟩ := of_bind_ok h
  obtain ⟨-, rfl⟩ := rdInt_ok h1
  obtain ⟨_, s2, h2, h⟩ := of_bind_ok h
  obtain ⟨-, rfl⟩ := rdInt_ok h2
  obtain ⟨_, s3, h3, h⟩ := of_bind_ok h
  obtain ⟨-, rfl⟩ := rdInt_ok h3
  obtain ⟨_, s4, h4, h⟩ := of_bind_ok h
  obtain ⟨-, rfl⟩ := rdInt_ok h4
  obtain ⟨_, s5, h5, h⟩ := of_bind_ok h
  obtain ⟨-, rfl⟩ := rdInt_ok h5
  obtain ⟨_, s6, h6, h⟩ := of_bind_ok h
  cases h
  have htrace := relay_ok (by decide : 52 ≤ 53) h6
  exact htrace

theorem Mutual.movesSeen (h : Mutual s) (hs : s.Sound) {i : Step} (hset : Settled s i) :
    MovesSeen E s i := by
  unfold MovesSeen
  split
  swap
  · trivial
  next t hr =>
  cases i with
  | packet m P J =>
    intro hm ho v hv hvm hw hsees
    have hmem : v ∈ s.visible m := by
      have hagree := h.agree hs hset (.inl ho) hm hv hvm
      rw [decide_eq_true hsees, decide_eq_true_eq] at hagree
      exact hagree
    refine ⟨hmem, ?_⟩
    obtain ⟨l, b, hd⟩ := packet_ok hm hr
    rw [ho] at hd
    have htrace := objectMove_ok (c := m) (P := P) (s := s.received m l) hd
    rw [since_eq (s := s) htrace, List.mem_reverse, List.mem_map]
    have hvis : (s.received m l).visible m = s.visible m :=
      congrFun (visible_update (f := fun cl => { cl with recvpkts := cl.recvpkts + 1 })
        (fun _ => rfl) s m) m
    exact ⟨v, by rw [hvis]; exact hmem, rfl⟩
  | addUser _ | disconnectClient _ | visiblityList _ _ => trivial

/-- **Moves are seen.** In every run in which a client in the world moves only when its list
and that of each other client are both up to date about each other, or neither is, a move
reaches every client in the world that has the mover in its list. -/
theorem movesSeen_of_settled {s0 : Server} (h : s0.Fresh) {is : List Step}
    (hset : Along (exec E) Settled s0 is) : Along (exec E) (MovesSeen E) s0 is := by
  have h0 : Mutual s0 := by
    refine ⟨fun x hx => ?_, fun x hx => ?_, fun p => ?_, fun x hx => ?_⟩
    · simp [h.clientList] at hx
    · simp [h.clientList] at hx
    · rw [Server.invisible, h.heap]
      rfl
    · simp [h.clientList] at hx
  refine hset.imp_ok (I := fun s => s.Sound ∧ Mutual s) (fun s i t hs hset hr => ⟨?_, ?_⟩)
    (fun s i hs hset => hs.2.movesSeen hs.1 hset) ⟨h.sound, h0⟩
  · have ht := hs.1.step (E := E) i
    rwa [hr] at ht
  · exact hs.2.step hs.1 hset hr

/-- Both look around, and the second moves. -/
theorem movesSeen_of_settled_both :
    Along (exec Env.plain) (MovesSeen Env.plain) (Server.start oneHero)
      (twoPlayers ++ [.visiblityList 0 {}, .visiblityList 1 {}, .packet 1 (moveFrame 20 20) {}]) :=
  movesSeen_of_settled (Server.start_fresh oneHero) (by decide +kernel)

/-- The first looks around, and the second moves before it does: the first has it in its list
and is not told. -/
theorem earlyMove_unseen :
    ¬ Along (exec Env.plain) (MovesSeen Env.plain) (Server.start oneHero)
      (twoPlayers ++ [.visiblityList 0 {}, .packet 1 (moveFrame 20 20) {}]) := by
  decide +kernel

end Destiny
