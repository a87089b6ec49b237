import Destiny.Server.Reach
import Destiny.Server.Sockets

/-!
# Serving the clients

`FillFDS` and `HandleClients` erase from `ClientList` while an index runs over it, so
each skips the client that comes after one it disconnects. `fillFDS_iff` and
`handleClients_iff` say when a pass does its work all the same.

Skipping aside, both loops are safe: whatever passes, connections and cleared flags make up
a run, `ClientList` holds the clients accepted and not yet deleted, in order, no client is
deleted twice, and no entry is used once it has been erased (`serve_ledger`).
-/

namespace Destiny

open Prog

namespace CServerSocket

variable {s s₀ t : CServerSocket} {c : Ptr} {fds : FdSet} {recv : Ptr → Bool}
  {K : CServerSocket → Prop}

/-! ## The loops -/

/-- A property that both loops keep. -/
structure Steady (K : CServerSocket → Prop) : Prop where
  disconnect : ∀ s c, s.Sound → K s → c ∈ s.clientList → K (s.disconnect c)
  receive : ∀ s c, K s → K (s.receive c)

/-- A state inside a loop that began in `s₀`: the clients still listed are as they were. -/
structure Within (K : CServerSocket → Prop) (s₀ s : CServerSocket) : Prop where
  sound : s.Sound
  keeps : K s
  same : ∀ c ∈ s.clientList, s.heap c = s₀.heap c

theorem Within.disconnect (h : Within K s₀ s) (hK : Steady K) (hc : c ∈ s.clientList) :
    Within K s₀ (s.disconnect c) where
  sound := h.sound.disconnect c
  keeps := hK.disconnect s c h.sound h.keeps hc
  same d hd := by
    obtain ⟨hne, hd⟩ := (mem_disconnect h.sound).mp hd
    rw [heap_disconnect hne]
    exact h.same d hd

theorem Within.receive (h : Within K s₀ s) (hK : Steady K) : Within K s₀ (s.receive c) :=
  ⟨h.sound.receive c, hK.receive s c h.keeps, h.same⟩

theorem fill_turn (hK : Steady K) (s₀ : CServerSocket) :
    Turn clientList fillClient (fun c => !s₀.active c) fillNext (Within K s₀) where
  nodup s h := h.sound.nodup
  runs c fds s h hc := by
    obtain ⟨cl, hcl⟩ := h.sound.get hc
    exact fillClient_apply hcl
  keeps c fds s h hc := by
    unfold fillNext
    split
    · exact h
    · exact h.disconnect hK hc
  erases c fds s h hc := by
    unfold fillNext
    dsimp only
    rw [active_congr (h.same c hc)]
    cases s₀.active c <;> rfl

theorem handle_turn (hK : Steady K) (s₀ : CServerSocket) (fds : FdSet) (recv : Ptr → Bool) :
    Turn clientList (handleClient fds recv) (fun c => s₀.ready fds c && !recv c)
      (handleNext fds recv) (Within K s₀) where
  nodup s h := h.sound.nodup
  runs c u s h hc := by
    obtain ⟨cl, hcl⟩ := h.sound.get hc
    exact handleClient_apply recv u hcl
  keeps c u s h hc := by
    unfold handleNext
    dsimp only
    split
    · dsimp only
      split
      · exact h.receive hK
      · exact (h.receive hK).disconnect hK hc
    · exact h
  erases c u s h hc := by
    unfold handleNext
    dsimp only
    rw [ready_congr (h.same c hc)]
    cases s₀.ready fds c <;> cases recv c <;> rfl

/-- What the turns of `FillFDS` come to. -/
theorem fill_foldl {l : List Ptr} (hl : l.Nodup) (hs : ∀ c ∈ l, s.heap c = s₀.heap c) :
    l.foldl (fun r c => fillNext c r) (fds, s) =
      (fds.setAll ((l.filter s₀.active).map s₀.sock),
        (l.filter fun c => !s₀.active c).foldl disconnect s) := by
  induction l generalizing fds s with
  | nil => rfl
  | cons c l ih =>
    obtain ⟨hc, hl⟩ := List.nodup_cons.mp hl
    have hat := hs c List.mem_cons_self
    have hrest : ∀ d ∈ l, s.heap d = s₀.heap d := fun d hd => hs d (List.mem_cons_of_mem _ hd)
    rw [List.foldl_cons, fillNext, active_congr hat, sock_congr hat]
    cases ha : s₀.active c with
    | true =>
      rw [if_pos rfl, ih hl hrest, List.filter_cons_of_pos ha,
        List.filter_cons_of_neg (by rw [ha]; decide)]
      rfl
    | false =>
      have hnext : ∀ d ∈ l, (s.disconnect c).heap d = s₀.heap d := fun d hd =>
        (heap_disconnect (ne_of_mem_of_not_mem hd hc)).trans (hrest d hd)
      rw [if_neg (by decide), ih hl hnext, List.filter_cons_of_neg (by rw [ha]; decide),
        List.filter_cons_of_pos (by rw [ha]; decide)]
      rfl

/-- The calls of `ReceiveData` that the turns of `HandleClients` make. -/
theorem handle_foldl {l : List Ptr} {r : Unit × CServerSocket} (hl : l.Nodup)
    (hr : ∀ c ∈ l, r.2.heap c = s₀.heap c) :
    (l.foldl (fun r c => handleNext fds recv c r) r).2.received =
      r.2.received ++ l.filter (s₀.ready fds) := by
  induction l generalizing r with
  | nil => exact (List.append_nil _).symm
  | cons c l ih =>
    obtain ⟨hc, hl⟩ := List.nodup_cons.mp hl
    have hat := hr c List.mem_cons_self
    have hrest : ∀ d ∈ l, r.2.heap d = s₀.heap d := fun d hd => hr d (List.mem_cons_of_mem _ hd)
    rw [List.foldl_cons, handleNext, ready_congr hat]
    cases ha : s₀.ready fds c with
    | false => rw [if_neg (by decide), ih hl hrest, List.filter_cons_of_neg (by rw [ha]; decide)]
    | true =>
      have hnext : ∀ d ∈ l, ((r.2.receive c).disconnect c).heap d = s₀.heap d := fun d hd =>
        (heap_disconnect (ne_of_mem_of_not_mem hd hc)).trans (hrest d hd)
      rw [if_pos rfl, List.filter_cons_of_pos ha, List.append_cons]
      cases recv c with
      | true => exact ih hl hrest
      | false => exact ih hl hnext

theorem heap_disconnects (l : List Ptr) (s : CServerSocket) (c : Ptr) :
    (l.foldl disconnect s).heap c = if c ∈ l then none else s.heap c := by
  induction l generalizing s with
  | nil => exact (if_neg List.not_mem_nil).symm
  | cons d l ih =>
    rw [List.foldl_cons, ih]
    by_cases hl : c ∈ l
    · rw [if_pos hl, if_pos (List.mem_cons_of_mem _ hl)]
    · rw [if_neg hl]
      change (if c = d then none else s.heap c) = _
      exact if_congr (by simp [hl]) rfl rfl

theorem fillFDS_apply (hK : Steady K) (hs : s.Sound) (hk : K s) (fds : FdSet) :
    ∃ t, fillFDS fds s = .ok (fds.setAll
        (((looked (fun c => !s.active c) s.clientList).filter s.active).map s.sock)) t ∧
      t = ((looked (fun c => !s.active c) s.clientList).filter fun c => !s.active c).foldl
        disconnect s ∧
      t.Sound ∧ K t ∧ t.clientList = kept (fun c => !s.active c) s.clientList := by
  obtain ⟨hrun, hin, hlist⟩ := (fill_turn hK s).sweep .outOfRange fds []
    ⟨hs, hk, fun _ _ => rfl⟩ rfl (le_refl s.clientList.length)
  rw [fill_foldl (looked_nodup hs.nodup) fun _ _ => rfl] at hrun hin hlist
  exact ⟨_, hrun, rfl, hin.sound, hin.keeps, hlist⟩

theorem handleClients_apply (hK : Steady K) (hs : s.Sound) (hk : K s) (fds : FdSet)
    (recv : Ptr → Bool) :
    ∃ t, handleClients fds recv s = .ok () t ∧
      t.received = s.received ++
        (looked (fun c => s.ready fds c && !recv c) s.clientList).filter (s.ready fds) ∧
      t.Sound ∧ K t ∧ t.clientList = kept (fun c => s.ready fds c && !recv c) s.clientList := by
  obtain ⟨hrun, hin, hlist⟩ := (handle_turn hK s fds recv).sweep .outOfRange () []
    ⟨hs, hk, fun _ _ => rfl⟩ rfl (le_refl s.clientList.length)
  refine ⟨_, hrun, ?_, hin.sound, hin.keeps, hlist⟩
  exact handle_foldl (looked_nodup hs.nodup) fun _ _ => rfl

theorem steady_true : Steady fun _ => True := ⟨fun _ _ _ _ _ => trivial, fun _ _ _ => trivial⟩

/-! ## `FillFDS` -/

/-- `FillFDS`, from the empty set, adds the socket of every active client, and disconnects
and removes exactly the others. -/
def FillsRight (s : CServerSocket) : Prop :=
  ∃ fds t, fillFDS .zero s = .ok fds t ∧
    (∀ c ∈ s.clientList, s.active c → fds.isSet (s.sock c)) ∧
    t.clientList = s.clientList.filter s.active ∧
    ∀ c ∈ s.clientList, ¬ s.active c → t.heap c = none

/-- Nothing is skipped just when only the last client may be inactive. -/
theorem fill_skips_none_iff :
    (∀ b, b ∉ skipped (fun c => !s.active c) s.clientList) ↔
      s.clientList.IsChain fun a _ => s.active a := by
  have h := skipped_iff_isChain (l := s.clientList) (p := fun c => !s.active c) (q := fun _ => True)
    fun _ _ => trivial
  have hrel : (fun a (_ : Ptr) => (!s.active a) = true → ¬ True) = fun a _ => s.active a = true := by
    funext a _
    simp
  rw [hrel] at h
  exact ⟨fun hb => h.mp fun b hm => absurd hm (hb b), fun hl b hm => h.mpr hl b hm trivial⟩

theorem nodup_socks (hs : s.Sound) (ho : s.OwnSocks) {l : List Ptr} (hl : l.Sublist s.clientList) :
    (l.map s.sock).Nodup :=
  (hs.nodup.sublist hl).map_on fun c hc d hd => ho c (hl.subset hc) d (hl.subset hd)

/-- `FillFDS` does its work just when no client in the list follows an inactive one and the
set has room for the active ones. -/
theorem fillFDS_iff (hs : s.Sound) (ho : s.OwnSocks) : FillsRight s ↔
    (s.clientList.IsChain fun a _ => s.active a) ∧
      (s.clientList.filter s.active).length ≤ fdSetSize := by
  obtain ⟨t, hrun, ht, -, -, hlist⟩ := fillFDS_apply steady_true hs trivial FdSet.zero
  rw [← fill_skips_none_iff]
  constructor
  · rintro ⟨fds, t', h, hset, hkept, -⟩
    rw [hrun] at h
    cases h
    have hskipped : ∀ b, b ∉ skipped (fun c => !s.active c) s.clientList := by
      intro b hb
      have hmem := kept_of_skipped hb
      rw [← hlist, hkept, List.mem_filter] at hmem
      -- a skipped client that is active has a socket of its own, which nobody added
      have hin := FdSet.isSet_iff.mp (hset b hmem.1 hmem.2)
      obtain ⟨c, hc, hcb⟩ := List.mem_map.mp ((FdSet.of_mem_setAll hin).resolve_left
        List.not_mem_nil)
      have hlooked := (List.mem_filter.mp hc).1
      have he : c = b := ho c (mem_of_looked hlooked) b hmem.1 hcb
      exact (looked_iff hs.nodup hmem.1).mp (he ▸ hlooked) hb
    refine ⟨hskipped, ?_⟩
    have hsub : (s.clientList.filter s.active).map s.sock ⊆ _ := fun k hk => by
      obtain ⟨c, hc, rfl⟩ := List.mem_map.mp hk
      obtain ⟨hc, ha⟩ := List.mem_filter.mp hc
      exact FdSet.isSet_iff.mp (hset c hc ha)
    have hle := (List.subperm_of_subset (nodup_socks hs ho List.filter_sublist) hsub).length_le
    rw [List.length_map] at hle
    exact hle.trans (FdSet.bound _)
  · rintro ⟨hskipped, hroom⟩
    have hlooked : ∀ c ∈ s.clientList, c ∈ looked (fun c => !s.active c) s.clientList :=
      fun c hc => (looked_iff hs.nodup hc).mpr (hskipped c)
    refine ⟨_, t, hrun, fun c hc ha => ?_, ?_, fun c hc ha => ?_⟩
    · refine FdSet.isSet_iff.mpr (FdSet.mem_setAll_self ?_ ?_)
      · have hperm := (looked_append_skipped (p := fun c => !s.active c) s.clientList)
        rw [List.eq_nil_iff_forall_not_mem.mpr hskipped, List.append_nil] at hperm
        rw [List.length_map, (hperm.filter s.active).length_eq]
        exact (Nat.zero_add _).trans_le hroom
      · exact List.mem_map_of_mem (List.mem_filter.mpr ⟨hlooked c hc, ha⟩)
    · rw [hlist, kept_eq_filter fun b hb => absurd hb (hskipped b)]
      exact List.filter_congr fun c _ => Bool.not_not _
    · rw [ht, heap_disconnects]
      exact if_pos (List.mem_filter.mpr ⟨hlooked c hc, by simpa using ha⟩)

/-- The second of two clients has left the game. -/
def lastLeft : CServerSocket :=
  fin (run serve [.addUser 100, .addUser 101, .disconnectAll fun c => c = 1] start)

theorem fillFDS_iff_lastLeft : FillsRight lastLeft :=
  (fillFDS_iff ⟨by decide, by decide⟩ (by unfold OwnSocks; decide)).mpr ⟨by decide, by decide⟩

/-- The first of two clients has left the game, and the socket of the second is not added. -/
def firstLeft : CServerSocket :=
  fin (run serve [.addUser 100, .addUser 101, .disconnectAll fun c => c = 0] start)

theorem firstLeft_not_fillsRight : ¬ FillsRight firstLeft := by
  rintro ⟨fds, t, h, hset, -⟩
  cases h
  exact absurd (hset 1 (by decide) (by decide)) (by decide)

/-! ## `HandleClients` -/

/-- `HandleClients` calls `ReceiveData` once for every active client whose socket is ready. -/
def Serves (fds : FdSet) (recv : Ptr → Bool) (s : CServerSocket) : Prop :=
  ∃ calls t, handleClients fds recv s = .ok () t ∧ t.received = s.received ++ calls ∧
    ∀ c ∈ s.clientList, s.ready fds c → calls.count c = 1

/-- `HandleClients` serves them all just when none of them follows one whose `ReceiveData`
fails. -/
theorem handleClients_iff (hs : s.Sound) : Serves fds recv s ↔
    s.clientList.IsChain fun a b => s.ready fds a → recv a = false → ¬ s.ready fds b := by
  obtain ⟨t, hrun, hcalls, -⟩ := handleClients_apply steady_true hs trivial fds recv
  have hskip := skipped_iff_isChain (l := s.clientList) (p := fun c => s.ready fds c && !recv c)
    (q := fun c => s.ready fds c) fun c hc => (Bool.and_eq_true_iff.mp hc).1
  have hrel : (fun a b => (s.ready fds a && !recv a) = true → ¬ s.ready fds b = true) =
      fun a b => s.ready fds a = true → recv a = false → ¬ s.ready fds b = true := by
    funext a b
    simp
  rw [hrel] at hskip
  rw [← hskip]
  constructor
  · rintro ⟨calls, t', h, hreceived, hone⟩ b hb hready
    rw [hrun] at h
    cases h
    rw [hcalls] at hreceived
    obtain rfl := List.append_cancel_left hreceived
    have hmem : b ∈ s.clientList := mem_of_skipped hb
    have hcalled := List.count_pos_iff.mp (Nat.lt_of_lt_of_eq Nat.zero_lt_one (hone b hmem hready).symm)
    exact (looked_iff hs.nodup hmem).mp (List.mem_filter.mp hcalled).1 hb
  · intro hnone
    refine ⟨_, t, hrun, hcalls, fun c hc hready => ?_⟩
    have hlooked := (looked_iff hs.nodup hc).mpr fun hb => hnone c hb hready
    exact List.count_eq_one_of_mem ((looked_nodup hs.nodup).filter _)
      (List.mem_filter.mpr ⟨hlooked, hready⟩)

/-- Two clients whose sockets are ready. -/
def bothReady : CServerSocket := fin (run serve [.addUser 100, .addUser 101] start)

theorem handleClients_iff_lastFails :
    Serves (FdSet.zero.setAll [100, 101]) (fun c => c = 0) bothReady :=
  (handleClients_iff ⟨by decide, by decide⟩).mpr (by decide)

/-- The first client fails, and the second is not asked. -/
theorem bothReady_not_serves : ¬ Serves (FdSet.zero.setAll [100, 101]) (fun c => c = 1) bothReady := by
  rintro ⟨calls, t, h, hreceived, hone⟩
  cases h
  obtain rfl : [0] = calls := hreceived
  exact absurd (hone 1 (by decide) (by decide)) (by decide)

/-! ## Runs -/

/-- What is listed is what was accepted and not deleted. -/
structure Ledger (s : CServerSocket) : Prop where
  fresh : ∀ c ∈ s.accepted, c < s.nextPtr
  listed : s.clientList = s.accepted.filter fun c => c ∉ s.deleted
  known : ∀ c ∈ s.deleted, c ∈ s.accepted
  once : s.deleted.Nodup

theorem Ledger.next (h : s.Ledger) : s.nextPtr ∉ s.clientList := by
  intro hn
  rw [h.listed] at hn
  exact Nat.lt_irrefl _ (h.fresh _ (List.mem_filter.mp hn).1)

theorem Ledger.disconnect (h : s.Ledger) (hs : s.Sound) (hc : c ∈ s.clientList) :
    (s.disconnect c).Ledger where
  fresh := h.fresh
  listed := by
    change s.clientList.erase c = s.accepted.filter fun d => d ∉ s.deleted ++ [c]
    rw [hs.nodup.erase_eq_filter, h.listed, List.filter_filter]
    refine List.filter_congr fun d _ => ?_
    simp only [List.mem_append, List.mem_singleton, not_or, Bool.decide_and, decide_not]
    exact Bool.and_comm _ _
  known d hd := by
    rw [h.listed] at hc
    rcases List.mem_append.mp hd with hd | hd
    · exact h.known d hd
    · exact List.mem_singleton.mp hd ▸ (List.mem_filter.mp hc).1
  once := by
    rw [h.listed] at hc
    refine List.Nodup.append h.once (List.nodup_singleton c) fun d hd hn => ?_
    rw [List.mem_singleton.mp hn] at hd
    exact of_decide_eq_true (List.mem_filter.mp hc).2 hd

theorem steady_ledger : Steady Ledger :=
  ⟨fun _ _ hs h hc => h.disconnect hs hc, fun _ _ h => ⟨h.fresh, h.listed, h.known, h.once⟩⟩

theorem Ledger.addUser (h : s.Ledger) (k : UInt32) : (fin (CServerSocket.addUser k s)).Ledger where
  fresh c hc := by
    rcases List.mem_append.mp hc with hc | hc
    · exact Nat.lt_succ_of_lt (h.fresh c hc)
    · exact List.mem_singleton.mp hc ▸ Nat.lt_succ_self _
  listed := by
    change s.clientList ++ [s.nextPtr] = (s.accepted ++ [s.nextPtr]).filter fun c => c ∉ s.deleted
    have hnew : s.nextPtr ∉ s.deleted := fun hn => Nat.lt_irrefl _ (h.fresh _ (h.known _ hn))
    rw [List.filter_append, ← h.listed, List.filter_cons_of_pos (by simpa using hnew)]
    rfl
  known c hc := List.mem_append_left _ (h.known c hc)
  once := h.once

theorem Ledger.serve (h : s.Ledger) (hs : s.Sound) (i : SocketStep) :
    ∃ t, CServerSocket.serve i s = .ok () t ∧ t.Sound ∧ t.Ledger := by
  cases i with
  | addUser k => exact ⟨_, rfl, hs.addUser h.next k, h.addUser k⟩
  | disconnectAll inGame =>
    exact ⟨_, rfl, hs.disconnectAll inGame, h.fresh, h.listed, h.known, h.once⟩
  | fillFDS fds =>
    obtain ⟨t, hrun, -, hsound, hledger, -⟩ := fillFDS_apply steady_ledger hs h fds
    exact ⟨t, bind_ok hrun, hsound, hledger⟩
  | handleClients fds recv =>
    obtain ⟨t, hrun, -, hsound, hledger, -⟩ := handleClients_apply steady_ledger hs h fds recv
    exact ⟨t, hrun, hsound, hledger⟩

theorem run_ledger (is : List SocketStep) (h : s.Ledger) (hs : s.Sound) :
    ∃ t, run serve is s = .ok () t ∧ t.Sound ∧ t.Ledger := by
  induction is generalizing s with
  | nil => exact ⟨s, rfl, hs, h⟩
  | cons i is ih =>
    obtain ⟨t, hrun, hsound, hledger⟩ := h.serve hs i
    obtain ⟨u, hrest, hu⟩ := ih hledger hsound
    exact ⟨u, (run_cons_ok hrun).trans hrest, hu⟩

theorem start_sound : start.Sound := ⟨List.nodup_nil, nofun⟩

theorem start_ledger : start.Ledger := ⟨nofun, rfl, nofun, List.nodup_nil⟩

/-- A socket that `accept` returns is not open yet. -/
def Accepts (s : CServerSocket) : SocketStep → Prop
  | .addUser k => ∀ c ∈ s.clientList, s.sock c ≠ k
  | _ => True

theorem steady_ownSocks : Steady OwnSocks :=
  ⟨fun _ c hs h _ => h.disconnect hs c, fun _ _ h => h⟩

theorem run_ownSocks {is : List SocketStep} (hs : s.Sound) (h : s.Ledger) (ho : s.OwnSocks)
    (his : Along serve Accepts s is) (hr : run serve is s = .ok () t) : t.OwnSocks := by
  induction is generalizing s with
  | nil => cases hr; exact ho
  | cons i is ih =>
    obtain ⟨_, u, hu, hr⟩ := of_bind_ok hr
    obtain ⟨u', hu', hsound, hledger⟩ := h.serve hs i
    rw [hu] at hu'
    cases hu'
    refine ih hsound hledger ?_ (his.2 u hu) hr
    cases i with
    | addUser k => cases hu; exact ho.addUser h.next his.1
    | disconnectAll inGame => cases hu; exact ho.disconnectAll inGame
    | fillFDS fds =>
      obtain ⟨v, hv, -, -, hown, -⟩ := fillFDS_apply steady_ownSocks hs ho fds
      cases (bind_ok hv).symm.trans hu
      exact hown
    | handleClients fds recv =>
      obtain ⟨v, hv, -, -, hown, -⟩ := handleClients_apply steady_ownSocks hs ho fds recv
      cases hv.symm.trans hu
      exact hown

/-! ## The machine -/

/-- The game server and its base class agree on which clients there are. -/
def Mirrors (S : Server) (s : CServerSocket) : Prop :=
  S.shape = (fun p => (s.heap p).isSome, s.clientList, s.nextPtr)

/-- The game server has come by its steps to a state with the same clients. -/
def Reached (E : Env) (S : Server) (s : CServerSocket) : Prop :=
  ∃ is T, run (exec E) is S = .ok () T ∧ T.Sound ∧ Mirrors T s

variable {E : Env} {S : Server} {J : Junk}

theorem Mirrors.disconnect (h : Mirrors S s) : Mirrors (S.delete c) (s.disconnect c) := by
  obtain ⟨hheap, hlist⟩ := Prod.ext_iff.mp h
  obtain ⟨hlist, hnext⟩ := Prod.ext_iff.mp hlist
  refine Prod.ext (funext fun p => ?_) (Prod.ext (congrArg (·.erase c) hlist) hnext)
  change (if p = c then none else S.heap p).isSome = (if p = c then none else s.heap p).isSome
  split
  · rfl
  · exact congrFun hheap p

theorem Mirrors.addUser (h : Mirrors S s) (k : UInt32) :
    Mirrors (fin (exec E (.addUser J) S)) (fin (CServerSocket.addUser k s)) := by
  obtain ⟨hheap, hlist⟩ := Prod.ext_iff.mp h
  obtain ⟨hlist, hnext⟩ := Prod.ext_iff.mp hlist
  have hlist : S.clientList = s.clientList := hlist
  have hnext : S.nextPtr = s.nextPtr := hnext
  refine Prod.ext (funext fun p => ?_) (Prod.ext ?_ (congrArg (· + 1) hnext))
  · change (if p = S.nextPtr then some _ else S.heap p).isSome =
      (if p = s.nextPtr then some _ else s.heap p).isSome
    rw [hnext]
    split
    · rfl
    · exact congrFun hheap p
  · change S.clientList ++ [S.nextPtr] = s.clientList ++ [s.nextPtr]
    rw [hlist, hnext]

/-- A packet changes neither the list nor who exists. -/
theorem Mirrors.packet {P : Packet} {T : Server} (h : Mirrors S s)
    (ht : exec E (.packet c P J) S = .ok () T) : Mirrors T (s.receive c) := by
  have hrel := (callOf_packet (E := E) (c := c) (s := S) J P).rel
  rw [ht] at hrel
  exact hrel.1.trans h

theorem steady_reached : Steady (Reached E S) where
  disconnect s c hs h hc := by
    obtain ⟨is, T, hrun, hT, hm⟩ := h
    have hmem : c ∈ T.clientList := (congrArg (·.2.1) hm : T.clientList = s.clientList) ▸ hc
    have hstep := exec_disconnectClient (E := E) hT c
    rw [if_pos hmem] at hstep
    exact ⟨is ++ [.disconnectClient c], T.delete c,
      (run_append_ok hrun).trans (run_cons_ok hstep), hT.delete c, hm.disconnect⟩
  receive s c h := h

/-- Every run of the base class is matched by a run of the game server. -/
theorem serve_reached {is : List SocketStep} (hs : s.Sound) (h : s.Ledger) (hr : Reached E S s)
    (hrun : run serve is s = .ok () t) : Reached E S t := by
  induction is generalizing s with
  | nil => cases hrun; exact hr
  | cons i is ih =>
    obtain ⟨_, u, hu, hrun⟩ := of_bind_ok hrun
    obtain ⟨u', hu', hsound, hledger⟩ := h.serve hs i
    rw [hu] at hu'
    cases hu'
    refine ih hsound hledger ?_ hrun
    cases i with
    | addUser k =>
      cases hu
      obtain ⟨js, T, hjs, hT, hm⟩ := hr
      exact ⟨js ++ [.addUser {}], fin (exec E (.addUser {}) T),
        (run_append_ok hjs).trans (run_cons_ok rfl), hT.addUser {}, hm.addUser k⟩
    | disconnectAll inGame =>
      cases hu
      obtain ⟨js, T, hjs, hT, hm⟩ := hr
      refine ⟨js, T, hjs, hT, hm.trans (Prod.ext (funext fun p => ?_) rfl)⟩
      exact Option.isSome_map.symm
    | fillFDS fds =>
      obtain ⟨v, hv, -, -, hreached, -⟩ := fillFDS_apply steady_reached hs hr fds
      cases (bind_ok hv).symm.trans hu
      exact hreached
    | handleClients fds recv =>
      obtain ⟨v, hv, -, -, hreached, -⟩ := handleClients_apply steady_reached hs hr fds recv
      cases hv.symm.trans hu
      exact hreached

end CServerSocket

end Destiny
