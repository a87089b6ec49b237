import Destiny.Ids
import Destiny.Server.Control
import Destiny.Prog.Filled

/-!
# The table of ids

The table has `0x10000` entries. The constructor sets those below `0xffff`, and both searches
go up to `0xffff`: a search that finds nothing among the entries that are set decides on the
one that is not. Which entries are taken follows from the numbers of calls alone, so that it is
known at which call this happens.
-/

namespace Destiny

open Sql Prog

/-- The loop of the constructor, over what the memory held. -/
def Server.construct (s : Server) (mem : Nat → Nat) : Server :=
  { s with clientIDList := filled id (fun _ => 1) (List.range 0xffff) mem }

/-- The entries that a search reads, up to the one it takes. -/
def Server.searched (s : Server) (now : Int) : List Nat → List Nat
  | [] => []
  | i :: is =>
    if s.clientIDList i ≠ 0 ∧ now - s.clientIDList i > 10 then [i]
    else i :: s.searched now is

/-- The entries that a call reads. -/
def Allocator.read (a : Allocator) (J : Junk) (s : Server) : List Nat :=
  s.searched J.now (List.range' a.first (0x10000 - a.first))

variable {s t : Server} {now : Int} {J : Junk} {a : Allocator} {cs : List (Allocator × Junk)}
  {mem : Nat → Nat} {is : List Nat} {i j k c m : Nat}

theorem construct_set (s : Server) (mem : Nat → Nat) (h : k < 0xffff) :
    (s.construct mem).clientIDList k = 1 := by
  unfold Server.construct
  dsimp only
  rw [filled_const, if_pos (List.mem_range.mpr h)]

theorem construct_unset (s : Server) (mem : Nat → Nat) (h : 0xffff ≤ k) :
    (s.construct mem).clientIDList k = mem k := by
  unfold Server.construct
  dsimp only
  rw [filled_const, if_neg (by rw [List.mem_range]; omega)]

/-- A server just started is one whose memory held 1. -/
theorem start_construct (db : Database) :
    (Server.start db).construct (fun _ => 1) = Server.start db := by
  have htable : filled id (fun _ => 1) (List.range 0xffff) (fun _ => 1) = fun _ : Nat => 1 := by
    funext k
    rw [filled_const, ite_self]
  unfold Server.construct
  rw [htable]
  rfl

/-! ## What a search reads -/

/-- Nothing past an entry that is taken is read. -/
theorem searched_le {i n : Nat} (hj : j ∈ List.range' i n)
    (hfree : s.clientIDList j ≠ 0 ∧ now - s.clientIDList j > 10) :
    ∀ k ∈ s.searched now (List.range' i n), k ≤ j := by
  induction n generalizing i with
  | zero => cases hj
  | succ n ih =>
    intro k hk
    rw [List.range'_succ] at hj hk
    unfold Server.searched at hk
    have hi : i ≤ j := by
      rcases List.mem_cons.mp hj with rfl | hj
      · exact Nat.le_refl j
      · have := (List.mem_range'_1.mp hj).1
        omega
    split at hk
    · rw [List.mem_singleton.mp hk]
      exact hi
    · rename_i hnot
      rcases List.mem_cons.mp hk with rfl | hk
      · exact hi
      · refine ih ?_ k hk
        rcases List.mem_cons.mp hj with rfl | hj
        · exact absurd hfree hnot
        · exact hj

theorem read_le (h : j ∈ s.freeIDs J.now a.first) : ∀ k ∈ a.read J s, k ≤ j := by
  refine searched_le ?_ h.2.2
  rw [List.mem_range'_1]
  have h1 := h.1
  have h2 := h.2.1
  omega

/-- An entry is read when none before it is taken. -/
theorem mem_searched {i n : Nat} (hj : j ∈ List.range' i n)
    (h : ∀ k, i ≤ k → k < j → ¬(s.clientIDList k ≠ 0 ∧ now - s.clientIDList k > 10)) :
    j ∈ s.searched now (List.range' i n) := by
  induction n generalizing i with
  | zero => cases hj
  | succ n ih =>
    rw [List.range'_succ] at hj ⊢
    unfold Server.searched
    rcases List.mem_cons.mp hj with rfl | hj
    · split
      · exact List.mem_cons_self
      · exact List.mem_cons_self
    · have hi := (List.mem_range'_1.mp hj).1
      rw [if_neg (h i (Nat.le_refl i) (by omega))]
      apply List.mem_cons_of_mem
      exact ih hj fun k hk hkj => h k (by omega) hkj

/-- When no id below `0xffff` is free, the entry of `0xffff` is read. -/
theorem last_read (h : ∀ k, a.first ≤ k → k < 0xffff → s.clientIDList k = 0) :
    0xffff ∈ a.read J s := by
  have hfirst : a.first ≤ 0xffff := by
    cases a <;> decide
  apply mem_searched
  · rw [List.mem_range'_1]
    omega
  · intro k hk hlt hfree
    exact hfree.1 (h k hk hlt)

/-! ## What the numbers of calls tell -/

/-- Whether an id below `0xffff` is taken after calls of the two functions: the first 1999 clients
take the ids below 2000, the others share those from 2000 on with the mobs. -/
def Given (clients mobs k : Nat) : Prop :=
  if k < 2000 then k ≤ clients else k < 2000 + (mobs + (clients - 1999))

instance (clients mobs k : Nat) : Decidable (Given clients mobs k) := by
  unfold Given
  infer_instance

/-- Whether an id is left for a call, after calls of the two functions. -/
def Allocator.Left (a : Allocator) (clients mobs : Nat) : Prop :=
  match a with
  | getNewClientID => clients < 1999 ∨ mobs + (clients - 1999) < 63535
  | getNewMobID => mobs + (clients - 1999) < 63535

/-- The id that a call takes when there is one left. -/
def Allocator.next (a : Allocator) (clients mobs : Nat) : Nat :=
  match a with
  | getNewClientID => if clients < 1999 then clients + 1 else 2000 + (mobs + (clients - 1999))
  | getNewMobID => 2000 + (mobs + (clients - 1999))

/-- Calls of `GetNewClientID`. -/
def clientCalls (cs : List (Allocator × Junk)) : Nat :=
  cs.countP fun c => c.1 matches .getNewClientID

/-- Calls of `GetNewMobID`. -/
def mobCalls (cs : List (Allocator × Junk)) : Nat :=
  cs.countP fun c => c.1 matches .getNewMobID

/-- The table after calls. Nothing is said of the entry that was not set. -/
def Server.Counted (s : Server) (clients mobs : Nat) : Prop :=
  ∀ k, 0 < k → k < 0xffff → s.clientIDList k = if Given clients mobs k then 0 else 1

theorem left_iff : a.Left c m ↔ a.next c m < 0xffff := by
  cases a with
  | getNewClientID =>
    unfold Allocator.Left Allocator.next
    dsimp only
    split <;> omega
  | getNewMobID =>
    unfold Allocator.Left Allocator.next
    dsimp only
    omega

theorem not_given_next (h : a.Left c m) : ¬Given c m (a.next c m) := by
  have hlt := left_iff.mp h
  unfold Given
  cases a with
  | getNewClientID =>
    unfold Allocator.next at hlt ⊢
    dsimp only at hlt ⊢
    by_cases hc : c < 1999
    · rw [if_pos hc, if_pos (by omega)]
      omega
    · rw [if_neg hc, if_neg (by omega)]
      omega
  | getNewMobID =>
    unfold Allocator.next
    dsimp only
    rw [if_neg (by omega)]
    omega

/-- All ids before the next one are taken. -/
theorem given_of_lt (hk : a.first ≤ k) (hlt : k < a.next c m) : Given c m k := by
  unfold Given
  cases a with
  | getNewClientID =>
    unfold Allocator.next at hlt
    dsimp only at hlt
    split at hlt <;> split <;> omega
  | getNewMobID =>
    unfold Allocator.next at hlt
    change 2000 ≤ k at hk
    rw [if_neg (by omega)]
    exact hlt

theorem first_le_next (a : Allocator) (c m : Nat) : a.first ≤ a.next c m := by
  cases a with
  | getNewClientID =>
    show 1 ≤ if c < 1999 then c + 1 else 2000 + (m + (c - 1999))
    split <;> omega
  | getNewMobID =>
    show 2000 ≤ 2000 + (m + (c - 1999))
    omega

/-- One call adds the next id to those taken. -/
theorem given_step (a : Allocator) (J : Junk) (c m k : Nat) :
    Given (c + clientCalls [(a, J)]) (m + mobCalls [(a, J)]) k ↔
      Given c m k ∨ k = a.next c m := by
  unfold Given
  cases a with
  | getNewClientID =>
    show (if k < 2000 then k ≤ c + 1 else k < 2000 + (m + 0 + (c + 1 - 1999))) ↔
      _ ∨ k = if c < 1999 then c + 1 else 2000 + (m + (c - 1999))
    split <;> split <;> omega
  | getNewMobID =>
    show (if k < 2000 then k ≤ c + 0 else k < 2000 + (m + 1 + (c + 0 - 1999))) ↔
      _ ∨ k = 2000 + (m + (c - 1999))
    split <;> omega

theorem construct_counted (s : Server) (mem : Nat → Nat) : (s.construct mem).Counted 0 0 := by
  intro k hk hlt
  have hnot : ¬Given 0 0 k := by
    unfold Given
    split <;> omega
  rw [construct_set s mem hlt, if_neg hnot]

/-- Below `0xffff` the free ids are those not taken. -/
theorem Server.Counted.mem_freeIDs_iff (hs : s.Counted c m) (hnow : 11 < now) (hi : 0 < i)
    (hlt : k < 0xffff) : k ∈ s.freeIDs now i ↔ i ≤ k ∧ ¬Given c m k := by
  show (i ≤ k ∧ k ≤ 0xffff ∧ s.clientIDList k ≠ 0 ∧ now - s.clientIDList k > 10) ↔ _
  constructor
  · rintro ⟨hik, -, hset, -⟩
    refine ⟨hik, fun hg => hset ?_⟩
    rw [hs k (by omega) hlt, if_pos hg]
  · rintro ⟨hik, hg⟩
    rw [hs k (by omega) hlt, if_neg hg]
    exact ⟨hik, by omega, by omega, by omega⟩

/-- With an id left, a call takes the next one. -/
theorem Server.Counted.isLeast (hs : s.Counted c m) (hnow : 11 < now) (hleft : a.Left c m) :
    IsLeast (s.freeIDs now a.first) (a.next c m) := by
  have hlt := left_iff.mp hleft
  have hpos := a.first_pos
  constructor
  · rw [hs.mem_freeIDs_iff hnow hpos hlt]
    exact ⟨first_le_next a c m, not_given_next hleft⟩
  · intro k hk
    apply Nat.le_of_not_lt
    intro hklt
    have hnot := ((hs.mem_freeIDs_iff hnow hpos (by omega)).mp hk).2
    exact hnot (given_of_lt hk.1 hklt)

/-- With none left, every entry that was set is taken. -/
theorem Server.Counted.exhausted (hs : s.Counted c m) (hleft : ¬a.Left c m) :
    ∀ k, a.first ≤ k → k < 0xffff → s.clientIDList k = 0 := by
  intro k hk hlt
  have hpos := a.first_pos
  rw [left_iff] at hleft
  rw [hs k (by omega) hlt, if_pos (given_of_lt hk (by omega))]

/-- What a call does to the table. -/
theorem Server.Counted.call (hs : s.Counted c m) (hnow : 11 < J.now)
    (h : a.call J s = .ok i t) :
    t.Counted (c + clientCalls [(a, J)]) (m + mobCalls [(a, J)]) := by
  intro k hk hlt
  rw [if_congr (given_step a J c m k) rfl rfl]
  rw [a.call_eq] at h
  by_cases hleft : a.Left c m
  · have hleast := hs.isLeast hnow hleft
    rcases getNewID_cases J s a.first with ⟨j, hj, he⟩ | ⟨hnone, -⟩
    · rw [he] at h
      cases h
      obtain rfl := hj.unique hleast
      show (if k = a.next c m then 0 else s.clientIDList k) = _
      rw [hs k hk hlt]
      by_cases heq : k = a.next c m
      · rw [if_pos heq, if_pos (.inr heq)]
      · rw [if_neg heq]
        exact if_congr (by simp [heq]) rfl rfl
    · have := hleast.1
      rw [hnone] at this
      cases this
  · have hne : k ≠ a.next c m := by
      rw [left_iff] at hleft
      omega
    have hsame : t.clientIDList k = s.clientIDList k := by
      rcases getNewID_cases J s a.first with ⟨j, hj, he⟩ | ⟨-, he⟩
      · rw [he] at h
        cases h
        show (if k = i then 0 else s.clientIDList k) = _
        have hset := hj.1.2.2.1
        split
        · rename_i hki
          rw [← hki] at hj hset
          exact absurd (hs.exhausted hleft k hj.1.1 hlt) hset
        · rfl
      · rw [he] at h
        cases h
        rfl
    rw [hsame, hs k hk hlt]
    exact if_congr (by simp [hne]) rfl rfl

/-- The table after a run. -/
theorem Server.Counted.calls (hs : s.Counted c m) (hnow : ∀ x ∈ cs, 11 < x.2.now)
    (h : calls cs s = .ok is t) : t.Counted (c + clientCalls cs) (m + mobCalls cs) := by
  induction cs generalizing s c m is with
  | nil =>
    cases h
    exact hs
  | cons x cs ih =>
    obtain ⟨a, J⟩ := x
    obtain ⟨i, u, is', hi, hc, rfl⟩ := of_calls_cons h
    have hu := hs.call (hnow (a, J) List.mem_cons_self) hi
    have ht := ih hu (fun x hx => hnow x (List.mem_cons_of_mem _ hx)) hc
    have hclients : clientCalls ([(a, J)] ++ cs) = clientCalls [(a, J)] + clientCalls cs :=
      List.countP_append
    have hmobs : mobCalls ([(a, J)] ++ cs) = mobCalls [(a, J)] + mobCalls cs :=
      List.countP_append
    rw [List.singleton_append] at hclients hmobs
    rw [hclients, hmobs, ← Nat.add_assoc, ← Nat.add_assoc]
    exact ht

/-- An entry that is 0 stays so. -/
theorem calls_zero (h : calls cs s = .ok is t) (hk : s.clientIDList k = 0) :
    t.clientIDList k = 0 := by
  induction cs generalizing s is with
  | nil =>
    cases h
    exact hk
  | cons x cs ih =>
    obtain ⟨a, J⟩ := x
    obtain ⟨i, u, is', hi, hc, rfl⟩ := of_calls_cons h
    apply ih hc
    rw [a.call_eq] at hi
    rcases getNewID_cases J s a.first with ⟨j, -, he⟩ | ⟨-, he⟩
    · rw [he] at hi
      cases hi
      exact take_of_zero hk
    · rw [he] at hi
      cases hi
      exact hk

/-! ## When the searches are complete -/

/-- A call, after the ids `is` were handed out, returns 0 only when these are all there are, and
reads only entries that were set. -/
structure Allocator.Complete (a : Allocator) (J : Junk) (s : Server) (is : List Nat) : Prop where
  none : ∀ t, a.call J s = .ok 0 t → ∀ k, a.first ≤ k → k ≤ 0xffff → k ∈ is
  read : ∀ k ∈ a.read J s, k < 0xffff

theorem Server.Counted.complete_iff (hs : s.Counted c m) (hnow : 11 < J.now) :
    a.Complete J s is ↔ a.Left c m := by
  constructor
  · intro h
    by_contra hleft
    have := h.read 0xffff (last_read (hs.exhausted hleft))
    omega
  · intro hleft
    have hleast := hs.isLeast hnow hleft
    refine ⟨fun t h => ?_, fun k hk => ?_⟩
    · rw [a.call_eq] at h
      have hpos := a.first_pos
      rcases getNewID_cases J s a.first with ⟨j, hj, he⟩ | ⟨hnone, -⟩
      · rw [he] at h
        cases h
        have := hj.1.1
        omega
      · have := hleast.1
        rw [hnone] at this
        cases this
    · have := read_le hleast.1 k hk
      have := left_iff.mp hleft
      omega

/-- **A run of calls** finds every id that is left and reads only entries that were set exactly
when at each call an id below `0xffff` is left, which the numbers of the calls before it tell. -/
theorem searches_complete_iff (s : Server) (mem : Nat → Nat) (cs : List (Allocator × Junk))
    (hnow : ∀ x ∈ cs, 11 < x.2.now) :
    (∀ pre a J post, cs = pre ++ (a, J) :: post →
        ∃ is u, calls pre (s.construct mem) = .ok is u ∧ a.Complete J u is) ↔
      ∀ pre a J post, cs = pre ++ (a, J) :: post → a.Left (clientCalls pre) (mobCalls pre) := by
  refine forall_congr' fun pre => forall_congr' fun a => forall_congr' fun J =>
    forall_congr' fun post => imp_congr_right fun hcs => ?_
  subst hcs
  obtain ⟨is, u, h⟩ := calls_return (s.construct mem) pre
  have hu := (construct_counted s mem).calls
    (fun x hx => hnow x (List.mem_append_left _ hx)) h
  rw [Nat.zero_add, Nat.zero_add] at hu
  have hJ : 11 < J.now := hnow (a, J) (List.mem_append_right _ List.mem_cons_self)
  have hiff : a.Complete J u is ↔ _ := hu.complete_iff hJ
  rw [← hiff]
  constructor
  · rintro ⟨is', u', h', hc⟩
    rw [h] at h'
    cases h'
    exact hc
  · intro hc
    exact ⟨is, u, h, hc⟩

/-- At twelve seconds. -/
def twelve : Junk := { now := 12 }

theorem searches_complete_iff_pair :
    (∀ x ∈ [(Allocator.getNewClientID, twelve), (Allocator.getNewMobID, twelve)], 11 < x.2.now) ∧
      ∀ pre a J post,
        [(Allocator.getNewClientID, twelve), (Allocator.getNewMobID, twelve)] =
            pre ++ (a, J) :: post →
          ∃ is u, calls pre ((Server.start (Db.empty schema)).construct fun _ => 0) = .ok is u ∧
            a.Complete J u is := by
  have hnow : ∀ x ∈ [(Allocator.getNewClientID, twelve), (Allocator.getNewMobID, twelve)],
      11 < x.2.now := by
    decide
  refine ⟨hnow, (searches_complete_iff _ _ _ hnow).mpr fun pre a J post hcs => ?_⟩
  have hlen : pre.length ≤ 1 := by
    have := congrArg List.length hcs
    rw [List.length_append] at this
    simp only [List.length_cons, List.length_nil] at this
    omega
  have hclients : clientCalls pre ≤ 1 := List.countP_le_length.trans hlen
  have hmobs : mobCalls pre ≤ 1 := List.countP_le_length.trans hlen
  cases a with
  | getNewClientID => exact .inl (by omega)
  | getNewMobID =>
    show mobCalls pre + (clientCalls pre - 1999) < 63535
    omega

/-- Over clear memory, `GetNewMobID` returns 0 after 63535 calls though it never returned
`0xffff`, and it has read the entry of `0xffff`, which was not set. -/
theorem getNewMobID_misses :
    ∃ is u, calls (List.replicate 63535 (.getNewMobID, twelve))
        ((Server.start (Db.empty schema)).construct fun _ => 0) = .ok is u ∧
      getNewMobID twelve u = .ok 0 u ∧ 0xffff ∉ is ∧
        0xffff ∈ Allocator.getNewMobID.read twelve u := by
  obtain ⟨is, u, h⟩ := calls_return ((Server.start (Db.empty schema)).construct fun _ => 0)
    (List.replicate 63535 (Allocator.getNewMobID, twelve))
  have hzero : ((Server.start (Db.empty schema)).construct fun _ => 0).clientIDList 0xffff = 0 :=
    construct_unset _ _ (Nat.le_refl _)
  have hcount : u.Counted 0 63535 := by
    have hu := (construct_counted (Server.start (Db.empty schema)) fun _ => 0).calls
      (fun x hx => by rw [(List.mem_replicate.mp hx).2]; decide) h
    have hclients : clientCalls (List.replicate 63535 (Allocator.getNewMobID, twelve)) = 0 :=
      List.countP_replicate
    have hmobs : mobCalls (List.replicate 63535 (Allocator.getNewMobID, twelve)) = 63535 :=
      List.countP_replicate
    rwa [hclients, hmobs] at hu
  have hexh : ∀ k, 2000 ≤ k → k < 0xffff → u.clientIDList k = 0 :=
    hcount.exhausted (a := Allocator.getNewMobID) (by
      show ¬63535 + (0 - 1999) < 63535
      omega)
  refine ⟨is, u, h, ?_, calls_taken (by omega) h hzero, last_read hexh⟩
  rcases getNewID_cases twelve u 2000 with ⟨j, hj, -⟩ | ⟨-, he⟩
  · obtain ⟨hle, hlast, hset, -⟩ := hj.1
    rcases Nat.lt_or_ge j 0xffff with hlt | hge
    · exact absurd (hexh j hle hlt) hset
    · obtain rfl : j = 0xffff := by omega
      exact absurd (calls_zero h hzero) hset
  · exact he

end Destiny
