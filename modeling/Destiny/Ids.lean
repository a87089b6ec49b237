import Destiny.Server.Effects
import Mathlib.Order.Bounds.Basic

/-!
# Ids

`GetNewClientID` and `GetNewMobID` take ids from one table. An entry that is set tells from
when on its id may be handed out; the entry of a taken id is 0. Nothing sets an entry again,
so an id is handed out once. A call finds the least id that may be handed out, or none.
-/

namespace Destiny

open Prog

/-- The ids that a search from `i` may hand out. -/
def Server.freeIDs (s : Server) (now : Int) (i : Nat) : Set Nat :=
  {j | i ≤ j ∧ j ≤ 0xffff ∧ s.clientIDList j ≠ 0 ∧ now - s.clientIDList j > 10}

/-- The server after an id is handed out. -/
def Server.take (s : Server) (j : Nat) : Server :=
  { s with clientIDList := setAt s.clientIDList j 0 }

variable {s t : Server} {now : Int} {i j : Nat}

/-! ## A search -/

theorem mem_freeIDs_iff : j ∈ s.freeIDs now i ↔ j ∈ List.range' i (0x10000 - i) ∧
    decide (s.clientIDList j ≠ 0 ∧ now - s.clientIDList j > 10) = true := by
  rw [List.mem_range'_1, decide_eq_true_iff]
  show (i ≤ j ∧ j ≤ 0xffff ∧ _) ↔ _
  constructor
  · rintro ⟨h1, h2, h3⟩
    exact ⟨by omega, h3⟩
  · rintro ⟨h1, h3⟩
    exact ⟨by omega, by omega, h3⟩

theorem freeID_eq_some (h : s.freeID now i = some j) : IsLeast (s.freeIDs now i) j := by
  unfold Server.freeID at h
  rw [List.find?_range'_eq_some] at h
  obtain ⟨hp, hmem, hleast⟩ := h
  refine ⟨mem_freeIDs_iff.mpr ⟨hmem, hp⟩, fun k hk => ?_⟩
  obtain ⟨hk, hpk⟩ := mem_freeIDs_iff.mp hk
  apply Nat.le_of_not_lt
  intro hlt
  have := hleast k (List.mem_range'_1.mp hk).1 hlt
  rw [hpk] at this
  cases this

theorem freeID_eq_none (h : s.freeID now i = none) : s.freeIDs now i = ∅ := by
  unfold Server.freeID at h
  rw [List.find?_eq_none] at h
  refine Set.eq_empty_of_forall_notMem fun j hj => ?_
  obtain ⟨hmem, hp⟩ := mem_freeIDs_iff.mp hj
  exact h j hmem hp

/-- What a call does: it takes the least id that is free, or returns 0. -/
theorem getNewID_cases (J : Junk) (s : Server) (i : Nat) :
    (∃ j, IsLeast (s.freeIDs J.now i) j ∧ getNewID J i s = .ok j (s.take j)) ∨
      s.freeIDs J.now i = ∅ ∧ getNewID J i s = .ok 0 s := by
  cases h : s.freeID J.now i with
  | some j => exact .inl ⟨j, freeID_eq_some h, by rw [getNewID, h]; rfl⟩
  | none => exact .inr ⟨freeID_eq_none h, by rw [getNewID, h]⟩

@[simp] theorem take_self (s : Server) (j : Nat) : (s.take j).clientIDList j = 0 := if_pos rfl

theorem take_of_zero {k : Nat} (h : s.clientIDList k = 0) : (s.take j).clientIDList k = 0 := by
  show (if k = j then 0 else s.clientIDList k) = 0
  rw [h, ite_self]

/-! ## Calls in any order -/

/-- The two functions. -/
inductive Allocator where
  | getNewClientID
  | getNewMobID

def Allocator.first : Allocator → Nat
  | getNewClientID => 1
  | getNewMobID => 2000

def Allocator.call (J : Junk) : Allocator → M Nat
  | getNewClientID => Destiny.getNewClientID J
  | getNewMobID => Destiny.getNewMobID J

theorem Allocator.call_eq (a : Allocator) (J : Junk) : a.call J = getNewID J a.first := by
  cases a <;> rfl

theorem Allocator.first_pos (a : Allocator) : 0 < a.first := by
  cases a <;> decide

/-- Calls of the two, one after another, each at its own time. -/
def calls : List (Allocator × Junk) → M (List Nat)
  | [] => return []
  | (a, J) :: cs => do
    let i ← a.call J
    let is ← calls cs
    return i :: is

variable {is : List Nat} {cs : List (Allocator × Junk)}

theorem of_calls_cons {a : Allocator} {J : Junk} (h : calls ((a, J) :: cs) s = .ok is t) :
    ∃ i u is', a.call J s = .ok i u ∧ calls cs u = .ok is' t ∧ is = i :: is' := by
  obtain ⟨i, u, hi, h⟩ := of_bind_ok h
  obtain ⟨is', v, hc, h⟩ := of_bind_ok h
  cases h
  exact ⟨i, u, is', hi, hc, rfl⟩

/-- Every call returns. -/
theorem calls_return (s : Server) (cs : List (Allocator × Junk)) : ∃ is t, calls cs s = .ok is t := by
  induction cs generalizing s with
  | nil => exact ⟨[], s, rfl⟩
  | cons c cs ih =>
    obtain ⟨a, J⟩ := c
    have hcall : ∃ i u, a.call J s = .ok i u := by
      rw [a.call_eq]
      rcases getNewID_cases J s a.first with ⟨j, -, h⟩ | ⟨-, h⟩
      · exact ⟨j, _, h⟩
      · exact ⟨0, s, h⟩
    obtain ⟨i, u, hi⟩ := hcall
    obtain ⟨is, t, h⟩ := ih u
    exact ⟨i :: is, t, (bind_ok hi).trans (bind_ok h)⟩

/-- A taken id is not handed out. -/
theorem calls_taken {k : Nat} (hk : k ≠ 0) (h : calls cs s = .ok is t)
    (htaken : s.clientIDList k = 0) : k ∉ is := by
  induction cs generalizing s is with
  | nil =>
    cases h
    exact List.not_mem_nil
  | cons c cs ih =>
    obtain ⟨a, J⟩ := c
    obtain ⟨i, u, is', hi, hc, rfl⟩ := of_calls_cons h
    rw [a.call_eq] at hi
    rw [List.mem_cons]
    rintro (rfl | hmem)
    · rcases getNewID_cases J s a.first with ⟨j, hj, he⟩ | ⟨-, he⟩
      · rw [he] at hi
        cases hi
        exact hj.1.2.2.1 htaken
      · rw [he] at hi
        cases hi
        exact hk rfl
    · rcases getNewID_cases J s a.first with ⟨j, hj, he⟩ | ⟨-, he⟩
      · rw [he] at hi
        cases hi
        exact ih hc (take_of_zero htaken) hmem
      · rw [he] at hi
        cases hi
        exact ih hc htaken hmem

theorem calls_nodup (h : calls cs s = .ok is t) : (is.filter (· ≠ 0)).Nodup := by
  induction cs generalizing s is with
  | nil =>
    cases h
    exact List.nodup_nil
  | cons c cs ih =>
    obtain ⟨a, J⟩ := c
    obtain ⟨i, u, is', hi, hc, rfl⟩ := of_calls_cons h
    by_cases hz : i = 0
    · rw [List.filter_cons_of_neg (by simpa using hz)]
      exact ih hc
    · rw [List.filter_cons_of_pos (by simpa using hz), List.nodup_cons]
      refine ⟨fun hmem => ?_, ih hc⟩
      rw [a.call_eq] at hi
      rcases getNewID_cases J s a.first with ⟨j, hj, he⟩ | ⟨-, he⟩
      · rw [he] at hi
        cases hi
        exact calls_taken hz hc (take_self s i) (List.mem_of_mem_filter hmem)
      · rw [he] at hi
        cases hi
        exact hz rfl

/-- A call in the middle is made in the state that those before it leave. -/
theorem of_calls_append {ds : List (Allocator × Junk)} (h : calls (cs ++ ds) s = .ok is t) :
    ∃ is₁ u is₂, calls cs s = .ok is₁ u ∧ calls ds u = .ok is₂ t ∧ is = is₁ ++ is₂ ∧
      is₁.length = cs.length := by
  induction cs generalizing s is with
  | nil => exact ⟨[], s, is, rfl, h, rfl, rfl⟩
  | cons c cs ih =>
    obtain ⟨a, J⟩ := c
    obtain ⟨i, v, is', hi, hc, rfl⟩ := of_calls_cons h
    obtain ⟨is₁, u, is₂, h₁, h₂, rfl, hlen⟩ := ih hc
    refine ⟨i :: is₁, u, is₂, (bind_ok hi).trans (bind_ok h₁), h₂, rfl, ?_⟩
    rw [List.length_cons, List.length_cons, hlen]

/-- **No id is handed out twice**, whatever the table, the times and the order of the calls, and
each call returns the least id that is free for it, or 0 when there is none. -/
theorem ids_once (s : Server) (cs : List (Allocator × Junk)) :
    ∃ is t, calls cs s = .ok is t ∧ (is.filter (· ≠ 0)).Nodup ∧
      ∀ pre a J post, cs = pre ++ (a, J) :: post → ∃ is₁ u i is₂,
        calls pre s = .ok is₁ u ∧ is = is₁ ++ i :: is₂ ∧ is₁.length = pre.length ∧
          (i ≠ 0 ∧ IsLeast (u.freeIDs J.now a.first) i ∨ i = 0 ∧ u.freeIDs J.now a.first = ∅) := by
  obtain ⟨is, t, h⟩ := calls_return s cs
  refine ⟨is, t, h, calls_nodup h, ?_⟩
  rintro pre a J post rfl
  obtain ⟨is₁, u, is₂, h₁, h₂, rfl, hlen⟩ := of_calls_append h
  obtain ⟨i, v, is₂, hi, -, rfl⟩ := of_calls_cons h₂
  refine ⟨is₁, u, i, is₂, h₁, rfl, hlen, ?_⟩
  rw [a.call_eq] at hi
  rcases getNewID_cases J u a.first with ⟨j, hj, he⟩ | ⟨hnone, he⟩
  · rw [he] at hi
    cases hi
    have hpos := a.first_pos
    have hle := hj.1.1
    exact .inl ⟨by omega, hj⟩
  · rw [he] at hi
    cases hi
    exact .inr ⟨rfl, hnone⟩

end Destiny
