import Destiny.Text.Basic

/-!
# Format strings

`items fmt` splits a format string into literal bytes and conversions, the conversion
reading argument `n` being `(k, n)`; `vsprintf` prints each conversion with its argument.
An argument that is a string also has an address, which is what `%i` prints of it.
-/

namespace Text

inductive Conv where
  | s
  | i
  | u
  deriving DecidableEq, Repr

/-- A conversion and the index of the argument it prints. -/
abbrev Hole := Conv × Nat

def itemsFrom : Bool → Nat → Bytes → List (UInt8 ⊕ Hole)
  | _, _, [] => []
  | false, n, c :: r => if c = 37 then itemsFrom true n r else .inl c :: itemsFrom false n r
  | true, n, c :: r =>
    if c = 115 then .inr (.s, n) :: itemsFrom false (n + 1) r
    else if c = 105 ∨ c = 100 then .inr (.i, n) :: itemsFrom false (n + 1) r
    else if c = 117 then .inr (.u, n) :: itemsFrom false (n + 1) r
    -- a flag such as the blank of `% i`
    else if c = 32 then itemsFrom true n r
    else .inl c :: itemsFrom false n r

/-- The literal bytes and conversions of a format string. -/
def items (fmt : Bytes) : List (UInt8 ⊕ Hole) := itemsFrom false 0 fmt

inductive Arg where
  | str (b : Bytes) (addr : Int)
  | int (n : Int)
  deriving DecidableEq, Repr

def Arg.print : Conv → Arg → Bytes
  | .s, .str b _ => b
  | .s, .int _ => []
  | .i, .str _ a => decimal a
  | .i, .int n => decimal n
  | .u, .str _ a => decimal (u32 a)
  | .u, .int n => decimal (u32 n)

/-- What a conversion prints. -/
def fill (args : List Arg) (h : Hole) : Bytes :=
  match args[h.2]? with
  | some a => a.print h.1
  | none => []

/-- A text with its holes filled in. -/
def inst {ι : Type} (ρ : ι → Bytes) (its : List (UInt8 ⊕ ι)) : Bytes :=
  its.flatMap fun
    | .inl c => [c]
    | .inr h => ρ h

def vsprintf (fmt : Bytes) (args : List Arg) : Bytes := inst (fill args) (items fmt)

section
variable {ι : Type} (ρ : ι → Bytes)

@[simp] theorem inst_nil : inst ρ [] = [] := rfl

@[simp] theorem inst_inl (c : UInt8) (its : List (UInt8 ⊕ ι)) :
    inst ρ (.inl c :: its) = c :: inst ρ its := rfl

@[simp] theorem inst_inr (h : ι) (its : List (UInt8 ⊕ ι)) :
    inst ρ (.inr h :: its) = ρ h ++ inst ρ its := rfl

@[simp] theorem inst_append (a b : List (UInt8 ⊕ ι)) :
    inst ρ (a ++ b) = inst ρ a ++ inst ρ b := List.flatMap_append

@[simp] theorem inst_map_inl (b : Bytes) : inst ρ (b.map .inl) = b := by
  induction b with
  | nil => rfl
  | cons c b ih => rw [List.map_cons, inst_inl, ih]

end

/-- The number of holes in a text. -/
def holes {ι : Type} (its : List (UInt8 ⊕ ι)) : Nat := its.countP Sum.isRight

theorem length_inst_le {ι : Type} {ρ : ι → Bytes} {n : Nat} (hρ : ∀ h, (ρ h).length ≤ n)
    (its : List (UInt8 ⊕ ι)) : (inst ρ its).length ≤ its.length + n * holes its := by
  induction its with
  | nil => simp
  | cons x its ih =>
    unfold holes at ih ⊢
    cases x with
    | inl c =>
      rw [inst_inl, List.length_cons, List.length_cons, List.countP_cons_of_neg (by simp)]
      omega
    | inr h =>
      have hh := hρ h
      rw [inst_inr, List.length_append, List.length_cons, List.countP_cons_of_pos (by simp),
        Nat.mul_succ]
      omega

/-- Arguments that print short give a short text. -/
theorem length_vsprintf_le {fmt : Bytes} {args : List Arg} {n : Nat}
    (h : ∀ a ∈ args, ∀ k, (a.print k).length ≤ n) :
    (vsprintf fmt args).length ≤ (items fmt).length + n * holes (items fmt) := by
  refine length_inst_le (fun hole => ?_) _
  unfold fill
  split
  · next a ha => exact h a (List.mem_of_getElem? ha) _
  · exact Nat.zero_le n

/-- A format string's literal start is printed as it stands. -/
theorem items_append {p : Bytes} (hp : (37 : UInt8) ∉ p) (r : Bytes) :
    items (p ++ r) = p.map .inl ++ items r := by
  unfold items
  induction p with
  | nil => rfl
  | cons c p ih =>
    have hc : c ≠ 37 := fun e => hp (e ▸ List.mem_cons_self)
    simp only [List.cons_append, itemsFrom, hc, if_false, List.map_cons]
    rw [ih fun h => hp (List.mem_cons_of_mem _ h)]

theorem prefix_vsprintf {p fmt : Bytes} (hp : (37 : UInt8) ∉ p) (h : p <+: fmt)
    (args : List Arg) : p <+: vsprintf fmt args := by
  obtain ⟨r, rfl⟩ := h
  rw [vsprintf, items_append hp, inst_append, inst_map_inl]
  exact List.prefix_append _ _

end Text
