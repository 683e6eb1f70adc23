import Milp.Number.Level
/-!
# Scalars

`Scalar α` holds the operations that the solvers use on numbers. Nothing
here assumes a law of arithmetic beyond `same_iff`, so every definition over
a scalar can be read twice: with doubles it is what runs, with rational
numbers it is the exact method.

Comparisons follow the usual rule for partial numbers: a value that is not
a number is not even `≤` itself, so `IsNumber v` is `v ≤ v`. Two relations
tell values apart. `==` is numeric equality, under which the two zeros of
doubles are equal; `same` is identity, under which they differ.
-/

namespace Milp

/-- The operations of a number system that the solvers use. -/
class Scalar (α : Type) extends Zero α, One α, Add α, Sub α, Mul α, Div α, Neg α, LE α, LT α,
    BEq α where
  /-- One half. -/
  half : α
  /-- The magnitude. -/
  abs : α → α
  /-- The largest integer that is not above the value. -/
  floor : α → α
  /-- The smallest integer that is not below the value. -/
  ceil : α → α
  /-- The nearest integer, a half going away from zero. -/
  round : α → α
  /-- The smaller of two values, or the one that is a number. -/
  lesser : α → α → α
  /-- The larger of two values, or the one that is a number. -/
  greater : α → α → α
  /-- The order of all levels, which has a place even for what is no number. -/
  order : Level α → Level α → Ordering
  /-- Identity, which tells apart even values that are numerically equal. -/
  same : α → α → Bool
  /-- The level a value stands for: an infinite value is an outcome. -/
  level : α → Level α
  /-- The order is decidable. -/
  decLE : (a b : α) → Decidable (a ≤ b)
  /-- The strict order is decidable. -/
  decLT : (a b : α) → Decidable (a < b)
  /-- `same` is equality. -/
  same_iff : ∀ a b, same a b = true ↔ a = b

namespace Scalar

variable {α : Type} [Scalar α]

instance (a b : α) : Decidable (a ≤ b) := decLE a b

instance (a b : α) : Decidable (a < b) := decLT a b

/-- A value is a number when it is comparable with itself. -/
def IsNumber (v : α) : Prop := v ≤ v

instance (v : α) : Decidable (IsNumber v) := decLE v v

@[simp] theorem same_self (a : α) : same a a = true := (same_iff a a).2 rfl

/-! ## Lists of scalars -/

/-- Whether two lists have the same values, one by one. -/
def sameList : List α → List α → Bool
  | [], [] => true
  | a :: as, b :: bs => same a b && sameList as bs
  | _, _ => false

/-- `sameList` is equality. -/
theorem sameList_iff : ∀ as bs : List α, sameList as bs = true ↔ as = bs
  | [], [] => by simp [sameList]
  | [], _ :: _ => by simp [sameList]
  | _ :: _, [] => by simp [sameList]
  | a :: as, b :: bs => by simp [sameList, same_iff, sameList_iff as bs]

/-- The sum from left to right. It starts from negative zero, the one value
that addition leaves every other value alone with. -/
def sum (vs : List α) : α := vs.foldl (· + ·) (-0)

/-- The sum of the products of two lists, as far as the shorter one goes. -/
def sumProducts (as bs : List α) : α := sum (List.zipWith (· * ·) as bs)

/-- `n` values, all zero but the `j`-th, which is `c`. -/
def unitList (n j : Nat) (c : α) : List α := (List.replicate n 0).set j c

@[simp] theorem length_unitList (n j : Nat) (c : α) : (unitList n j c).length = n := by
  simp [unitList]

end Scalar

/-! ## The order of levels -/

namespace Level

variable {α : Type} [Scalar α]

/-- **The numeric order of levels.** A level whose number is not one is not
comparable, with itself or with the two ends. -/
def le : Level α → Level α → Bool
  | bottom, bottom => true
  | bottom, number w => decide (w ≤ w)
  | bottom, top => true
  | number _, bottom => false
  | number v, number w => decide (v ≤ w)
  | number v, top => decide (v ≤ v)
  | top, top => true
  | top, _ => false

instance : LE (Level α) := ⟨fun a b => le a b = true⟩

instance (a b : Level α) : Decidable (a ≤ b) := inferInstanceAs (Decidable (le a b = true))

/-- Numeric equality of levels. -/
def beq : Level α → Level α → Bool
  | bottom, bottom => true
  | number v, number w => v == w
  | top, top => true
  | _, _ => false

instance : BEq (Level α) := ⟨beq⟩

/-- A level is ordered when it is an end or a number. -/
def IsNumber (a : Level α) : Prop := a ≤ a

end Level

end Milp
