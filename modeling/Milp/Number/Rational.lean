import Milp.Number.Scalar
/-!
# Rational numbers

Rational numbers are the exact scalars: every definition over a scalar, read
with them, is the method without rounding. Every rational is a number, and
no rational is an infinite level.
-/

namespace Milp

namespace Rational

/-- The nearest integer, a half going away from zero. -/
def round (x : Rat) : Int :=
  if x < 0 then -(Rat.floor (-x + 1 / 2)) else Rat.floor (x + 1 / 2)

/-- The order of rational numbers. -/
def order (x y : Rat) : Ordering := if x < y then .lt else if y < x then .gt else .eq

end Rational

instance : Scalar Rat where
  zero := 0
  one := 1
  add := Rat.add
  sub := Rat.sub
  mul := Rat.mul
  div := Rat.div
  neg := Rat.neg
  le x y := x ≤ y
  lt x y := x < y
  beq x y := decide (x = y)
  half := 1 / 2
  abs x := if x < 0 then -x else x
  floor x := Rat.floor x
  ceil x := Rat.ceil x
  round x := Rational.round x
  lesser x y := if y < x then y else x
  greater x y := if x < y then y else x
  order := Level.orderBy Rational.order
  same x y := decide (x = y)
  level := .number
  decLE x y := inferInstanceAs (Decidable (x ≤ y))
  decLT x y := inferInstanceAs (Decidable (x < y))
  same_iff x y := by simp

end Milp
