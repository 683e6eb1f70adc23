import Milp.Number.Scalar
/-!
# Doubles

Doubles are the scalars that run. A `Double` is its 64 bits, so that
equality tells apart everything that a double can hold: the two zeros, and
the values that are no number, which differ in their sign and their payload.
Values that are only moved keep their bits.

Doubles are compared on their bits. The `rank` of a double is its place
among the numbers, where the two zeros have one place; the `place` is that
among all values, where no two share one. Arithmetic is that of `Float`, and
a value that is no number goes through it.
-/

namespace Milp

/-- A double, by its bits: a sign, eleven bits of exponent and fifty-two of
fraction. -/
structure Double where
  /-- The bits. -/
  bits : UInt64
deriving Repr

namespace Double

/-- Doubles with the same bits are the same. -/
theorem eq_of_bits_eq : ∀ {x y : Double}, x.bits = y.bits → x = y
  | ⟨_⟩, ⟨_⟩, rfl => rfl

/-- The native value of a double. -/
def toFloat (x : Double) : Float := Float.ofBits x.bits

/-- The double of a native value. -/
def ofFloat (x : Float) : Double := ⟨x.toBits⟩

/-! ## Parts -/

/-- The highest bit, which is the sign. -/
def signBit : UInt64 := 0x8000000000000000

/-- The bits of infinity: the largest exponent and no fraction. -/
def infinityBits : UInt64 := 0x7ff0000000000000

/-- The highest bit of the fraction, which makes a value quiet that is no
number. -/
def quietBit : UInt64 := 0x0008000000000000

/-- The bits without the sign. They order magnitudes. -/
def magnitude (x : Double) : UInt64 := x.bits &&& 0x7fffffffffffffff

/-- Whether the sign is minus, that of a zero included. -/
def isNegative (x : Double) : Bool := decide (signBit ≤ x.bits)

/-- Whether a double is no number. -/
def isNaN (x : Double) : Bool := decide (infinityBits < x.magnitude)

/-- Whether a double is infinite. -/
def isInfinite (x : Double) : Bool := x.magnitude == infinityBits

/-- **A finite double** is a number and not infinite. -/
def IsFinite (x : Double) : Prop := x.isNaN = false ∧ x.isInfinite = false

instance (x : Double) : Decidable x.IsFinite :=
  inferInstanceAs (Decidable (x.isNaN = false ∧ x.isInfinite = false))

/-- Whether a double is one of the two zeros. -/
def isZero (x : Double) : Bool := x.magnitude == 0

/-- Positive infinity. -/
def infinity : Double := ⟨infinityBits⟩

/-- Negative infinity. -/
def minusInfinity : Double := ⟨infinityBits ||| signBit⟩

/-- What a text means by a value that is no number. -/
def nan : Double := ⟨infinityBits ||| quietBit⟩

/-- What an operation gives that has no result. -/
def invalid : Double := ⟨nan.bits ||| signBit⟩

/-! ## Comparing -/

/-- The place among the numbers. -/
def rank (x : Double) : UInt64 :=
  if x.isNegative then signBit - x.magnitude else signBit + x.magnitude

/-- The place among all values. Negative zero is just below zero, and a
value that is no number is beyond the infinity of its sign. -/
def place (x : Double) : UInt64 :=
  if x.isNegative then ~~~x.bits else x.bits ||| signBit

/-- Whether a double is a number not above another one. -/
def atMost (x y : Double) : Bool := !x.isNaN && !y.isNaN && decide (x.rank ≤ y.rank)

/-- Whether a double is a number below another one. -/
def below (x y : Double) : Bool := !x.isNaN && !y.isNaN && decide (x.rank < y.rank)

/-- Whether two doubles are the same number. -/
def equals (x y : Double) : Bool := !x.isNaN && !y.isNaN && x.rank == y.rank

/-- The smaller of two doubles; of two equal ones the second, and the number
where only one is a number. -/
def lesser (x y : Double) : Double :=
  if x.below y then x else if y.isNaN then x else y

/-- The larger of two doubles; of two equal ones the second, and the number
where only one is a number. -/
def greater (x y : Double) : Double :=
  if y.below x then x else if y.isNaN then x else y

/-! ## Arithmetic -/

/-- The double with the other sign. -/
def negate (x : Double) : Double := ⟨x.bits ^^^ signBit⟩

/-- The double without its sign. -/
def abs (x : Double) : Double := ⟨x.magnitude⟩

/-- A value that is no number, as it comes out of an operation. -/
def quiet (x : Double) : Double := ⟨x.bits ||| quietBit⟩

/-- An operation on two doubles. An operand that is no number is the result,
the first one if both are none. -/
def combine (operation : Float → Float → Float) (x y : Double) : Double :=
  if x.isNaN then x.quiet
  else if y.isNaN then y.quiet
  else
    let result := ofFloat (operation x.toFloat y.toFloat)
    if result.isNaN then invalid else result

/-! ## Rounding to integers

The rounding functions cut the magnitude off after its integer part or go to
the next integer from there. Both are found on the bits: the lowest bits of a
magnitude from one on are its fraction, and the magnitudes below one have the
integer part zero. The sign stays, that of a zero included.
-/

/-- The bits of one. -/
def oneBits : Nat := 0x3ff0000000000000

/-- The bits of one half. -/
def halfBits : Nat := 0x3fe0000000000000

/-- How many of the lowest bits of a magnitude from one on stand for what is
below one. From `2 ^ 52` on there are none. -/
def fractionBits (magnitude : Nat) : Nat := 1075 - magnitude >>> 52

/-- The integer part of a magnitude. -/
def wholePart (magnitude : Nat) : Nat :=
  if magnitude < oneBits then 0
  else magnitude >>> fractionBits magnitude <<< fractionBits magnitude

/-- The integer after the integer part. -/
def nextWhole (magnitude : Nat) : Nat :=
  if magnitude < oneBits then oneBits else wholePart magnitude + 1 <<< fractionBits magnitude

/-- Whether the part that is cut off is a half or more: for a magnitude from
one on its highest bit is set. -/
def isHalfOrMore (magnitude : Nat) : Bool :=
  if magnitude < oneBits then decide (halfBits ≤ magnitude)
  else magnitude.testBit (fractionBits magnitude - 1)

/-- The double with a magnitude and the sign of another one. -/
def withSignOf (x : Double) (magnitude : Nat) : Double :=
  if x.isNegative then negate ⟨UInt64.ofNat magnitude⟩ else ⟨UInt64.ofNat magnitude⟩

/-- A double rounded to an integer: away from zero where `away` says so of
its magnitude, towards zero otherwise. A double that is an integer already,
or none at all, stays as it is. -/
def roundBy (away : Nat → Bool) (x : Double) : Double :=
  let magnitude := x.magnitude.toNat
  if wholePart magnitude = magnitude then x
  else x.withSignOf (if away magnitude then nextWhole magnitude else wholePart magnitude)

/-- The largest integer not above the value. -/
def floor (x : Double) : Double := roundBy (fun _ => x.isNegative) x

/-- The smallest integer not below the value. -/
def ceil (x : Double) : Double := roundBy (fun _ => !x.isNegative) x

/-- The nearest integer, a half going away from zero. -/
def round (x : Double) : Double := roundBy isHalfOrMore x

/-! ## Levels -/

/-- The level a double stands for: the two infinities are the two ends. -/
def level (x : Double) : Level Double :=
  if x.isInfinite then (if x.isNegative then .bottom else .top) else .number x

/-- The double that stands for a level. -/
def ofLevel : Level Double → Double
  | .bottom => minusInfinity
  | .number v => v
  | .top => infinity

/-- The order of all levels is that of the doubles that stand for them. -/
def order (a b : Level Double) : Ordering :=
  compare (ofLevel a).place (ofLevel b).place

end Double

instance : OfScientific Double :=
  ⟨fun mantissa negative exponent => .ofFloat (OfScientific.ofScientific mantissa negative exponent)⟩

instance : Scalar Double where
  zero := ⟨0⟩
  one := ⟨0x3ff0000000000000⟩
  add := Double.combine Float.add
  sub := Double.combine Float.sub
  mul := Double.combine Float.mul
  div := Double.combine Float.div
  neg := Double.negate
  le x y := x.atMost y = true
  lt x y := x.below y = true
  beq := Double.equals
  half := ⟨0x3fe0000000000000⟩
  abs := Double.abs
  floor := Double.floor
  ceil := Double.ceil
  round := Double.round
  lesser := Double.lesser
  greater := Double.greater
  order := Double.order
  same x y := x.bits == y.bits
  level := Double.level
  decLE x y := inferInstanceAs (Decidable (x.atMost y = true))
  decLT x y := inferInstanceAs (Decidable (x.below y = true))
  same_iff _ _ := beq_iff_eq.trans ⟨Double.eq_of_bits_eq, congrArg Double.bits⟩

end Milp
