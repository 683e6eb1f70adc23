import Milp.Number.Double
/-!
# Shortest decimals

A finite double stands for all reals that round to it. Its shortest decimal
is the one with the fewest digits among them and, of those, the nearest to
the double. Everything here is exact arithmetic on natural numbers: a double
is taken apart into `mantissa * 2 ^ exponent`, and decimals are compared
with the ends of its interval by cross-multiplication.
-/

namespace Milp

namespace Decimal

/-- A positive double, `mantissa * 2 ^ exponent`. -/
structure Dyadic where
  /-- The mantissa. -/
  mantissa : Nat
  /-- The binary exponent. -/
  exponent : Int
  /-- Whether the double below is half as far away as the one above. -/
  narrow : Bool
deriving Repr, DecidableEq

/-- A decimal, `digits * 10 ^ exponent`. -/
structure Digits where
  /-- The digits, as a number. -/
  digits : Nat
  /-- The decimal exponent. -/
  exponent : Int
deriving Repr, DecidableEq

/-- Which of two equally near decimals is taken. -/
inductive Tie where
  /-- The one whose last digit is even. -/
  | toEven
  /-- The larger one. -/
  | up
deriving Repr, DecidableEq

/-- A power of two; negative powers count as one. -/
def twoTo (k : Int) : Nat := Nat.pow 2 k.toNat

/-- A power of ten; negative powers count as one. -/
def tenTo (k : Int) : Nat := Nat.pow 10 k.toNat

/-- The magnitude of a finite double. -/
def Dyadic.ofDouble (x : Double) : Dyadic :=
  let bits : Nat := x.magnitude.toNat
  let biased : Nat := bits / twoTo 52
  let fraction : Nat := bits % twoTo 52
  if biased = 0 then ⟨fraction, -1074, false⟩
  else ⟨twoTo 52 + fraction, (biased : Int) - 1075, fraction == 0 && 1 < biased⟩

/-- The order of `a * 10 ^ i` and `b * 2 ^ j`. -/
def compareScaled (a : Nat) (i : Int) (b : Nat) (j : Int) : Ordering :=
  compare (a * tenTo i * twoTo (-j)) (b * twoTo j * tenTo (-i))

namespace Dyadic

/-- Four times the mantissa of the lower end of the interval. -/
def lower (x : Dyadic) : Nat := if x.narrow then 4 * x.mantissa - 1 else 4 * x.mantissa - 2

/-- Four times the mantissa of the upper end of the interval. -/
def upper (x : Dyadic) : Nat := 4 * x.mantissa + 2

/-- **Whether a decimal rounds to a double.** The interval contains its ends
when the mantissa is even. -/
def contains (x : Dyadic) (d : Digits) : Bool :=
  let ends := x.mantissa % 2 == 0
  let low := compareScaled d.digits d.exponent x.lower (x.exponent - 2)
  let high := compareScaled d.digits d.exponent x.upper (x.exponent - 2)
  (low == .gt || (ends && low == .eq)) && (high == .lt || (ends && high == .eq))

/-- The number of multiples of `10 ^ k` up to a double, zero not counted. -/
def floorAt (x : Dyadic) (k : Int) : Nat :=
  (x.mantissa * twoTo x.exponent * tenTo (-k)) / (twoTo (-x.exponent) * tenTo k)

/-- Decimal places enough to see a digit of every positive double. -/
def deepest : Nat := 350

/-- The least `k` for which a double is below `10 ^ k`. -/
def scale (x : Dyadic) : Int :=
  ((Nat.toDigits 10 (x.floorAt (-(deepest : Int)))).length : Int) - deepest

/-- Of two neighbouring multiples of `10 ^ k`, the one that is nearer. -/
def nearer (x : Dyadic) (tie : Tie) (k : Int) (d : Nat) : Nat :=
  match compareScaled (2 * d + 1) k x.mantissa (x.exponent + 1) with
  | .gt => d
  | .lt => d + 1
  | .eq => match tie with
    | .up => d + 1
    | .toEven => if d % 2 = 0 then d else d + 1

/-- The multiple of `10 ^ k` that rounds to a double, the nearer of its two
neighbours when both do. -/
def onGrid? (x : Dyadic) (tie : Tie) (k : Int) : Option Digits :=
  let d := x.floorAt k
  match x.contains ⟨d, k⟩, x.contains ⟨d + 1, k⟩ with
  | true, true => some ⟨x.nearer tie k d, k⟩
  | true, false => some ⟨d, k⟩
  | false, true => some ⟨d + 1, k⟩
  | false, false => none

/-- The exact decimal value of a double. -/
def exact (x : Dyadic) : Digits :=
  if 0 ≤ x.exponent then ⟨x.mantissa * twoTo x.exponent, 0⟩
  else ⟨x.mantissa * Nat.pow 5 (-x.exponent).toNat, x.exponent⟩

end Dyadic

/-- A decimal with its trailing zeros in the exponent. -/
def Digits.strip (d : Digits) : Digits :=
  if h : d.digits ≠ 0 ∧ d.digits % 10 = 0 then
    strip ⟨d.digits / 10, d.exponent + 1⟩
  else d
termination_by d.digits
decreasing_by omega

/-- **The shortest decimal of a positive double**: the coarsest grid on
which a neighbour of the double rounds to it decides the number of digits,
and seventeen digits are always enough. -/
def shortest (tie : Tie) (x : Dyadic) : Digits :=
  let scale := x.scale
  let found := (List.range 17).findSome? fun n => x.onGrid? tie (scale - (n + 1 : Nat))
  (found.getD x.exact).strip

end Decimal

end Milp
