import Milp.Decimal.Shortest
/-!
# Layouts of decimals

How a double is written once its digits are known. A `Layout` holds every
choice of a format; `Layout.write` is the only writer.
-/

namespace Milp

namespace Decimal

/-- The choices of a format for doubles. -/
structure Layout where
  /-- Which of two equally near decimals is written. -/
  tie : Tie
  /-- The powers of ten of the leading digit that are written without an
  exponent, from the first up to the second; all of them if there is none. -/
  positional : Option (Int × Int)
  /-- Whether a number without an exponent always has a decimal place. -/
  alwaysPlace : Bool
  /-- Whether a positive exponent has a sign. -/
  plusExponent : Bool
  /-- The text for what is no number. -/
  nan : String
  /-- The text for infinity. -/
  infinity : String
  /-- The text for negative infinity. -/
  minusInfinity : String

/-- The characters of a natural number. -/
def naturalChars (n : Nat) : List Char := Nat.toDigits 10 n

/-- The characters of an integer. -/
def integerChars (n : Int) : List Char :=
  if n < 0 then '-' :: naturalChars n.natAbs else naturalChars n.natAbs

/-- Some zeros. -/
def zeros (n : Nat) : List Char := List.replicate n '0'

namespace Layout

/-- Whether a leading digit at `10 ^ lead` is written without an exponent. -/
def isPositional (l : Layout) (lead : Int) : Bool :=
  match l.positional with
  | none => true
  | some (low, high) => decide (low ≤ lead) && decide (lead < high)

/-- The place that ends a whole number. -/
def wholeEnd (l : Layout) : List Char := if l.alwaysPlace then ['.', '0'] else []

/-- Digits without an exponent; `lead` is the power of the first one. -/
def positionalChars (l : Layout) (digits : List Char) (lead : Int) : List Char :=
  if lead < 0 then '0' :: '.' :: zeros ((-lead).toNat - 1) ++ digits
  else
    let whole := lead.toNat + 1
    if digits.length ≤ whole then digits ++ zeros (whole - digits.length) ++ l.wholeEnd
    else digits.take whole ++ '.' :: digits.drop whole

/-- Digits with an exponent. -/
def exponentChars (l : Layout) (digits : List Char) (lead : Int) : List Char :=
  let tail := digits.drop 1
  let sign := if l.plusExponent && decide (0 ≤ lead) then ['+'] else []
  digits.take 1 ++ (if tail.isEmpty then [] else '.' :: tail) ++ 'e' :: sign ++ integerChars lead

/-- The magnitude of a finite double. -/
def magnitudeChars (l : Layout) (x : Double) : List Char :=
  if x.isZero then '0' :: l.wholeEnd
  else
    let d := shortest l.tie (Dyadic.ofDouble x)
    let digits := naturalChars d.digits
    let lead := d.exponent + (digits.length : Int) - 1
    if l.isPositional lead then l.positionalChars digits lead
    else l.exponentChars digits lead

/-- **A double in a format.** -/
def write (l : Layout) (x : Double) : List Char :=
  if x.isNaN then l.nan.toList
  else if x.isInfinite then (if x.isNegative then l.minusInfinity else l.infinity).toList
  else if x.isNegative then '-' :: l.magnitudeChars x
  else l.magnitudeChars x

end Layout

/-- Numbers for reading: never an exponent, and no decimal place that is not
needed. -/
def plain : Layout where
  tie := .up
  positional := none
  alwaysPlace := false
  plusExponent := false
  nan := "NaN"
  infinity := "inf"
  minusInfinity := "-inf"

/-- Numbers in a list of values: always with a decimal place, and with an
exponent below a ten-thousandth and from `10 ^ 16` on. -/
def listed : Layout where
  tie := .up
  positional := some (-4, 16)
  alwaysPlace := true
  plusExponent := false
  nan := "NaN"
  infinity := "inf"
  minusInfinity := "-inf"

end Decimal

end Milp
