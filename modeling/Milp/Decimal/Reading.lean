import Milp.Number.Double
/-!
# Reading decimals

The text of a double: an optional sign, then `inf`, `infinity` or `nan` in
any case, or digits with an optional point and an optional exponent. There
is at least one digit before the exponent and none may be missing in it. The
result is the double nearest to the decimal.
-/

namespace Milp

namespace Decimal

/-- Whether a character is one of the ten digits. -/
def isDigit (c : Char) : Bool := '0' ≤ c && c ≤ '9'

/-- The value of a digit. -/
def digitValue (c : Char) : Nat := c.toNat - '0'.toNat

/-- The natural number that digits stand for. -/
def natural (digits : List Char) : Nat :=
  digits.foldl (fun n c => 10 * n + digitValue c) 0

/-- Digits read off the front, and the rest. -/
def spanDigits (cs : List Char) : List Char × List Char :=
  (cs.takeWhile isDigit, cs.dropWhile isDigit)

/-- The double nearest to `digits * 10 ^ exponent`. Exponents that are out
of reach of doubles are not worked out. -/
def nearest (digits : List Char) (exponent : Int) : Double :=
  let n := natural digits
  let size := ((Nat.toDigits 10 n).length : Int) + exponent
  if n = 0 then 0
  else if 400 < size then Double.infinity
  else if size < -400 then 0
  else if 0 ≤ exponent then .ofFloat (Float.ofScientific n false exponent.toNat)
  else .ofFloat (Float.ofScientific n true (-exponent).toNat)

/-- An exponent with its mark, or nothing: its value. -/
def exponent? : List Char → Option Int
  | [] => some 0
  | mark :: rest =>
    if mark = 'e' ∨ mark = 'E' then
      let (negative, digits) := match rest with
        | '-' :: ds => (true, ds)
        | '+' :: ds => (false, ds)
        | ds => (false, ds)
      if digits.isEmpty || !digits.all isDigit then none
      else
        let n : Int := natural digits
        some (if negative then -n else n)
    else none

/-- A magnitude in digits. -/
def magnitude? (cs : List Char) : Option Double :=
  let (whole, rest) := spanDigits cs
  let (fraction, rest) := match rest with
    | '.' :: after => spanDigits after
    | _ => ([], rest)
  if whole.isEmpty && fraction.isEmpty then none
  else (exponent? rest).map fun e => nearest (whole ++ fraction) (e - fraction.length)

/-- A magnitude in digits or in letters. -/
def unsigned? (cs : List Char) : Option Double :=
  let lower := cs.map Char.toLower
  if lower = "inf".toList ∨ lower = "infinity".toList then some Double.infinity
  else if lower = "nan".toList then some Double.nan
  else magnitude? cs

/-- **The double that a text stands for**, if it stands for one. -/
def double? (text : String) : Option Double :=
  match text.toList with
  | '-' :: rest => (unsigned? rest).map fun x => -x
  | '+' :: rest => unsigned? rest
  | cs => unsigned? cs

end Decimal

end Milp
