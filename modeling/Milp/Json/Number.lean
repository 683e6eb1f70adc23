import Milp.Decimal.Layout
import Milp.Decimal.Reading
/-!
# Numbers in JSON texts

A number is an integer of at most 64 bits or a double. How a double is written
and read is a `NumberFormat`. In the format that is used unless another one is
given, a double is written as the shortest decimal. It is read by adding up its
digits as far as 64 bits go; the digits of the whole part that are left over
count as powers of ten, those of the fraction are ignored. The double is the
sum, rounded, times or divided by a power of ten, rounded again.
-/

namespace Milp

namespace Json

open Decimal

/-- Why the text of a number is none. -/
inductive NumberFault where
  /-- The text ends before the number does. -/
  | truncated
  /-- A character does not belong there. -/
  | malformed
  /-- The number is too large for a double. -/
  | outOfRange
deriving DecidableEq, Repr

/-- A number. -/
inductive Number where
  /-- An integer from zero up, below `2 ^ 64`. -/
  | natural (n : Nat)
  /-- Minus an integer from one up to `2 ^ 63`. -/
  | negative (n : Nat)
  /-- A double. -/
  | double (x : Double)
deriving Repr

/-- The parts of the text of a number. -/
structure NumberText where
  /-- Whether there is a minus sign. -/
  negative : Bool
  /-- The digits before the point. -/
  whole : List Char
  /-- The digits after the point, if there is one. -/
  fraction : Option (List Char)
  /-- The sign and the digits of the exponent, if there is one. -/
  exponent : Option (Bool × List Char)
deriving Repr

/-! ## Taking the parts off a text -/

/-- The fault of a text in which a digit is missing before `rest`. -/
def faultBefore (rest : List Char) : NumberFault :=
  if rest.isEmpty then .truncated else .malformed

/-- The digits before the point: one zero, or digits that do not start with
zero. -/
def takeWhole (cs : List Char) : Except NumberFault (List Char × List Char) :=
  match spanDigits cs with
  | ([], rest) => .error (faultBefore rest)
  | ('0' :: _ :: _, _) => .error .malformed
  | (digits, rest) => .ok (digits, rest)

/-- The point and the digits after it, if there is a point. -/
def takeFraction : List Char → Except NumberFault (Option (List Char) × List Char)
  | '.' :: after =>
    match spanDigits after with
    | ([], rest) => .error (faultBefore rest)
    | (digits, rest) => .ok (some digits, rest)
  | cs => .ok (none, cs)

/-- A sign, true for minus, and the rest. -/
def takeSign : List Char → Bool × List Char
  | '-' :: rest => (true, rest)
  | '+' :: rest => (false, rest)
  | rest => (false, rest)

/-- The exponent, if there is one. -/
def takeExponent : List Char → Except NumberFault (Option (Bool × List Char) × List Char)
  | [] => .ok (none, [])
  | c :: after =>
    if c = 'e' ∨ c = 'E' then
      let (negative, unsigned) := takeSign after
      match spanDigits unsigned with
      | ([], rest) => .error (faultBefore rest)
      | (digits, rest) => .ok (some (negative, digits), rest)
    else .ok (none, c :: after)

/-- A number without its sign. -/
def takeUnsigned (negative : Bool) (cs : List Char) :
    Except NumberFault (NumberText × List Char) := do
  let (whole, rest) ← takeWhole cs
  let (fraction, rest) ← takeFraction rest
  let (exponent, rest) ← takeExponent rest
  .ok (⟨negative, whole, fraction, exponent⟩, rest)

/-! ## The rest is shorter -/

/-- Reading digits leaves no more than there was. -/
theorem length_spanDigits (cs : List Char) : (spanDigits cs).2.length ≤ cs.length :=
  (List.dropWhile_sublist _).length_le

/-- Reading digits loses nothing. -/
theorem length_spanDigits_add (cs : List Char) :
    (spanDigits cs).1.length + (spanDigits cs).2.length = cs.length := by
  rw [← List.length_append]
  simp [spanDigits]

/-- A number has a digit before its point. -/
theorem length_of_takeWhole {cs digits rest : List Char}
    (h : takeWhole cs = .ok (digits, rest)) : rest.length < cs.length := by
  have hspan := length_spanDigits_add cs
  unfold takeWhole at h
  split at h
  · cases h
  · cases h
  · next ds r _ hne heq =>
    simp only [Except.ok.injEq, Prod.mk.injEq] at h
    obtain ⟨rfl, rfl⟩ := h
    have hpos : 0 < ds.length := List.length_pos_iff.2 fun hnil => by simp_all
    rw [heq] at hspan
    simp only at hspan
    omega

/-- Taking a fraction off leaves no more than there was. -/
theorem length_of_takeFraction {cs rest : List Char} {fraction : Option (List Char)}
    (h : takeFraction cs = .ok (fraction, rest)) : rest.length ≤ cs.length := by
  unfold takeFraction at h
  split at h
  · next after =>
    have hspan := length_spanDigits after
    split at h
    · cases h
    · next heq =>
      simp only [Except.ok.injEq, Prod.mk.injEq] at h
      rw [heq] at hspan
      rw [← h.2, List.length_cons]
      exact Nat.le_succ_of_le hspan
  · simp only [Except.ok.injEq, Prod.mk.injEq] at h
    exact h.2 ▸ Nat.le_refl _

/-- Taking a sign off leaves no more than there was. -/
theorem length_takeSign (cs : List Char) : (takeSign cs).2.length ≤ cs.length := by
  unfold takeSign
  split <;> simp

/-- Taking an exponent off leaves no more than there was. -/
theorem length_of_takeExponent {cs rest : List Char} {exponent : Option (Bool × List Char)}
    (h : takeExponent cs = .ok (exponent, rest)) : rest.length ≤ cs.length := by
  unfold takeExponent at h
  split at h
  · simp only [Except.ok.injEq, Prod.mk.injEq] at h
    simp [← h.2]
  · next c after =>
    have hsign := length_takeSign after
    have hspan := length_spanDigits (takeSign after).2
    split at h
    · simp only at h
      split at h
      · cases h
      · next heq =>
        simp only [Except.ok.injEq, Prod.mk.injEq] at h
        rw [heq] at hspan
        rw [← h.2, List.length_cons]
        simp only at hspan
        omega
    · simp only [Except.ok.injEq, Prod.mk.injEq] at h
      exact h.2 ▸ Nat.le_refl _

/-- A number takes up a character at least. -/
theorem length_of_takeUnsigned {negative : Bool} {cs rest : List Char} {t : NumberText}
    (h : takeUnsigned negative cs = .ok (t, rest)) : rest.length < cs.length := by
  unfold takeUnsigned at h
  cases hw : takeWhole cs with
  | error e => rw [hw] at h; cases h
  | ok w =>
    rw [hw] at h
    cases hf : takeFraction w.2 with
    | error e => simp only [bind, Except.bind, hf] at h; cases h
    | ok f =>
      simp only [bind, Except.bind, hf] at h
      cases he : takeExponent f.2 with
      | error e => rw [he] at h; cases h
      | ok e =>
        rw [he] at h
        simp only [Except.ok.injEq, Prod.mk.injEq] at h
        have h₁ := length_of_takeWhole hw
        have h₂ := length_of_takeFraction hf
        have h₃ := length_of_takeExponent he
        rw [← h.2]
        omega

/-! ## The value -/

/-- Integers have 64 bits: they are below this. -/
def wordLimit : Nat := Nat.pow 2 64

/-- The largest magnitude of a negative integer. -/
def negativeLimit : Nat := Nat.pow 2 63

/-- Adds digits to a number while it stays in a word; gives the number
and how many digits were added. -/
def addDigits (n : Nat) : List Char → Nat × Nat
  | [] => (n, 0)
  | c :: rest =>
    let more := 10 * n + digitValue c
    if more < wordLimit then
      let (total, count) := addDigits more rest
      (total, count + 1)
    else (n, 0)

/-- The nearest double of an integer below `2 ^ 64`. -/
def ofWord (n : Nat) : Double := .ofFloat (UInt64.ofNat n).toFloat

/-- The largest power of ten below the largest double. -/
def largestPower : Nat := 308

/-- A power of ten up to the largest. -/
def powerOfTen (k : Nat) : Double := .ofFloat (Float.ofScientific 1 false k)

/-- A double divided by a power of ten, in steps where the power is too
large for one. -/
def divideByPower (x : Double) (k : Nat) : Double :=
  if _h : k ≤ largestPower then x / powerOfTen k
  else if x.isZero then x
  else divideByPower (x / powerOfTen largestPower) (k - largestPower)
termination_by k
decreasing_by
  have : largestPower = 308 := rfl
  omega

/-- The double for `n * 10 ^ e`. -/
def scaled (n : Nat) (e : Int) : Except NumberFault Double :=
  if e < 0 then .ok (divideByPower (ofWord n) (-e).toNat)
  else if n = 0 then .ok 0
  else if (largestPower : Int) < e then .error .outOfRange
  else
    let x := ofWord n * powerOfTen e.toNat
    if x.isInfinite then .error .outOfRange else .ok x

/-- The double of a text. -/
def NumberText.double (t : NumberText) : Except NumberFault Double := do
  let (n, count) := addDigits 0 t.whole
  let left := t.whole.length - count
  let (n, places) := match t.fraction with
    | none => (n, 0)
    | some digits => addDigits n digits
  let power : Int := match t.exponent with
    | none => 0
    | some (negative, digits) =>
      if negative then -(natural digits : Int) else (natural digits : Int)
  let x ← scaled n ((left : Int) - places + power)
  .ok (if t.negative then -x else x)

/-! ## Formats -/

/-- Doubles in JSON: an exponent below `10 ^ -5` and from `10 ^ 16` on, with
a sign, and a decimal place otherwise. -/
def numberLayout : Layout where
  tie := .toEven
  positional := some (-5, 16)
  alwaysPlace := true
  plusExponent := true
  nan := "null"
  infinity := "null"
  minusInfinity := "null"

/-- The text of what is no number. -/
def nullChars : List Char := ['n', 'u', 'l', 'l']

/-- **A format of doubles**: how they are written and read. Nothing is asked of
the two together, except that what is not finite is no number when written. -/
class NumberFormat where
  /-- The text of a double. -/
  write : Double → List Char
  /-- A double that is not finite is written as null. -/
  write_of_not_isFinite : ∀ {x : Double}, ¬ x.IsFinite → write x = nullChars
  /-- The double of a text that is not an integer of 64 bits. -/
  read : NumberText → Except NumberFault Double

theorem numberLayout_write_of_not_isFinite {x : Double} (h : ¬ x.IsFinite) :
    numberLayout.write x = nullChars := by
  unfold Layout.write
  cases hnan : x.isNaN with
  | true => rfl
  | false =>
    cases hinf : x.isInfinite with
    | true => cases x.isNegative <;> rfl
    | false => exact absurd ⟨hnan, hinf⟩ h

/-- The format that is used unless another one is given. -/
instance (priority := low) shortestFormat : NumberFormat where
  write := numberLayout.write
  write_of_not_isFinite := numberLayout_write_of_not_isFinite
  read := NumberText.double

/-- **The number of a text.** -/
def NumberText.number [F : NumberFormat] (t : NumberText) : Except NumberFault Number :=
  let (n, count) := addDigits 0 t.whole
  let left := t.whole.length - count
  if left = 0 && t.fraction.isNone && t.exponent.isNone then
    if !t.negative then .ok (.natural n)
    else if n = 0 ∨ negativeLimit < n then .ok (.double (-(ofWord n)))
    else .ok (.negative n)
  else (F.read t).map .double

end Json

end Milp
