import Milp.Proofs.Number.Difference
import Milp.Proofs.Number.Exact
/-!
# Rounding

What branching needs of numbers. `Rounding` is about numbers, infinite ones
among them: rounding and changing the sign keep them numbers, and the lesser
of two is below both. `Valued` is about the finite ones, which have a
rational value: floor and ceiling are those of the value, and a value that is
an integer is no distance away from its rounding. Both scalars have both.
-/

namespace Milp

namespace Scalar

/-- **Numbers that can be rounded.** -/
class Rounding (α : Type) [Scalar α] : Prop extends Ordered α where
  /-- The floor of a number is a number. -/
  isNumber_floor : ∀ {v : α}, IsNumber v → IsNumber (Scalar.floor v)
  /-- So is its ceiling. -/
  isNumber_ceil : ∀ {v : α}, IsNumber v → IsNumber (Scalar.ceil v)
  /-- The sign changes back. -/
  neg_neg : ∀ v : α, -(-v) = v
  /-- Changing the sign turns the order around. -/
  neg_le_neg : ∀ {a b : α}, a ≤ b → -b ≤ -a
  /-- The lesser of two numbers is below both. -/
  lesser_le : ∀ {a b : α}, IsNumber a → IsNumber b → lesser a b ≤ a ∧ lesser a b ≤ b

/-- **Numbers with a rational value**, unless they are infinite. -/
class Valued (α : Type) [Scalar α] extends Rounding α where
  /-- The value of a finite number. -/
  value? : α → Option ℚ
  /-- Finite numbers are in the order of their values. -/
  le_iff : ∀ {a b : α} {x y : ℚ}, value? a = some x → value? b = some y → (a ≤ b ↔ x ≤ y)
  /-- The value of zero. -/
  value?_zero : value? 0 = some 0
  /-- The value with the other sign. -/
  value?_neg : ∀ {a : α} {x : ℚ}, value? a = some x → value? (-a) = some (-x)
  /-- The floor is that of the value. -/
  value?_floor : ∀ {a : α} {x : ℚ}, value? a = some x → value? (Scalar.floor a) = some (⌊x⌋ : ℚ)
  /-- The ceiling is that of the value. -/
  value?_ceil : ∀ {a : α} {x : ℚ}, value? a = some x → value? (Scalar.ceil a) = some (⌈x⌉ : ℚ)
  /-- An integer is no distance away from its rounding. -/
  abs_sub_round : ∀ {a : α} {k : ℤ}, value? a = some (k : ℚ) → Scalar.abs (a - Scalar.round a) = 0

theorem isNumber_of_value? {α : Type} [Scalar α] [Valued α] {a : α} {x : ℚ}
    (h : Valued.value? a = some x) : IsNumber a :=
  (Valued.le_iff h h).2 le_rfl

end Scalar

/-! ## Rational numbers -/

instance : Scalar.Rounding ℚ where
  isNumber_floor _ := le_refl (α := ℚ) _
  isNumber_ceil _ := le_refl (α := ℚ) _
  neg_neg := neg_neg
  neg_le_neg h := neg_le_neg (α := ℚ) h
  lesser_le {a b} _ _ := by
    rw [Scalar.lesser_rat]
    exact ⟨min_le_left a b, min_le_right a b⟩

/-- An integer is its own rounding. -/
theorem Rational.round_intCast (k : ℤ) : Rational.round k = k := by
  have hfloor : ∀ l : ℤ, Rat.floor (l + 1 / 2) = l := by
    intro l
    have hhalf : ⌊(l : ℚ) + 1 / 2⌋ = l := by
      rw [Int.floor_eq_iff]
      constructor <;> linarith
    exact hhalf
  unfold Rational.round
  split
  · rw [← Int.cast_neg, hfloor, neg_neg]
  · exact hfloor k

instance : Scalar.Valued ℚ where
  value? := some
  le_iff {a b x y} ha hb := by
    cases ha
    cases hb
    exact Iff.rfl
  value?_zero := rfl
  value?_neg {a x} ha := by
    cases ha
    rfl
  value?_floor {a x} ha := by
    cases ha
    rfl
  value?_ceil {a x} ha := by
    cases ha
    rw [Scalar.ceil_rat]
  abs_sub_round {a k} ha := by
    cases ha
    show Scalar.abs ((k : ℚ) - (Rational.round k : ℤ)) = 0
    rw [Rational.round_intCast, sub_self, Scalar.abs_rat, abs_zero]

/-! ## Doubles -/

instance : Scalar.Rounding Double where
  isNumber_floor {v} h := by
    have hnum : v.isNaN = false := (Double.le_iff.1 h).1
    have hfloor : v.floor.isNaN = false := Double.isNaN_roundBy hnum
    exact Double.le_iff.2 ⟨hfloor, hfloor, UInt64.le_refl _⟩
  isNumber_ceil {v} h := by
    have hnum : v.isNaN = false := (Double.le_iff.1 h).1
    have hceil : v.ceil.isNaN = false := Double.isNaN_roundBy hnum
    exact Double.le_iff.2 ⟨hceil, hceil, UInt64.le_refl _⟩
  neg_neg := Double.negate_negate
  neg_le_neg {a b} h := by
    obtain ⟨ha, hb, hle⟩ := Double.le_iff_value.1 h
    refine Double.le_iff_value.2 ⟨?_, ?_, ?_⟩
    · exact (Double.isNaN_negate b).trans hb
    · exact (Double.isNaN_negate a).trans ha
    · have hneg : (b.negate).value ≤ (a.negate).value := by
        rw [Double.value_negate, Double.value_negate]
        linarith
      exact hneg
  lesser_le {a b} ha hb := by
    have hna : a.isNaN = false := (Double.le_iff.1 ha).1
    have hnb : b.isNaN = false := (Double.le_iff.1 hb).1
    show a.lesser b ≤ a ∧ a.lesser b ≤ b
    unfold Double.lesser Double.below
    rw [hna, hnb]
    by_cases hlt : a.rank < b.rank
    · simp only [hlt, decide_true, Bool.not_false, Bool.and_true, if_true]
      exact ⟨ha, Double.le_iff.2 ⟨hna, hnb, UInt64.le_of_lt hlt⟩⟩
    · simp only [hlt, decide_false, Bool.and_false, Bool.false_eq_true, if_false]
      exact ⟨Double.le_iff.2 ⟨hnb, hna, UInt64.not_lt.1 hlt⟩, hb⟩

instance : Scalar.Valued Double where
  value? := Double.value?
  le_iff {a b x y} ha hb := by
    obtain ⟨hfa, rfl⟩ := Double.value?_eq_some_iff.1 ha
    obtain ⟨hfb, rfl⟩ := Double.value?_eq_some_iff.1 hb
    have hna : a.isNaN = false := Double.isNaN_eq_false_iff.2 hfa.le
    have hnb : b.isNaN = false := Double.isNaN_eq_false_iff.2 hfb.le
    rw [Double.le_iff_value]
    exact ⟨fun h => h.2.2, fun h => ⟨hna, hnb, h⟩⟩
  value?_zero := by
    refine Double.value?_eq_some_iff.2 ⟨by decide, ?_⟩
    exact Double.absValue_zero
  value?_neg {a x} ha := by
    obtain ⟨hfa, rfl⟩ := Double.value?_eq_some_iff.1 ha
    refine Double.value?_eq_some_iff.2 ⟨?_, Double.value_negate a⟩
    show a.negate.magnitude.toNat < _
    rwa [Double.magnitude_negate]
  value?_floor := Double.value?_floor
  value?_ceil := Double.value?_ceil
  abs_sub_round {a k} ha := by
    have hround : a.round = a := Double.round_of_int ha
    show (Double.combine Float.sub a a.round).abs = ⟨0⟩
    rw [hround, Double.sub_self (Double.value?_eq_some_iff.1 ha).1]
    rfl

end Milp
