import Mathlib.Data.Rat.Floor
import Milp.Number.Double
import Milp.Number.Rational
/-!
# The order of numbers and levels

What a search needs of an order: `Ordered` says it of the numbers of a
scalar type, where a value that is no number is comparable with none. Both
scalars are ordered, doubles by the place of their bits. From there the
order extends to levels, with the two ends below and above all numbers.
-/

namespace Milp

/-- **An order in which values may be no numbers.** -/
class Scalar.Ordered (α : Type) [Scalar α] : Prop where
  /-- The order is transitive. -/
  le_trans : ∀ {a b c : α}, a ≤ b → b ≤ c → a ≤ c
  /-- What is not above something is a number. -/
  isNumber_left : ∀ {a b : α}, a ≤ b → Scalar.IsNumber a
  /-- So is what it is not above. -/
  isNumber_right : ∀ {a b : α}, a ≤ b → Scalar.IsNumber b
  /-- Numbers are comparable. -/
  le_total : ∀ {a b : α}, Scalar.IsNumber a → Scalar.IsNumber b → a ≤ b ∨ b ≤ a
  /-- Those that are not above each other are equal. -/
  beq_of_le_of_le : ∀ {a b : α}, a ≤ b → b ≤ a → (a == b) = true

instance : Scalar.Ordered ℚ where
  le_trans h h' := le_trans (α := ℚ) h h'
  isNumber_left _ := le_refl (α := ℚ) _
  isNumber_right _ := le_refl (α := ℚ) _
  le_total {a b} _ _ := le_total (α := ℚ) a b
  beq_of_le_of_le h h' := decide_eq_true (le_antisymm (α := ℚ) h h')

namespace Double

/-- Doubles are in order when both are numbers and their ranks are. -/
theorem le_iff {x y : Double} :
    x ≤ y ↔ x.isNaN = false ∧ y.isNaN = false ∧ x.rank ≤ y.rank := by
  show x.atMost y = true ↔ _
  simp only [atMost, Bool.and_eq_true, Bool.not_eq_true', decide_eq_true_eq, and_assoc]

end Double

instance : Scalar.Ordered Double where
  le_trans h h' := by
    rw [Double.le_iff] at *
    exact ⟨h.1, h'.2.1, UInt64.le_trans h.2.2 h'.2.2⟩
  isNumber_left h := by
    rw [Double.le_iff] at h
    exact Double.le_iff.2 ⟨h.1, h.1, UInt64.le_refl _⟩
  isNumber_right h := by
    rw [Double.le_iff] at h
    exact Double.le_iff.2 ⟨h.2.1, h.2.1, UInt64.le_refl _⟩
  le_total {x y} h h' := by
    have hx := (Double.le_iff.1 h).1
    have hy := (Double.le_iff.1 h').1
    rw [Double.le_iff, Double.le_iff]
    exact (UInt64.le_total x.rank y.rank).imp (⟨hx, hy, ·⟩) (⟨hy, hx, ·⟩)
  beq_of_le_of_le {x y} h h' := by
    rw [Double.le_iff] at h h'
    have hrank : x.rank = y.rank := UInt64.le_antisymm h.2.2 h'.2.2
    show x.equals y = true
    rw [Double.equals, h.1, h.2.1, hrank, beq_self_eq_true]
    rfl

namespace Level

variable {α : Type} [Scalar α] {a b c : Level α} {v w : α}

@[simp] theorem number_le_number : number v ≤ number w ↔ v ≤ w := decide_eq_true_iff

@[simp] theorem number_le_top : number v ≤ (top : Level α) ↔ Scalar.IsNumber v :=
  decide_eq_true_iff

@[simp] theorem bottom_le_number : (bottom : Level α) ≤ number w ↔ Scalar.IsNumber w :=
  decide_eq_true_iff

@[simp] theorem not_number_le_bottom : ¬ number v ≤ (bottom : Level α) := Bool.false_ne_true

@[simp] theorem not_top_le_number : ¬ (top : Level α) ≤ number w := Bool.false_ne_true

@[simp] theorem not_top_le_bottom : ¬ (top : Level α) ≤ bottom := Bool.false_ne_true

theorem bottom_le_bottom : (bottom : Level α) ≤ bottom := rfl

theorem bottom_le_top : (bottom : Level α) ≤ top := rfl

theorem top_le_top : (top : Level α) ≤ top := rfl

/-- The lowest level is below every level that is ordered. -/
theorem bottom_le (ha : a.IsNumber) : bottom ≤ a := by
  cases a with
  | bottom => exact bottom_le_bottom
  | number v => exact bottom_le_number.2 (number_le_number.1 ha)
  | top => exact bottom_le_top

theorem le_bottom_iff : a ≤ bottom ↔ a = bottom := by
  cases a with
  | bottom => exact iff_of_true bottom_le_bottom rfl
  | number v => exact iff_of_false not_number_le_bottom nofun
  | top => exact iff_of_false not_top_le_bottom nofun

variable [Scalar.Ordered α]

/-- Only ordered levels are below another one. -/
theorem isNumber_left (hab : a ≤ b) : a.IsNumber := by
  cases a with
  | bottom => exact bottom_le_bottom
  | number v =>
    cases b with
    | bottom => exact absurd hab not_number_le_bottom
    | number w => exact number_le_number.2 (Scalar.Ordered.isNumber_left (number_le_number.1 hab))
    | top => exact number_le_number.2 (number_le_top.1 hab)
  | top => exact top_le_top

/-- Or above one. -/
theorem isNumber_right (hab : a ≤ b) : b.IsNumber := by
  cases b with
  | bottom => exact bottom_le_bottom
  | number w =>
    cases a with
    | bottom => exact number_le_number.2 (bottom_le_number.1 hab)
    | number v => exact number_le_number.2 (Scalar.Ordered.isNumber_right (number_le_number.1 hab))
    | top => exact absurd hab not_top_le_number
  | top => exact top_le_top

/-- **The order of levels is transitive.** -/
theorem le_trans (hab : a ≤ b) (hbc : b ≤ c) : a ≤ c := by
  cases b with
  | bottom =>
    rw [le_bottom_iff.1 hab]
    exact hbc
  | number v =>
    cases a with
    | bottom => exact bottom_le (isNumber_right hbc)
    | number u =>
      cases c with
      | bottom => exact absurd hbc not_number_le_bottom
      | number w =>
        exact number_le_number.2
          (Scalar.Ordered.le_trans (number_le_number.1 hab) (number_le_number.1 hbc))
      | top => exact number_le_top.2 (number_le_number.1 (isNumber_left hab))
    | top => exact absurd hab not_top_le_number
  | top =>
    cases c with
    | bottom => exact absurd hbc not_top_le_bottom
    | number w => exact absurd hbc not_top_le_number
    | top => exact hab

/-- **Ordered levels are comparable.** -/
theorem le_total (ha : a.IsNumber) (hb : b.IsNumber) : a ≤ b ∨ b ≤ a := by
  cases a with
  | bottom => exact .inl (bottom_le hb)
  | number v =>
    cases b with
    | bottom => exact .inr (bottom_le ha)
    | number w =>
      rw [number_le_number, number_le_number]
      exact Scalar.Ordered.le_total (number_le_number.1 ha) (number_le_number.1 hb)
    | top => exact .inl (number_le_top.2 (number_le_number.1 ha))
  | top =>
    cases b with
    | bottom => exact .inr bottom_le_top
    | number w => exact .inr (number_le_top.2 (number_le_number.1 hb))
    | top => exact .inl top_le_top

/-- A level that is not below another one is above it. -/
theorem le_of_not_le (ha : a.IsNumber) (hb : b.IsNumber) (h : ¬ a ≤ b) : b ≤ a :=
  (le_total ha hb).resolve_left h

/-- **Levels that are not above each other are numerically equal.** -/
theorem beq_of_le_of_le (hab : a ≤ b) (hba : b ≤ a) : (a == b) = true := by
  cases a with
  | bottom =>
    rw [le_bottom_iff.1 hba]
    rfl
  | number v =>
    cases b with
    | bottom => exact absurd hab not_number_le_bottom
    | number w =>
      exact Scalar.Ordered.beq_of_le_of_le (number_le_number.1 hab) (number_le_number.1 hba)
    | top => exact absurd hba not_top_le_number
  | top =>
    cases b with
    | bottom => exact absurd hab not_top_le_bottom
    | number w => exact absurd hab not_top_le_number
    | top => rfl

/-- A level is below another one when it is not above it, and the other is
above it. -/
instance : LT (Level α) := ⟨fun a b => a ≤ b ∧ ¬ b ≤ a⟩

theorem lt_of_not_le (ha : a.IsNumber) (hb : b.IsNumber) (h : ¬ b ≤ a) : a < b :=
  ⟨le_of_not_le hb ha h, h⟩

theorem lt_trans (hab : a < b) (hbc : b < c) : a < c :=
  ⟨le_trans hab.1 hbc.1, fun hca => hbc.2 (le_trans hca hab.1)⟩

instance : Trans (· < · : Level α → Level α → Prop) (· < ·) (· < ·) := ⟨lt_trans⟩

end Level

end Milp
