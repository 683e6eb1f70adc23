import Milp.Proofs.Number.Bits
/-!
# The order of all levels

Numeric order says nothing about a value that is no number. The order that a
frontier is sorted by has a place for every value (`Scalar.Ranked`), and on
proper levels, where an infinite value counts as an outcome and never as a
number, it does not contradict the numeric order. For doubles the two orders
differ in the zeros, whose places differ although their ranks do not.
-/

namespace Milp

/-- **A proper level** is ordered, and its number, if it has one, is not an
outcome in disguise. -/
structure Level.IsProper {α : Type} [Scalar α] (a : Level α) : Prop where
  /-- The level is ordered. -/
  isNumber : a.IsNumber
  /-- A number stands for itself. -/
  level_eq : ∀ v, a = .number v → Scalar.level v = a

/-- **An order in which every level has a place**, as the numeric order has
it where that says something. -/
class Scalar.Ranked (α : Type) [Scalar α] : Prop extends Scalar.Ordered α where
  /-- The order of all levels is total and transitive. -/
  transCmp : Std.TransCmp (Scalar.order : Level α → Level α → Ordering)
  /-- Of two proper levels the one with the lower place is not above. -/
  le_of_isLE : ∀ {a b : Level α}, a.IsProper → b.IsProper →
    (Scalar.order a b).isLE = true → a ≤ b

instance {α : Type} [Scalar α] [Scalar.Ranked α] :
    Std.TransCmp (Scalar.order : Level α → Level α → Ordering) := Scalar.Ranked.transCmp

/-! ## Rational numbers -/

/-- **Levels are ordered as their numbers are.** -/
theorem Level.transCmp_orderBy {α : Type} (order : α → α → Ordering) [Std.TransCmp order] :
    Std.TransCmp (Level.orderBy order) where
  eq_swap {a b} := by
    cases a with
    | number v =>
      cases b with
      | number w => exact @Std.OrientedCmp.eq_swap _ order _ v w
      | _ => rfl
    | _ => cases b <;> rfl
  isLE_trans {a b c} hab hbc := by
    cases b with
    | bottom =>
      cases a with
      | bottom => exact hbc
      | _ => cases hab
    | number v =>
      cases a with
      | bottom =>
        cases c with
        | bottom => cases hbc
        | _ => rfl
      | number u =>
        cases c with
        | bottom => cases hbc
        | number w => exact @Std.TransCmp.isLE_trans _ order _ u v w hab hbc
        | top => rfl
      | top => cases hab
    | top =>
      cases c with
      | top => exact hab
      | _ => cases hbc

namespace Rational

theorem isLE_order {x y : ℚ} : (order x y).isLE = true ↔ x ≤ y := by
  rw [order]
  split
  · rename_i h
    exact iff_of_true rfl h.le
  · rename_i h
    split
    · rename_i h'
      exact iff_of_false Bool.false_ne_true (not_le.2 h')
    · rename_i h'
      exact iff_of_true rfl (not_lt.1 h')

instance : Std.TransCmp order where
  eq_swap {x y} := by
    rw [order, order]
    rcases lt_trichotomy x y with h | rfl | h
    · rw [if_pos h, if_neg (not_lt_of_gt h), if_pos h]
      rfl
    · rw [if_neg (lt_irrefl x), if_neg (lt_irrefl x)]
      rfl
    · rw [if_neg (not_lt_of_gt h), if_pos h, if_pos h]
      rfl
  isLE_trans hxy hyz := isLE_order.2 ((isLE_order.1 hxy).trans (isLE_order.1 hyz))

end Rational

instance : Scalar.Ranked ℚ where
  transCmp := Level.transCmp_orderBy Rational.order
  le_of_isLE {a b} ha hb h := by
    cases a with
    | bottom => exact Level.bottom_le hb.isNumber
    | number v =>
      cases b with
      | bottom => cases h
      | number w => exact Level.number_le_number.2 (Rational.isLE_order.1 h)
      | top => exact Level.number_le_top.2 (le_refl v)
    | top =>
      cases b with
      | top => exact Level.top_le_top
      | _ => cases h

/-! ## Doubles -/

namespace Double

variable {x y : Double}

theorem toNat_place (x : Double) : x.place.toNat =
    if x.isNegative then 2 ^ 63 - 1 - x.magnitude.toNat else 2 ^ 63 + x.magnitude.toNat := by
  have hlt : x.bits.toNat < 2 ^ 64 := x.bits.toNat_lt
  rw [toNat_magnitude, place, isNegative_eq]
  by_cases hneg : 2 ^ 63 ≤ x.bits.toNat
  · rw [if_pos (decide_eq_true hneg), if_pos (decide_eq_true hneg), UInt64.toNat_not]
    have hsize : UInt64.size = 2 ^ 64 := rfl
    omega
  · have hor : x.bits.toNat ||| signBit.toNat = 2 ^ 63 + x.bits.toNat := by
      rw [Nat.or_comm]
      exact (Nat.two_pow_add_eq_or_of_lt (Nat.not_le.1 hneg) 1).symm
    rw [if_neg (by simpa using hneg), if_neg (by simpa using hneg), UInt64.toNat_or, hor]
    omega

/-- **Places are in the order of the ranks.** -/
theorem rank_le_of_place_le (h : x.place ≤ y.place) : x.rank ≤ y.rank := by
  have hx := magnitude_lt x
  have hy := magnitude_lt y
  rw [UInt64.le_iff_toNat_le, toNat_place, toNat_place] at h
  rw [UInt64.le_iff_toNat_le, toNat_rank, toNat_rank]
  cases hx : x.isNegative <;> cases hy : y.isNegative <;>
    simp only [hx, hy, Bool.false_eq_true, if_false, if_true] at h ⊢ <;> omega

/-- The number of a proper level is finite. -/
theorem finite_of_isProper (h : (Level.number x).IsProper) :
    x.magnitude.toNat < infinityBits.toNat := by
  have hnum : x ≤ x := Level.number_le_number.1 h.isNumber
  have hle := isNaN_eq_false_iff.1 (le_iff.1 hnum).1
  refine lt_of_le_of_ne hle fun heq => ?_
  -- an infinity stands for an outcome
  have hinf : x.isInfinite = true := beq_iff_eq.2 (UInt64.toNat_inj.1 heq)
  have hlevel : x.level = .number x := h.level_eq x rfl
  rw [level, if_pos hinf] at hlevel
  split at hlevel <;> cases hlevel

/-- **The level of a double is proper** when the double is a number. -/
theorem isProper_level_iff : (level x).IsProper ↔ x.isNaN = false := by
  unfold level
  split
  · rename_i hinf
    refine iff_of_true ?_ (isNaN_eq_false_iff.2 (beq_iff_eq.1 hinf ▸ Nat.le_refl _))
    split
    · exact ⟨Level.bottom_le_bottom, nofun⟩
    · exact ⟨Level.top_le_top, nofun⟩
  · rename_i hfin
    constructor
    · intro h
      have hnum : x ≤ x := Level.number_le_number.1 h.isNumber
      exact (le_iff.1 hnum).1
    · intro h
      refine ⟨Level.number_le_number.2 (le_iff.2 ⟨h, h, UInt64.le_refl _⟩), fun v hv => ?_⟩
      cases hv
      exact if_neg hfin

/-- Finite numbers are between the infinities. -/
theorem place_between (h : x.magnitude.toNat < infinityBits.toNat) :
    minusInfinity.place < x.place ∧ x.place < infinity.place := by
  have hminus : minusInfinity.place.toNat = 2 ^ 63 - 1 - infinityBits.toNat := rfl
  have hplus : infinity.place.toNat = 2 ^ 63 + infinityBits.toNat := rfl
  have hinf : infinityBits.toNat < 2 ^ 63 := by decide
  rw [UInt64.lt_iff_toNat_lt, UInt64.lt_iff_toNat_lt, hminus, hplus, toNat_place]
  cases x.isNegative <;> simp only [Bool.false_eq_true, if_false, if_true] <;> omega

theorem isLE_order {a b : Level Double} :
    (Scalar.order a b).isLE = true ↔ (ofLevel a).place ≤ (ofLevel b).place := by
  show (compare (ofLevel a).place (ofLevel b).place).isLE = true ↔ _
  exact Std.isLE_compare

end Double

instance : Scalar.Ranked Double where
  transCmp := inferInstanceAs (Std.TransCmp (compareOn fun a => (Double.ofLevel a).place))
  le_of_isLE {a b} ha hb h := by
    rw [Double.isLE_order] at h
    cases a with
    | bottom => exact Level.bottom_le hb.isNumber
    | number v =>
      cases b with
      | bottom =>
        exact absurd (Double.place_between (Double.finite_of_isProper ha)).1 (UInt64.not_lt.2 h)
      | number w =>
        have hv := Double.le_iff.1 (Level.number_le_number.1 ha.isNumber)
        have hw := Double.le_iff.1 (Level.number_le_number.1 hb.isNumber)
        exact Level.number_le_number.2
          (Double.le_iff.2 ⟨hv.1, hw.1, Double.rank_le_of_place_le h⟩)
      | top => exact Level.number_le_top.2 (Level.number_le_number.1 ha.isNumber)
    | top =>
      cases b with
      | bottom => exact absurd h (by decide)
      | number w =>
        exact absurd (Double.place_between (Double.finite_of_isProper hb)).2 (UInt64.not_lt.2 h)
      | top => exact Level.top_le_top

end Milp
