import Mathlib.Data.Nat.Log
import Milp.Proofs.Number.Bits
/-!
# The nearest magnitude

A sum of doubles is found exactly, as a number of units, and then written as
the magnitude that is `nearest` to it, of two equally near ones the even one.
The magnitudes with one exponent are evenly spaced, so this rounds a quotient
by a power of two (`roundedQuotient`). Rounding keeps the order
(`nearest_mono`), and a magnitude is nearest to its own units
(`nearest_units`).
-/

namespace Milp

namespace Double

variable {m n k q : ℕ}

/-! ## Quotients -/

/-- A quotient by `2 ^ k` rounded to the nearest integer, a half going to the
even one. -/
def roundedQuotient (n k : ℕ) : ℕ :=
  if 2 * (n % 2 ^ k) < 2 ^ k then n / 2 ^ k
  else if 2 * (n % 2 ^ k) = 2 ^ k then n / 2 ^ k + n / 2 ^ k % 2
  else n / 2 ^ k + 1

/-- It is the integer below the quotient, or the next one. -/
theorem roundedQuotient_bounds (n k : ℕ) :
    n / 2 ^ k ≤ roundedQuotient n k ∧ roundedQuotient n k ≤ n / 2 ^ k + 1 := by
  unfold roundedQuotient
  split
  · omega
  · split <;> omega

theorem roundedQuotient_mono (k : ℕ) : Monotone (roundedQuotient · k) := by
  intro n n' h
  have hdiv : n / 2 ^ k ≤ n' / 2 ^ k := Nat.div_le_div_right h
  rcases Nat.lt_or_eq_of_le hdiv with hlt | heq
  · exact (roundedQuotient_bounds n k).2.trans
      ((Nat.succ_le_of_lt hlt).trans (roundedQuotient_bounds n' k).1)
  · -- with one quotient the remainders are in order
    have hmod : n % 2 ^ k ≤ n' % 2 ^ k := by
      have hn := Nat.div_add_mod n (2 ^ k)
      have hn' := Nat.div_add_mod n' (2 ^ k)
      rw [← heq] at hn'
      omega
    simp only [roundedQuotient, heq]
    split_ifs <;> omega

/-- A quotient that is an integer stays. -/
theorem roundedQuotient_mul (q k : ℕ) : roundedQuotient (q * 2 ^ k) k = q := by
  have hpos := Nat.two_pow_pos k
  rw [roundedQuotient, Nat.mul_mod_left, if_pos (by omega), Nat.mul_div_cancel _ hpos]

/-- Nor does a quotient change when both sides are scaled. -/
theorem roundedQuotient_scale (n k a : ℕ) :
    roundedQuotient (n * 2 ^ a) (k + a) = roundedQuotient n k := by
  have hpos := Nat.two_pow_pos a
  have hlt : 2 * (n % 2 ^ k * 2 ^ a) < 2 ^ k * 2 ^ a ↔ 2 * (n % 2 ^ k) < 2 ^ k := by
    rw [← Nat.mul_assoc, Nat.mul_lt_mul_right hpos]
  have heq : 2 * (n % 2 ^ k * 2 ^ a) = 2 ^ k * 2 ^ a ↔ 2 * (n % 2 ^ k) = 2 ^ k := by
    rw [← Nat.mul_assoc, Nat.mul_left_inj hpos.ne']
  simp only [roundedQuotient, pow_add, Nat.mul_mod_mul_right, Nat.mul_div_mul_right _ _ hpos, hlt,
    heq]

/-! ## Magnitudes -/

/-- The binary logarithm of the distance between the magnitudes around a
number of units. -/
def spacing (n : ℕ) : ℕ := n.log2 - 52

/-- The magnitude nearest to a number of units, without a bound on the
exponent. -/
def nearest (n : ℕ) : ℕ := spacing n * 2 ^ 52 + roundedQuotient n (spacing n)

theorem lt_two_pow_spacing (n : ℕ) : n < 2 ^ 53 * 2 ^ spacing n := by
  rw [← pow_add]
  refine Nat.lt_log2_self.trans_le (Nat.pow_le_pow_right (by decide) ?_)
  unfold spacing
  omega

theorem two_pow_spacing_le (h : 0 < spacing n) : 2 ^ 52 * 2 ^ spacing n ≤ n := by
  have hn : n ≠ 0 := by
    rintro rfl
    exact absurd h (by decide)
  rw [← pow_add]
  refine le_trans (Nat.pow_le_pow_right (by decide) ?_) (Nat.log2_self_le hn)
  unfold spacing at *
  omega

/-- The spacing of a number of units between two powers of two. -/
theorem spacing_eq (hlo : 2 ^ 52 * 2 ^ k ≤ n) (hhi : n < 2 ^ 53 * 2 ^ k) : spacing n = k := by
  rw [← pow_add] at hlo hhi
  have hn : n ≠ 0 := by
    have := Nat.two_pow_pos (52 + k)
    omega
  have hlog : n.log2 = 52 + k := (Nat.log2_eq_iff hn).2 ⟨hlo, hhi.trans_eq (by ring)⟩
  rw [spacing, hlog, Nat.add_sub_cancel_left]

theorem roundedQuotient_le (n : ℕ) : roundedQuotient n (spacing n) ≤ 2 ^ 53 := by
  rw [← roundedQuotient_mul (2 ^ 53) (spacing n)]
  exact roundedQuotient_mono _ (lt_two_pow_spacing n).le

theorem le_roundedQuotient (h : 0 < spacing n) : 2 ^ 52 ≤ roundedQuotient n (spacing n) := by
  rw [← roundedQuotient_mul (2 ^ 52) (spacing n)]
  exact roundedQuotient_mono _ (two_pow_spacing_le h)

/-- **The nearest magnitude keeps the order.** -/
theorem nearest_mono : Monotone nearest := by
  intro n n' h
  have hspacing : spacing n ≤ spacing n' := by
    unfold spacing
    rw [Nat.log2_eq_log_two, Nat.log2_eq_log_two]
    exact Nat.sub_le_sub_right (Nat.log_mono_right h) 52
  unfold nearest
  rcases Nat.lt_or_eq_of_le hspacing with hlt | heq
  · -- the magnitudes with one exponent end where those with the next one begin
    have hle := roundedQuotient_le n
    have hge := le_roundedQuotient (Nat.zero_lt_of_lt hlt)
    omega
  · rw [← heq]
    exact Nat.add_le_add_left (roundedQuotient_mono _ h) _

/-- **A magnitude is nearest to its own units.** -/
theorem nearest_units (m : ℕ) : nearest (units m) = m := by
  by_cases hsmall : m < 2 ^ 52
  · have hunits : units m = m := if_pos hsmall
    have hspacing : spacing m = 0 := by
      rcases Nat.eq_zero_or_pos (spacing m) with hzero | hpos
      · exact hzero
      · have := two_pow_spacing_le hpos
        have := Nat.two_pow_pos (spacing m)
        nlinarith
    rw [hunits, nearest, hspacing, Nat.zero_mul, Nat.zero_add]
    simpa using roundedQuotient_mul m 0
  · have hunits : units m = (2 ^ 52 + m % 2 ^ 52) * 2 ^ (m / 2 ^ 52 - 1) := if_neg hsmall
    have hspacing : spacing (units m) = m / 2 ^ 52 - 1 := by
      refine spacing_eq ?_ ?_
      · rw [hunits]
        exact Nat.mul_le_mul_right _ (Nat.le_add_right _ _)
      · rw [hunits]
        exact Nat.mul_lt_mul_of_pos_right (by omega) (Nat.two_pow_pos _)
    rw [nearest, hspacing, hunits, roundedQuotient_mul]
    omega

end Double

end Milp
