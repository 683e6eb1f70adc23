import Mathlib.Algebra.BigOperators.Ring.Finset
import Mathlib.Algebra.Order.BigOperators.Group.Finset
import Mathlib.Algebra.Order.Floor.Ring
import Mathlib.Data.List.GetD
import Mathlib.Data.Rat.Floor
import Mathlib.Tactic.FieldSimp
import Mathlib.Tactic.Linarith
import Mathlib.Tactic.Ring
import Milp.Number.Rational
/-!
# Exact numbers

The operations of a scalar, read with rational numbers, are those of the
ordered field. Sums of products become `dot`, a linear form whose
coefficients are a list and whose argument is an assignment of values to all
columns; past the end of the list a coefficient counts as zero.
-/

namespace Milp

namespace Scalar

/-! ## The operations -/

/-- The magnitude is the absolute value. -/
theorem abs_rat (x : ℚ) : Scalar.abs x = |x| := by
  show (if x < 0 then -x else x) = |x|
  split
  · rename_i h
    exact (abs_of_neg h).symm
  · rename_i h
    exact (abs_of_nonneg (not_lt.1 h)).symm

/-- The larger of two values is their maximum. -/
theorem greater_rat (x y : ℚ) : Scalar.greater x y = max x y := by
  show (if x < y then y else x) = max x y
  split
  · rename_i h
    exact (max_eq_right h.le).symm
  · rename_i h
    exact (max_eq_left (not_lt.1 h)).symm

/-- The smaller of two values is their minimum. -/
theorem lesser_rat (x y : ℚ) : Scalar.lesser x y = min x y := by
  show (if y < x then y else x) = min x y
  split
  · rename_i h
    exact (min_eq_right h.le).symm
  · rename_i h
    exact (min_eq_left (not_lt.1 h)).symm

/-- The floor, as a scalar, is that of the ring. -/
theorem floor_rat (x : ℚ) : Scalar.floor x = (⌊x⌋ : ℚ) := rfl

/-- The ceiling, as a scalar, is that of the ring. -/
theorem ceil_rat (x : ℚ) : Scalar.ceil x = (⌈x⌉ : ℚ) := by
  show ((Rat.ceil x : ℤ) : ℚ) = _
  rw [Rat.ceil_eq_neg_floor_neg, ← neg_neg x, Int.ceil_neg, neg_neg]
  rfl

end Scalar

/-- Two lists of one length, combined place by place. Past their end all are
zero. -/
theorem getD_zipWith {f : ℚ → ℚ → ℚ} (hf : f 0 0 = 0) {as bs : List ℚ}
    (h : as.length = bs.length) (j : ℕ) :
    (List.zipWith f as bs).getD j 0 = f (as.getD j 0) (bs.getD j 0) := by
  have hlen : (List.zipWith f as bs).length = as.length := by
    rw [List.length_zipWith, h, Nat.min_self]
  rcases Nat.lt_or_ge j as.length with hj | hj
  · rw [List.getD_eq_getElem _ _ (hlen.symm ▸ hj), List.getElem_zipWith,
      List.getD_eq_getElem _ _ hj, List.getD_eq_getElem _ _ (h ▸ hj)]
  · rw [List.getD_eq_default _ _ (hlen.trans_le hj), List.getD_eq_default _ _ hj,
      List.getD_eq_default _ _ (h ▸ hj), hf]

/-! ## Linear forms -/

/-- The linear form with the given coefficients, at an assignment. -/
def dot : List ℚ → (ℕ → ℚ) → ℚ
  | [], _ => 0
  | a :: as, x => a * x 0 + dot as fun j => x (j + 1)

@[simp] theorem dot_nil (x : ℕ → ℚ) : dot [] x = 0 := rfl

theorem dot_cons (a : ℚ) (as : List ℚ) (x : ℕ → ℚ) :
    dot (a :: as) x = a * x 0 + dot as fun j => x (j + 1) := rfl

/-- A linear form is the sum of its terms. -/
theorem dot_eq_sum (as : List ℚ) (x : ℕ → ℚ) :
    dot as x = ∑ j ∈ Finset.range as.length, as.getD j 0 * x j := by
  induction as generalizing x with
  | nil => simp
  | cons a as ih =>
    rw [dot_cons, ih, List.length_cons, Finset.sum_range_succ', add_comm]
    simp

/-- Only the values in the columns of the form count. -/
theorem dot_congr {as : List ℚ} {x y : ℕ → ℚ} (h : ∀ j < as.length, x j = y j) :
    dot as x = dot as y := by
  rw [dot_eq_sum, dot_eq_sum]
  refine Finset.sum_congr rfl fun j hj => ?_
  rw [h j (Finset.mem_range.1 hj)]

/-- A form that meets a nonzero value only in column `c` is one term. -/
theorem dot_eq_single {as : List ℚ} {x : ℕ → ℚ} {c : ℕ} (hc : c < as.length)
    (h : ∀ j < as.length, j ≠ c → as.getD j 0 * x j = 0) : dot as x = as.getD c 0 * x c := by
  rw [dot_eq_sum]
  exact Finset.sum_eq_single_of_mem c (Finset.mem_range.2 hc)
    fun j hj hjc => h j (Finset.mem_range.1 hj) hjc

/-- A form of nonnegative terms is nonnegative. -/
theorem dot_nonneg {as : List ℚ} {x : ℕ → ℚ} (h : ∀ j < as.length, 0 ≤ as.getD j 0 * x j) :
    0 ≤ dot as x := by
  rw [dot_eq_sum]
  exact Finset.sum_nonneg fun j hj => h j (Finset.mem_range.1 hj)

theorem dot_add (as : List ℚ) (x y : ℕ → ℚ) :
    dot as (fun j => x j + y j) = dot as x + dot as y := by
  simp only [dot_eq_sum, mul_add, Finset.sum_add_distrib]

theorem dot_smul (as : List ℚ) (c : ℚ) (x : ℕ → ℚ) :
    dot as (fun j => c * x j) = c * dot as x := by
  simp only [dot_eq_sum, Finset.mul_sum, mul_left_comm]

/-- The values that a joined form reads past the first list are shifted. -/
theorem dot_append (as bs : List ℚ) (x : ℕ → ℚ) :
    dot (as ++ bs) x = dot as x + dot bs fun j => x (as.length + j) := by
  induction as generalizing x with
  | nil => simp
  | cons a as ih =>
    rw [List.cons_append, dot_cons, dot_cons, ih, add_assoc]
    simp only [List.length_cons, Nat.add_right_comm]

theorem dot_map_mul (c : ℚ) (as : List ℚ) (x : ℕ → ℚ) :
    dot (as.map (c * ·)) x = c * dot as x := by
  induction as generalizing x with
  | nil => simp
  | cons a as ih =>
    rw [List.map_cons, dot_cons, dot_cons, ih]
    ring

theorem dot_map_div (c : ℚ) (as : List ℚ) (x : ℕ → ℚ) :
    dot (as.map (· / c)) x = dot as x / c := by
  induction as generalizing x with
  | nil => simp
  | cons a as ih =>
    rw [List.map_cons, dot_cons, dot_cons, ih]
    ring

/-- A form minus a multiple of another one of the same length. -/
theorem dot_zipWith_sub_mul {as bs : List ℚ} (c : ℚ) (x : ℕ → ℚ) (h : as.length = bs.length) :
    dot (List.zipWith (fun a b => a - c * b) as bs) x = dot as x - c * dot bs x := by
  induction as generalizing bs x with
  | nil =>
    cases bs with
    | nil => simp
    | cons b bs => simp at h
  | cons a as ih =>
    cases bs with
    | nil => simp at h
    | cons b bs =>
      rw [List.zipWith_cons_cons, dot_cons, dot_cons, dot_cons, ih _ (Nat.succ.inj h)]
      ring

theorem dot_replicate_zero (n : ℕ) (x : ℕ → ℚ) : dot (List.replicate n 0) x = 0 := by
  rw [dot_eq_sum]
  refine Finset.sum_eq_zero fun j _ => ?_
  rw [List.getD_eq_getElem?_getD, List.getElem?_getD_replicate_default_eq, zero_mul]

/-- The entries of a list that is zero but for one place. -/
theorem getD_unitList {n i : ℕ} (hi : i < n) (c : ℚ) (j : ℕ) :
    (Scalar.unitList n i c).getD j 0 = if j = i then c else 0 := by
  rw [Scalar.unitList, List.getD_eq_getElem?_getD, List.getElem?_set]
  by_cases hij : j = i
  · subst hij
    simp [hi]
  · rw [if_neg (Ne.symm hij), if_neg hij]
    exact List.getElem?_getD_replicate_default_eq 0 n j

theorem dot_unitList {n i : ℕ} (hi : i < n) (c : ℚ) (x : ℕ → ℚ) :
    dot (Scalar.unitList n i c) x = c * x i := by
  rw [dot_eq_single (c := i) (by simpa using hi), getD_unitList hi, if_pos rfl]
  intro j _ hj
  rw [getD_unitList hi, if_neg hj, zero_mul]

namespace Scalar

/-- A sum is the sum of the list. -/
theorem sum_rat (as : List ℚ) : Scalar.sum as = as.sum := by
  have key : ∀ (as : List ℚ) (s : ℚ), as.foldl (· + ·) s = s + as.sum := by
    intro as
    induction as with
    | nil => simp
    | cons a as ih =>
      intro s
      rw [List.foldl_cons, ih, List.sum_cons, add_assoc]
  show as.foldl (· + ·) (-0 : ℚ) = as.sum
  rw [key, neg_zero, zero_add]

/-- The sum of products of two lists is the form of the first at the second. -/
theorem sumProducts_rat (as bs : List ℚ) :
    Scalar.sumProducts as bs = dot as fun j => bs.getD j 0 := by
  rw [Scalar.sumProducts, sum_rat]
  induction as generalizing bs with
  | nil => simp
  | cons a as ih =>
    cases bs with
    | nil =>
      rw [dot_eq_sum]
      simp
    | cons b bs =>
      rw [List.zipWith_cons_cons, List.sum_cons, ih, dot_cons]
      rfl

end Scalar

end Milp
