import Mathlib.Algebra.Order.Archimedean.Basic
import Milp.Proofs.Problem.Feasible
import Milp.Proofs.Problem.Rows
/-!
# Rows that are added

A row that is added to a problem cuts off the points that do not satisfy it
and no others (`feasible_addRow_iff`), also where it only sharpens a row
that is there already. What is left `Refines` the problem: same objective,
same integer variables, and no new points or directions of recession. An
integer lies on one side of the two bounds that a split adds
(`le_floor_or_ceil_le`).
-/

namespace Milp

/-! ## Rows -/

section Rows

variable {rows : List (Row ℚ)} {coefficients x : List ℚ} {rhs : ℚ}

/-- **An added row is satisfied beside the others.** -/
theorem Row.forall_mem_addTo_iff :
    (∀ r ∈ Row.addTo rows coefficients rhs, r.lhs x ≤ r.rhs) ↔
      (∀ r ∈ rows, r.lhs x ≤ r.rhs) ∧ (⟨coefficients, rhs⟩ : Row ℚ).lhs x ≤ rhs := by
  induction rows with
  | nil => simp [Row.addTo]
  | cons r rows ih =>
    rw [Row.addTo]
    split
    · -- the row is there already and takes the lesser bound
      rename_i hsame
      have hcoef : r.coefficients = coefficients := (Scalar.sameList_iff _ _).1 hsame
      have hlhs : ∀ b, (⟨r.coefficients, b⟩ : Row ℚ).lhs x = r.lhs x := fun _ => rfl
      rw [List.forall_mem_cons, List.forall_mem_cons, hlhs, ← hcoef, hlhs, Scalar.lesser_rat,
        le_min_iff]
      exact and_right_comm
    · rw [List.forall_mem_cons, List.forall_mem_cons, ih, and_assoc]

end Rows

namespace Problem

variable {p q r : Problem ℚ} {x : List ℚ} {j : ℕ} {v : ℚ}

/-! ## Bounds -/

/-- **The points of a problem with a row added.** -/
theorem feasible_addRow_iff {coefficients : List ℚ} {rhs : ℚ}
    (h : coefficients.length = p.numVariables) :
    (p.addRow coefficients rhs h).Feasible x ↔
      p.Feasible x ∧ (⟨coefficients, rhs⟩ : Row ℚ).lhs x ≤ rhs := by
  constructor
  · rintro ⟨hlen, hnonneg, hrows⟩
    obtain ⟨hrows, hrow⟩ := Row.forall_mem_addTo_iff.1 hrows
    exact ⟨⟨hlen, hnonneg, hrows⟩, hrow⟩
  · rintro ⟨⟨hlen, hnonneg, hrows⟩, hrow⟩
    exact ⟨hlen, hnonneg, Row.forall_mem_addTo_iff.2 ⟨hrows, hrow⟩⟩

theorem feasible_bound_iff (hj : j < p.numVariables) (c rhs : ℚ) :
    (p.bound j c rhs).Feasible x ↔ p.Feasible x ∧ c * x.getD j 0 ≤ rhs := by
  rw [bound, feasible_addRow_iff, Row.lhs_eq_value, Row.value, dot_unitList hj]

/-- **An upper bound.** -/
theorem feasible_atMost_iff (hj : j < p.numVariables) :
    (p.atMost j v).Feasible x ↔ p.Feasible x ∧ x.getD j 0 ≤ v := by
  rw [atMost, feasible_bound_iff hj, one_mul]

/-- **A lower bound.** -/
theorem feasible_atLeast_iff (hj : j < p.numVariables) :
    (p.atLeast j v).Feasible x ↔ p.Feasible x ∧ v ≤ x.getD j 0 := by
  rw [atLeast, feasible_bound_iff hj, neg_one_mul, neg_le_neg_iff]

/-! ## Refinement -/

/-- **A problem with more rows.** -/
structure Refines (p q : Problem ℚ) : Prop where
  /-- The objective is the same. -/
  objective_eq : q.objective = p.objective
  /-- So are the integer variables. -/
  integer_eq : q.integer = p.integer
  /-- There are no new points. -/
  feasible : ∀ x, q.Feasible x → p.Feasible x
  /-- Nor new directions of recession. -/
  recedes : ∀ d, q.Recedes d → p.Recedes d

theorem Refines.refl (p : Problem ℚ) : Refines p p := ⟨rfl, rfl, fun _ => id, fun _ => id⟩

theorem Refines.trans (h : Refines p q) (h' : Refines q r) : Refines p r where
  objective_eq := h'.objective_eq.trans h.objective_eq
  integer_eq := h'.integer_eq.trans h.integer_eq
  feasible x hx := h.feasible x (h'.feasible x hx)
  recedes d hd := h.recedes d (h'.recedes d hd)

/-- **Adding a row refines.** -/
theorem refines_addRow (p : Problem ℚ) {coefficients : List ℚ} (rhs : ℚ)
    (h : coefficients.length = p.numVariables) : Refines p (p.addRow coefficients rhs h) where
  objective_eq := rfl
  integer_eq := rfl
  feasible _ hx := ((feasible_addRow_iff h).1 hx).1
  recedes d hd := by
    refine ⟨hd.length_eq, hd.nonneg, fun r hr => ?_⟩
    obtain ⟨s, hs, hcoef, -⟩ := Row.exists_mem_addTo coefficients rhs hr
    have hle := hd.lhs_nonpos s hs
    rwa [Row.lhs, hcoef] at hle

theorem Refines.evaluate_eq (h : Refines p q) (x : List ℚ) : q.evaluate x = p.evaluate x := by
  rw [evaluate, evaluate, h.objective_eq]

theorem Refines.isInteger_eq (h : Refines p q) (j : ℕ) : q.isInteger j = p.isInteger j := by
  rw [isInteger, isInteger, h.integer_eq]

/-! ## Integral points -/

/-- Every variable that has to be an integer is one. -/
def Integral (p : Problem ℚ) (x : List ℚ) : Prop :=
  ∀ j, p.isInteger j = true → ∃ k : ℤ, x.getD j 0 = k

/-- **An integer is on one side of a split.** -/
theorem le_floor_or_ceil_le (k : ℤ) (v : ℚ) : (k : ℚ) ≤ (⌊v⌋ : ℚ) ∨ (⌈v⌉ : ℚ) ≤ (k : ℚ) := by
  rw [Int.cast_le, Int.cast_le]
  rcases le_or_gt (k : ℚ) v with hle | hlt
  · exact .inl (Int.le_floor.2 hle)
  · exact .inr (Int.ceil_le.2 hlt.le)

/-- Rational numbers have a common denominator. -/
theorem exists_common_denominator (d : List ℚ) :
    ∃ k : ℕ, 0 < k ∧ ∀ v ∈ d, ∃ z : ℤ, (k : ℚ) * v = z := by
  refine ⟨(d.map Rat.den).prod, ?_, fun v hv => ?_⟩
  · rw [Nat.pos_iff_ne_zero, Ne, List.prod_eq_zero_iff]
    rintro hmem
    obtain ⟨v, -, hv⟩ := List.mem_map.1 hmem
    exact v.den_nz hv
  · obtain ⟨c, hc⟩ := List.dvd_prod (List.mem_map_of_mem (f := Rat.den) hv)
    refine ⟨c * v.num, ?_⟩
    rw [hc]
    push_cast
    rw [mul_assoc, mul_comm (c : ℚ) v, ← mul_assoc, mul_comm (v.den : ℚ) v, Rat.mul_den_eq_num,
      mul_comm]

/-- **Integral points go on for ever** along a direction of recession that
raises the objective. -/
theorem Feasible.exists_integral_evaluate_gt {d : List ℚ} (hx : p.Feasible x)
    (hint : p.Integral x) (hd : p.Recedes d) (hpos : 0 < p.evaluate d) (bound : ℚ) :
    ∃ y, p.Feasible y ∧ p.Integral y ∧ bound < p.evaluate y := by
  obtain ⟨k, hk, hden⟩ := exists_common_denominator d
  have hlen : x.length = d.length := hx.length_eq.trans hd.length_eq.symm
  have hraise : 0 < k * p.evaluate d := mul_pos (Nat.cast_pos.2 hk) hpos
  obtain ⟨n, hn⟩ := exists_nat_gt ((bound - p.evaluate x) / (k * p.evaluate d))
  -- a multiple of the common denominator keeps integers integral
  refine ⟨Problem.along x d (n * k : ℕ), hx.along hd (Nat.cast_nonneg _), fun j hj => ?_, ?_⟩
  · obtain ⟨a, ha⟩ := hint j hj
    have hjd : j < d.length := hd.length_eq.symm ▸ lt_of_isInteger hj
    obtain ⟨b, hb⟩ := hden _ (List.getElem_mem hjd)
    refine ⟨a + n * b, ?_⟩
    rw [getD_along hlen, ha, List.getD_eq_getElem _ _ hjd]
    push_cast
    rw [mul_assoc, hb]
  · rw [evaluate_along hlen]
    rw [div_lt_iff₀ hraise] at hn
    push_cast
    linarith

end Problem

end Milp
