import Milp.Problem.Basic
import Milp.Proofs.Tableau.Row
import Milp.Solution
/-!
# Feasible points and exact answers

The continuous relaxation of a problem, over exact numbers: its feasible
points, and its directions of recession, along which feasible points stay
feasible (`Feasible.along`). An answer is exact (`ExactAnswer`) when it says
of the relaxation what is true: that it has no point, or an optimal one, or
one from which the objective grows without end.
-/

namespace Milp

namespace Problem

variable {p : Problem ℚ} {x d : List ℚ}

/-- **A feasible point** of the continuous relaxation. -/
structure Feasible (p : Problem ℚ) (x : List ℚ) : Prop where
  /-- A value for each variable. -/
  length_eq : x.length = p.numVariables
  /-- None is negative. -/
  nonneg : ∀ v ∈ x, 0 ≤ v
  /-- Every row is satisfied. -/
  lhs_le : ∀ r ∈ p.rows, r.lhs x ≤ r.rhs

/-- **A direction of recession**: nonnegative, and it raises no left-hand
side. -/
structure Recedes (p : Problem ℚ) (d : List ℚ) : Prop where
  /-- A value for each variable. -/
  length_eq : d.length = p.numVariables
  /-- None is negative. -/
  nonneg : ∀ v ∈ d, 0 ≤ v
  /-- No row is raised. -/
  lhs_nonpos : ∀ r ∈ p.rows, r.lhs d ≤ 0

/-- What the check for feasible points accepts. -/
theorem isFeasible_iff {tolerance : ℚ} : p.isFeasible x tolerance = true ↔
    x.length = p.numVariables ∧ (∀ v ∈ x, -tolerance ≤ v) ∧
      ∀ r ∈ p.rows, r.lhs x ≤ r.rhs + tolerance := by
  rw [isFeasible, Bool.and_eq_true, Bool.and_eq_true, beq_iff_eq, Bool.not_eq_true',
    List.any_eq_false, List.all_eq_true, and_assoc]
  refine and_congr_right fun _ => and_congr (forall₂_congr fun v _ => ?_)
    (forall₂_congr fun r _ => ?_)
  · rw [decide_eq_true_eq]
    exact not_lt
  · exact decide_eq_true_iff

/-- Feasible points are those that the check with tolerance zero accepts. -/
theorem isFeasible_zero_iff : p.isFeasible x 0 = true ↔ p.Feasible x := by
  rw [isFeasible_iff]
  simp only [neg_zero, add_zero]
  exact ⟨fun ⟨hlen, hnonneg, hle⟩ => ⟨hlen, hnonneg, hle⟩,
    fun h => ⟨h.length_eq, h.nonneg, h.lhs_le⟩⟩

/-- A larger tolerance accepts no fewer points. -/
theorem isFeasible_mono {a b : ℚ} (hab : a ≤ b) (h : p.isFeasible x a = true) :
    p.isFeasible x b = true := by
  obtain ⟨hlen, hneg, hrows⟩ := isFeasible_iff.1 h
  refine isFeasible_iff.2 ⟨hlen, fun v hv => ?_, fun r hr => ?_⟩
  · exact (neg_le_neg hab).trans (hneg v hv)
  · exact (hrows r hr).trans (add_le_add_right hab r.rhs)

/-- The objective is a linear form. -/
theorem evaluate_eq_dot (p : Problem ℚ) (x : List ℚ) :
    p.evaluate x = dot p.objective fun j => x.getD j 0 :=
  Scalar.sumProducts_rat _ _

/-! ## Moving along a direction -/

/-- The point that lies `k` times a direction further on. -/
def along (x d : List ℚ) (k : ℚ) : List ℚ := List.zipWith (fun a b => a + k * b) x d

theorem getD_along (h : x.length = d.length) (k : ℚ) (j : ℕ) :
    (along x d k).getD j 0 = x.getD j 0 + k * d.getD j 0 :=
  getD_zipWith (f := fun a b => a + k * b) (by ring) h j

theorem dot_along (as : List ℚ) (h : x.length = d.length) (k : ℚ) :
    (dot as fun j => (along x d k).getD j 0) =
      (dot as fun j => x.getD j 0) + k * dot as fun j => d.getD j 0 := by
  simp only [getD_along h, dot_add, dot_smul]

/-- **Along a direction of recession points stay feasible.** -/
theorem Feasible.along (hx : p.Feasible x) (hd : p.Recedes d) {k : ℚ} (hk : 0 ≤ k) :
    p.Feasible (along x d k) := by
  have hlen : x.length = d.length := hx.length_eq.trans hd.length_eq.symm
  refine ⟨?_, fun v hv => ?_, fun r hr => ?_⟩
  · rw [Problem.along, List.length_zipWith, hlen, Nat.min_self, hd.length_eq]
  · obtain ⟨a, ha, b, hb, rfl⟩ : ∃ a ∈ x, ∃ b ∈ d, v = a + k * b := by
      obtain ⟨i, hi, rfl⟩ := List.mem_iff_getElem.1 hv
      rw [Problem.along, List.length_zipWith] at hi
      exact ⟨x[i], List.getElem_mem _, d[i], List.getElem_mem _, List.getElem_zipWith⟩
    exact add_nonneg (hx.nonneg a ha) (mul_nonneg hk (hd.nonneg b hb))
  · rw [Row.lhs_eq_value, Row.value, dot_along _ hlen]
    have hpoint := hx.lhs_le r hr
    have hdir := mul_nonpos_of_nonneg_of_nonpos hk (hd.lhs_nonpos r hr)
    rw [Row.lhs_eq_value, Row.value] at hpoint hdir
    linarith

theorem evaluate_along (h : x.length = d.length) (k : ℚ) :
    p.evaluate (along x d k) = p.evaluate x + k * p.evaluate d := by
  rw [evaluate_eq_dot, evaluate_eq_dot, evaluate_eq_dot, dot_along _ h]

/-- **A direction that raises the objective raises it without end.** -/
theorem Feasible.exists_evaluate_gt (hx : p.Feasible x) (hd : p.Recedes d)
    (hpos : 0 < p.evaluate d) (bound : ℚ) : ∃ y, p.Feasible y ∧ bound < p.evaluate y := by
  set k := max 0 ((bound - p.evaluate x) / p.evaluate d + 1)
  refine ⟨Problem.along x d k, hx.along hd (le_max_left _ _), ?_⟩
  rw [evaluate_along (hx.length_eq.trans hd.length_eq.symm)]
  have hk : (bound - p.evaluate x) / p.evaluate d < k :=
    (lt_add_one _).trans_le (le_max_right _ _)
  rw [div_lt_iff₀ hpos] at hk
  linarith

/-! ## Exact answers -/

/-- **The answer is right about the continuous relaxation**: it has no
feasible point; or its optimum is the number, which the values attain; or
the values are a feasible point and a direction raises the objective. -/
def ExactAnswer (p : Problem ℚ) (s : Solution ℚ) : Prop :=
  match s.objective with
  | .bottom => ∀ x, ¬ p.Feasible x
  | .number z => p.Feasible s.values ∧ p.evaluate s.values = z ∧
      ∀ x, p.Feasible x → p.evaluate x ≤ z
  | .top => p.Feasible s.values ∧ ∃ d, p.Recedes d ∧ 0 < p.evaluate d

end Problem

end Milp
