import Milp.Proofs.Problem.Bounds
import Milp.Proofs.Search.Branching
import Milp.Proofs.Search.Cover
import Milp.Proofs.Simplex.Correctness
/-!
# Branch and bound is exact

A search over a solver that is right about every continuous relaxation is
right about the problem with its integer variables (`search_exact`). The
targets are the integral points: a split loses none of them, since an
integer is on one side of it, and none is above the answer to a problem in
which it lies. What the search comes to is the answer to a problem that
refines the first one, and so a feasible point of that, or a point and a
direction that show that there is no bound.
-/

namespace Milp

/-- **A solver is exact** when its answers are right about the continuous
relaxation. -/
def Solver.Exact {σ : Type} (solver : Solver σ ℚ) : Prop :=
  ∀ memory q reply, solver.run memory q = some reply → q.ExactAnswer reply.solution

namespace Search

variable {σ : Type} {solver : Solver σ ℚ} {cfg : Config ℚ} {epsilon : ℚ} {limit : ℕ} {memory : σ}
variable {p q : Problem ℚ} {x values : List ℚ} {f : Fractional ℚ} {answer : Solution ℚ}
variable {outcome : Outcome σ ℚ}

/-! ## Splitting -/

/-- Every level is ordered, since every rational is a number. -/
theorem isNumber_rat (a : Level ℚ) : a.IsNumber := by
  cases a with
  | bottom => exact Level.bottom_le_bottom
  | number v => exact Level.number_le_number.2 (le_refl v)
  | top => exact Level.top_le_top

/-- **A child has more rows.** -/
theorem refines_floorChild (p : Problem ℚ) (f : Fractional ℚ) : p.Refines (floorChild p f) :=
  p.refines_addRow _ (Scalar.length_unitList _ _ _)

theorem refines_ceilChild (p : Problem ℚ) (f : Fractional ℚ) : p.Refines (ceilChild p f) :=
  p.refines_addRow _ (Scalar.length_unitList _ _ _)

/-- **A split loses no integral point**, and its children have no other
points. -/
theorem feasible_split_iff (hf : p.isInteger f.index = true) (hx : p.Integral x) :
    p.Feasible x ↔ (floorChild p f).Feasible x ∨ (ceilChild p f).Feasible x := by
  have hj := Problem.lt_of_isInteger hf
  rw [floorChild, ceilChild, Problem.feasible_atMost_iff hj, Problem.feasible_atLeast_iff hj,
    ← and_or_left]
  -- the bounds leave no integer out
  refine (and_iff_left ?_).symm
  obtain ⟨k, hk⟩ := hx _ hf
  rw [hk, Scalar.floor_rat, Scalar.ceil_rat]
  exact Problem.le_floor_or_ceil_le k f.value

/-! ## Integral points as targets -/

/-- **Exact answers bound the integral points, and splitting keeps them.** -/
theorem covering_of_exact (hsolver : solver.Exact) (p : Problem ℚ) (epsilon : ℚ) :
    Covering solver epsilon (Problem.Refines p) (fun x q => q.Feasible x ∧ p.Integral x)
      (fun x => .number (p.evaluate x)) where
  closed _ q _ f hq _ _ _ :=
    ⟨hq.trans (refines_floorChild q f), hq.trans (refines_ceilChild q f)⟩
  isNumber _ _ := isNumber_rat _
  le {m q reply x} hq hrun hx := by
    have hexact := hsolver m q reply hrun
    unfold Problem.ExactAnswer at hexact
    split at hexact
    · exact absurd hx.1 (hexact x)
    · rename_i z hz
      rw [hz, Level.number_le_number, ← hq.evaluate_eq]
      exact hexact.2.2 x hx.1
    · rename_i htop
      rw [htop, Level.number_le_top]
      exact le_refl (p.evaluate x)
  holds_iff {_ q reply f x} hq _ _ hb := by
    have hint := (branching_eq_some hb).2.1
    rw [← or_and_right]
    refine and_congr_left fun hx => feasible_split_iff hint fun j hj => hx j ?_
    rwa [← hq.isInteger_eq]

/-! ## What a search comes to -/

namespace Leaf

variable (h : Leaf solver epsilon q answer) (hq : p.Refines q)

include h

/-- A leaf is an exact answer. -/
theorem exactAnswer (hsolver : solver.Exact) : q.ExactAnswer answer := by
  obtain ⟨m, reply, hrun, rfl⟩ := h.run_eq
  exact hsolver m q reply hrun

include hq

/-- Its integer variables are integral up to `epsilon`. -/
theorem exists_int (hfeas : q.Feasible answer.values) {j : ℕ} (hj : p.isInteger j = true) :
    ∃ k : ℤ, |answer.values.getD j 0 - k| ≤ epsilon := by
  rw [← hq.isInteger_eq] at hj
  have hlt : j < answer.values.length := hfeas.length_eq.symm ▸ Problem.lt_of_isInteger hj
  have hv := List.getElem?_eq_getElem hlt
  rw [List.getD_eq_getElem _ _ hlt]
  have hle := h.integral j _ hv hj
  rw [Scalar.abs_rat] at hle
  exact ⟨Rational.round _, hle⟩

/-- With `epsilon` zero they are integers. -/
theorem integral_values (hfeas : q.Feasible answer.values) (heps : epsilon = 0) :
    p.Integral answer.values := by
  intro j hj
  obtain ⟨k, hk⟩ := h.exists_int hq hfeas hj
  rw [heps, abs_nonpos_iff, sub_eq_zero] at hk
  exact ⟨k, hk⟩

end Leaf

/-- No integral point is above what a search comes to. -/
theorem number_le_of_search (hsolver : solver.Exact)
    (h : search solver cfg limit memory p = some outcome) (hx : p.Feasible x)
    (hint : p.Integral x) : .number (p.evaluate x) ≤ outcome.report.solution.objective :=
  (covering_of_exact hsolver p cfg.epsilon).le_of_search (.refl p) h ⟨hx, hint⟩

/-- **What a search comes to** is a leaf of a problem with more rows, unless
it is the lowest level. -/
theorem exists_leaf_of_search (hsolver : solver.Exact)
    (h : search solver cfg limit memory p = some outcome)
    (hne : outcome.report.solution.objective ≠ .bottom) :
    ∃ q, p.Refines q ∧ Leaf solver cfg.epsilon q outcome.report.solution :=
  (solution_of_search (covering_of_exact hsolver p cfg.epsilon).closed (.refl p) h).resolve_left hne

/-- **The simplex method is an exact solver**, with tolerance zero. -/
theorem exact_simplex (maxIterations limit : ℕ) :
    (Simplex.solver ⟨maxIterations, 0⟩ limit : Solver σ ℚ).Exact := by
  intro memory q reply hrun
  obtain ⟨run, hsolve, rfl⟩ := Option.map_eq_some_iff.1 hrun
  exact Simplex.exactAnswer_solve hsolve

/-- **Branch and bound is exact** over every exact solver, in both orders.
A number is the value of a feasible point whose integer variables are
integral up to `epsilon`, and is at least that of every integral point; the
lowest level says that there is no integral point; and the highest, with
`epsilon` zero, that integral points have values without bound. -/
theorem search_exact (hsolver : solver.Exact)
    (h : search solver cfg limit memory p = some outcome) :
    (∀ z, outcome.report.solution.objective = .number z →
      p.Feasible outcome.report.solution.values ∧
      (∀ j, p.isInteger j = true →
        ∃ k : ℤ, |outcome.report.solution.values.getD j 0 - k| ≤ cfg.epsilon) ∧
      z = p.evaluate outcome.report.solution.values ∧
      ∀ x, p.Feasible x → p.Integral x → p.evaluate x ≤ z) ∧
    (outcome.report.solution.objective = .bottom → ∀ x, p.Feasible x → ¬ p.Integral x) ∧
    (outcome.report.solution.objective = .top → cfg.epsilon = 0 →
      ∀ bound, ∃ x, p.Feasible x ∧ p.Integral x ∧ bound < p.evaluate x) := by
  refine ⟨fun z hz => ?_, fun hbot x hx hint => ?_, fun htop heps bound => ?_⟩
  · obtain ⟨q, hq, hleaf⟩ := exists_leaf_of_search hsolver h (by rw [hz]; exact nofun)
    have hexact := hleaf.exactAnswer hsolver
    rw [Problem.ExactAnswer, hz] at hexact
    obtain ⟨hfeas, heval, -⟩ := hexact
    refine ⟨hq.feasible _ hfeas, fun j hj => hleaf.exists_int hq hfeas hj, ?_,
      fun x hx hint => ?_⟩
    · rw [← heval, hq.evaluate_eq]
    · have hle := number_le_of_search hsolver h hx hint
      rwa [hz, Level.number_le_number] at hle
  · have hle := number_le_of_search hsolver h hx hint
    rw [hbot] at hle
    exact Level.not_number_le_bottom hle
  · obtain ⟨q, hq, hleaf⟩ := exists_leaf_of_search hsolver h (by rw [htop]; exact nofun)
    have hexact := hleaf.exactAnswer hsolver
    rw [Problem.ExactAnswer, htop] at hexact
    obtain ⟨hfeas, d, hd, hpos⟩ := hexact
    rw [hq.evaluate_eq] at hpos
    exact (hq.feasible _ hfeas).exists_integral_evaluate_gt
      (hleaf.integral_values hq hfeas heps) (hq.recedes d hd) hpos bound

/-- A problem whose relaxation is best between integers. -/
def fractionalRoot : Problem ℚ where
  objective := [5, 4]
  rows := [⟨[6, 4], 24⟩, ⟨[1, 2], 6⟩]
  integer := [true, true]
  objective_ne_nil := List.cons_ne_nil _ _
  rows_ne_nil := List.cons_ne_nil _ _
  length_coefficients := List.forall_mem_cons.2 ⟨rfl, List.forall_mem_singleton.2 rfl⟩
  length_integer := rfl

/-- Over the simplex method the search finds the best integral point of
`fractionalRoot`. -/
theorem search_exact_fractionalRoot :
    ∃ o, search (Simplex.solver ⟨0, 0⟩ 20) ⟨0, .bestFirst⟩ 20 () fractionalRoot = some o ∧
      o.report.solution.values = [4, 0] ∧ fractionalRoot.Feasible [4, 0] ∧
      ∀ x, fractionalRoot.Feasible x → fractionalRoot.Integral x →
        fractionalRoot.evaluate x ≤ 20 := by
  have hrun : (search (Simplex.solver ⟨0, 0⟩ 20) ⟨0, .bestFirst⟩ 20 () fractionalRoot).map
      (fun o => (o.report.solution.objective.number?, o.report.solution.values)) =
      some (some 20, [4, 0]) := by decide +kernel
  obtain ⟨o, hrun, heq⟩ := Option.map_eq_some_iff.1 hrun
  obtain ⟨hobj, hvalues⟩ := Prod.mk.inj heq
  have hnumber : o.report.solution.objective = .number 20 := by
    cases hlevel : o.report.solution.objective <;> rw [hlevel] at hobj <;> cases hobj
    rfl
  obtain ⟨hfeas, -, -, hmax⟩ := (search_exact (exact_simplex 0 20) hrun).1 20 hnumber
  exact ⟨o, hrun, hvalues, hvalues ▸ hfeas, hmax⟩

end Search

end Milp
