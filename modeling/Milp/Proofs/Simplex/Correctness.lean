import Milp.Proofs.Problem.Feasible
import Milp.Proofs.Simplex.FirstPhase
/-!
# The simplex method is exact

Over exact numbers and with tolerance zero, whatever the simplex method
answers is right about the continuous relaxation (`exactAnswer_solve`). The
second phase works on assignments, which give the slacks a value as well, so
the points of a problem are first related to those: an assignment that is
`restrict`ed to the decision variables is a point or a direction, and a
point can be given its slacks (`withSlacks`).
-/

namespace Milp

/-! ## Points and their slacks -/

section Points

variable {p : Problem ℚ} {x : ℕ → ℚ} {values : List ℚ} {h : ℚ} {n : ℕ}

/-- The values of the first variables of an assignment. -/
def restrict (n : ℕ) (x : ℕ → ℚ) : List ℚ := (List.range n).map x

@[simp] theorem length_restrict (n : ℕ) (x : ℕ → ℚ) : (restrict n x).length = n := by
  rw [restrict, List.length_map, List.length_range]

theorem getD_restrict {j : ℕ} (hj : j < n) : (restrict n x).getD j 0 = x j := by
  rw [List.getD_eq_getElem?_getD, restrict, List.getElem?_map, List.getElem?_range hj]
  rfl

theorem nonneg_of_mem_restrict (hx : ∀ j, 0 ≤ x j) : ∀ v ∈ restrict n x, 0 ≤ v := by
  intro v hv
  obtain ⟨j, -, rfl⟩ := List.mem_map.1 hv
  exact hx j

theorem lhs_restrict {r : Row ℚ} (hr : r.coefficients.length = n) :
    r.lhs (restrict n x) = r.value x := by
  rw [Row.lhs_eq_value]
  exact dot_congr fun j hj => getD_restrict (hr ▸ hj)

theorem evaluate_restrict : p.evaluate (restrict p.numVariables x) = dot p.objective x := by
  rw [Problem.evaluate_eq_dot]
  exact dot_congr fun j hj => getD_restrict hj

/-- Slacks that are not negative leave a left-hand side below its bound. -/
theorem Tableau.Slacked.lhs_restrict_le (hs : Tableau.Slacked p x h) (hx : ∀ j, 0 ≤ x j)
    {r : Row ℚ} (hr : r ∈ p.rows) : r.lhs (restrict p.numVariables x) ≤ h * r.rhs := by
  obtain ⟨i, hi⟩ := List.mem_iff_getElem?.1 hr
  have hlen : r.coefficients.length = p.numVariables := p.length_coefficients r hr
  rw [lhs_restrict hlen, ← hs i r hi]
  exact le_add_of_nonneg_right (hx _)

/-- **Assignments restrict to feasible points.** -/
theorem Tableau.Slacked.feasible (hs : Tableau.Slacked p x 1) (hx : ∀ j, 0 ≤ x j) :
    p.Feasible (restrict p.numVariables x) where
  length_eq := length_restrict _ _
  nonneg := nonneg_of_mem_restrict hx
  lhs_le _ hr := (hs.lhs_restrict_le hx hr).trans_eq (one_mul _)

/-- **Directions restrict to directions of recession.** -/
theorem Tableau.Slacked.recedes (hs : Tableau.Slacked p x 0) (hx : ∀ j, 0 ≤ x j) :
    p.Recedes (restrict p.numVariables x) where
  length_eq := length_restrict _ _
  nonneg := nonneg_of_mem_restrict hx
  lhs_nonpos _ hr := (hs.lhs_restrict_le hx hr).trans_eq (zero_mul _)

/-- A point with the slack of every row. -/
def withSlacks (p : Problem ℚ) (values : List ℚ) (j : ℕ) : ℚ :=
  if j < p.numVariables then values.getD j 0
  else match p.rows[j - p.numVariables]? with
    | some r => r.rhs - r.lhs values
    | none => 0

theorem withSlacks_of_lt {j : ℕ} (hj : j < p.numVariables) :
    withSlacks p values j = values.getD j 0 := if_pos hj

/-- **Feasible points have nonnegative slacks.** -/
theorem Problem.Feasible.withSlacks_nonneg (hv : p.Feasible values) (j : ℕ) :
    0 ≤ withSlacks p values j := by
  unfold withSlacks
  split
  · rename_i hj
    rw [← hv.length_eq] at hj
    rw [List.getD_eq_getElem _ _ hj]
    exact hv.nonneg _ (List.getElem_mem hj)
  · split
    · rename_i r hr
      exact sub_nonneg.2 (hv.lhs_le r (List.mem_of_getElem? hr))
    · exact le_rfl

theorem slacked_withSlacks (p : Problem ℚ) (values : List ℚ) :
    Tableau.Slacked p (withSlacks p values) 1 := by
  intro i r hr
  have hlen : r.coefficients.length = p.numVariables :=
    p.length_coefficients r (List.mem_of_getElem? hr)
  have hval : r.value (withSlacks p values) = r.lhs values := by
    rw [Row.lhs_eq_value]
    exact dot_congr fun j hj => withSlacks_of_lt (hlen ▸ hj)
  have hslack : withSlacks p values (p.numVariables + i) = r.rhs - r.lhs values := by
    rw [withSlacks, if_neg (by omega), Nat.add_sub_cancel_left, hr]
  rw [hval, hslack]
  ring

theorem dot_withSlacks (p : Problem ℚ) (values : List ℚ) :
    dot p.objective (withSlacks p values) = p.evaluate values := by
  rw [Problem.evaluate_eq_dot]
  exact dot_congr fun j hj => withSlacks_of_lt hj

end Points

namespace Simplex

/-! ## The values at the end -/

section Values

variable {t : Tableau ℚ} {n : ℕ}

/-- With tolerance zero values stay as they are. -/
theorem snap_zero (v : ℚ) : snap 0 v = v := by
  unfold snap
  split
  · rename_i h
    rw [Scalar.abs_rat] at h
    exact (abs_nonpos_iff.1 h).symm
  · rfl

theorem getElem?_writeValue {values : List ℚ} (hlen : values.length = n) (r : BasicRow ℚ) {j : ℕ}
    (hj : j < n) :
    (writeValue 0 n values r)[j]? = if r.basic = j then some r.rhs else values[j]? := by
  unfold writeValue
  split
  · rename_i hb
    rw [← hlen] at hb
    rw [List.getElem?_set, snap_zero, if_pos hb]
  · rename_i hb
    rw [if_neg fun heq : r.basic = j => hb (heq.symm ▸ hj)]

/-- Rows written one after another leave what an assignment says, where it
agrees with every row and with what was there before. -/
theorem getElem?_foldl_writeValue {x : ℕ → ℚ} {rows : List (BasicRow ℚ)} {values : List ℚ}
    (hlen : values.length = n) (hrows : ∀ r ∈ rows, r.rhs = x r.basic) {j : ℕ} (hj : j < n)
    (hval : j ∉ rows.map (·.basic) → values[j]? = some (x j)) :
    (rows.foldl (writeValue 0 n) values)[j]? = some (x j) := by
  induction rows generalizing values with
  | nil => exact hval List.not_mem_nil
  | cons r rows ih =>
    refine ih ((length_writeValue _ _).trans hlen) (fun q hq => hrows q (List.mem_cons_of_mem _ hq))
      fun hnot => ?_
    rw [getElem?_writeValue hlen r hj]
    split
    · rename_i hb
      rw [hrows r List.mem_cons_self, hb]
    · rename_i hb
      refine hval fun hmem => ?_
      rcases List.mem_cons.1 hmem with rfl | hmem
      · exact hb rfl
      · exact hnot hmem

/-- **The values of a solution are the vertex.** -/
theorem basicValues_eq_restrict (ht : t.Canonical) : basicValues 0 t n = restrict n t.vertex := by
  rw [basicValues_eq_foldl]
  refine List.ext_getElem? fun j => ?_
  rcases Nat.lt_or_ge j n with hj | hj
  · rw [getElem?_foldl_writeValue (x := t.vertex) List.length_replicate
      (fun r hr => (ht.atBasis_basic hr (·.rhs)).symm) hj, restrict, List.getElem?_map,
      List.getElem?_range hj, Option.map_some]
    intro hb
    rw [List.getElem?_replicate, if_pos hj, Tableau.vertex_of_not_mem hb]
  · rw [List.getElem?_eq_none, List.getElem?_eq_none]
    · rwa [length_restrict]
    · rwa [length_foldl_writeValue, List.length_replicate]

end Values

/-! ## The answer -/

variable {p : Problem ℚ} {t : Tableau ℚ} {o : Optimized ℚ} {run : Run ℚ}
variable {maxIterations limit : ℕ}

/-- The tableau of the second phase has a column for every coefficient of
the objective. -/
theorem Represents.length_objective_le (ht : Represents p t) : p.objective.length ≤ t.width := by
  rw [Tableau.width, ht.structural_eq]
  exact (Nat.le_add_right _ _).trans (Nat.le_add_right _ _)

theorem Represents.ready (ht : Represents p t) : Ready (priceObjective t p.objective) :=
  ready_priceObjective ht.toCanonical ht.feasible ht.length_objective_le

/-- The objective row of the second phase says minus the objective. -/
theorem Represents.gap_objective (ht : Represents p t) {x : ℕ → ℚ} {h : ℚ}
    (hx : Tableau.Slacked p x h) :
    (priceObjective t p.objective).objective.gap x h = -dot p.objective x :=
  gap_priceObjective ht.toCanonical ht.length_objective_le ((ht.solves_iff x h).2 hx)

/-- **The second phase is exact** on a tableau that represents the problem. -/
theorem exactAnswer_extract (ht : Represents p t)
    (h : secondPhase ⟨maxIterations, 0⟩ limit p.objective t = some o) :
    p.ExactAnswer (extract 0 p.numVariables o) := by
  have hready := (ready_optimize ht.ready h).1
  obtain ⟨hnonneg, hsol, hgap⟩ := vertex_optimize ht.ready h
  have hslacked : Tableau.Slacked p o.tableau.vertex 1 := (ht.solves_iff _ _).1 hsol
  have hfeas := hslacked.feasible hnonneg
  rw [← basicValues_eq_restrict hready.toCanonical] at hfeas
  cases ho : o.ending with
  | optimal =>
    rw [extract, ho]
    refine ⟨hfeas, ?_, fun x hx => ?_⟩
    · show p.evaluate (basicValues 0 o.tableau p.numVariables) = o.tableau.corner
      rw [basicValues_eq_restrict hready.toCanonical, evaluate_restrict]
      rw [ht.gap_objective hslacked] at hgap
      exact neg_inj.1 hgap
    · -- any other point is an assignment as well, with its slacks
      have hsl := slacked_withSlacks p x
      have hle := optimize_optimal ht.ready h ho hx.withSlacks_nonneg ((ht.solves_iff _ _).2 hsl)
      rw [ht.gap_objective hsl, dot_withSlacks] at hle
      exact neg_le_neg_iff.1 hle
  | unbounded =>
    rw [extract, ho]
    obtain ⟨d, hd, hdsol, hneg⟩ := optimize_unbounded ht.ready h ho
    have hdir : Tableau.Slacked p d 0 := (ht.solves_iff _ _).1 hdsol
    refine ⟨hfeas, restrict p.numVariables d, hdir.recedes hd, ?_⟩
    rw [ht.gap_objective hdir] at hneg
    rw [evaluate_restrict]
    exact neg_neg_iff_pos.1 hneg

/-- **The simplex method is exact.** -/
theorem exactAnswer_solve (h : solve ⟨maxIterations, 0⟩ limit p = some run) :
    p.ExactAnswer run.solution := by
  obtain ⟨f, hf, hcases⟩ := solve_cases h
  -- the first phase gives a tableau for the second or says that there is no point
  rcases feasibleTableau_spec hf with ⟨t, ht, hrep⟩ | ⟨hnone, hno⟩
  · obtain ⟨hnone, -⟩ | ⟨u, o, hu, ho, hsol, -⟩ := hcases
    · cases ht.symm.trans hnone
    · cases ht.symm.trans hu
      rw [hsol]
      exact exactAnswer_extract hrep ho
  · obtain ⟨-, hsol, -⟩ | ⟨u, -, hu, -⟩ := hcases
    · rw [hsol]
      exact fun x hx => hno _ hx.withSlacks_nonneg (slacked_withSlacks p x)
    · cases hnone.symm.trans hu

/-- **What each status of the simplex method says**, for every problem and
whenever the rules switch. -/
theorem solve_sound (h : solve ⟨maxIterations, 0⟩ limit p = some run) :
    (run.solution.status = .optimal →
      p.Feasible run.solution.values ∧
      run.solution.objective = .number (p.evaluate run.solution.values) ∧
      ∀ x, p.Feasible x → p.evaluate x ≤ p.evaluate run.solution.values) ∧
    (run.solution.status = .infeasible → ∀ x, ¬ p.Feasible x) ∧
    (run.solution.status = .unbounded →
      p.Feasible run.solution.values ∧ (∃ d, p.Recedes d ∧ 0 < p.evaluate d) ∧
      ∀ bound, ∃ x, p.Feasible x ∧ bound < p.evaluate x) := by
  have hexact := exactAnswer_solve h
  unfold Problem.ExactAnswer at hexact
  unfold Solution.status
  cases hobj : run.solution.objective with
  | bottom =>
    rw [hobj] at hexact
    exact ⟨nofun, fun _ => hexact, nofun⟩
  | number z =>
    rw [hobj] at hexact
    obtain ⟨hfeas, hz, hmax⟩ := hexact
    exact ⟨fun _ => ⟨hfeas, by rw [hz], hz ▸ hmax⟩, nofun, nofun⟩
  | top =>
    rw [hobj] at hexact
    obtain ⟨hfeas, d, hd, hpos⟩ := hexact
    exact ⟨nofun, nofun, fun _ => ⟨hfeas, ⟨d, hd, hpos⟩, hfeas.exists_evaluate_gt hd hpos⟩⟩

/-- Three rows over two variables, the last of which has to be negated. -/
def atLeastOne : Problem ℚ where
  objective := [3, 2]
  rows := [⟨[1, 1], 4⟩, ⟨[1, 3], 6⟩, ⟨[-1, -1], -1⟩]
  integer := [false, false]
  objective_ne_nil := List.cons_ne_nil _ _
  rows_ne_nil := List.cons_ne_nil _ _
  length_coefficients := List.forall_mem_cons.2
    ⟨rfl, List.forall_mem_cons.2 ⟨rfl, List.forall_mem_singleton.2 rfl⟩⟩
  length_integer := rfl

/-- Through both phases, where the rule switches after one pivot, the
optimum of `atLeastOne` is found. -/
theorem solve_sound_atLeastOne :
    ∃ run, solve ⟨1, 0⟩ 9 atLeastOne = some run ∧ run.solution.values = [4, 0] ∧
      atLeastOne.Feasible [4, 0] ∧
      ∀ x, atLeastOne.Feasible x → atLeastOne.evaluate x ≤ atLeastOne.evaluate [4, 0] := by
  have hrun : (solve ⟨1, 0⟩ 9 atLeastOne).map (fun r => (r.solution.status, r.solution.values)) =
      some (.optimal, [4, 0]) := by decide +kernel
  obtain ⟨run, hrun, heq⟩ := Option.map_eq_some_iff.1 hrun
  obtain ⟨hstatus, hvalues⟩ := Prod.mk.inj heq
  obtain ⟨hfeas, -, hmax⟩ := (solve_sound hrun).1 hstatus
  rw [hvalues] at hfeas hmax
  exact ⟨run, hrun, hvalues, hfeas, hmax⟩

end Simplex

end Milp
