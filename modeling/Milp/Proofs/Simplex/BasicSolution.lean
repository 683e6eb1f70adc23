import Mathlib.Data.List.Perm.Subperm
import Milp.Proofs.Simplex.Correctness
import Milp.Proofs.Simplex.Reached
/-!
# The answer is a basic solution

A tolerance can make the method stop too early, take a row that should not
leave, or lose a small value; but it moves between descriptions of the same
equations. Below one it leaves no artificial variable basic, so that what the
second phase starts from `Describes` the problem (`describes_of_feasibleTableau`).
The vertex of the last tableau is then a basic solution of the rows with their
slacks, and the corner is the objective there. The values of an answer are
those of the vertex, where those within the tolerance of zero are zero; that is
all that sets the reported objective apart from the objective at the reported
values (`solve_basic`).
-/

namespace Milp

namespace Simplex

variable {p : Problem ℚ} {s t : Tableau ℚ} {o : Optimized ℚ} {run : Run ℚ}
variable {tolerance : ℚ} {n maxIterations limit : ℕ} {values y slacks : List ℚ}

/-! ## What the second phase starts from -/

/-- Artificial columns mirror others in all forms that pivoting leads to. -/
theorem mirrored_of_form {k : ℕ} (h0 : 0 ≤ tolerance) (hs : Form t s) (hm : s.Mirrored)
    (h : optimize ⟨maxIterations, tolerance⟩ limit k s = some o) : o.tableau.Mirrored := by
  refine (optimize_induction (fun u => Form t u ∧ u.Mirrored) ?_ h ⟨hs, hm⟩).1.2
  rintro u rule row col ⟨hu, hum⟩ hmove
  obtain ⟨-, hrow⟩ := move_eq_pivot hmove
  obtain ⟨r, hr, -⟩ := Tableau.leaving_eq_some hrow
  exact ⟨form_of_move h0 hu hmove, hum.pivot hu.toShaped hr⟩

/-- **What the second phase starts from describes the problem**, with every
tolerance below one: no row is dropped and no artificial variable is left. -/
theorem describes_of_feasibleTableau {f : Feasible ℚ} (h0 : 0 ≤ tolerance) (h1 : tolerance < 1)
    (h : feasibleTableau ⟨maxIterations, tolerance⟩ limit (Tableau.ofProblem p) = some f)
    (ht : f.tableau? = some t) : Describes p t := by
  unfold feasibleTableau at h
  split at h
  · rename_i hart
    cases h
    cases ht
    exact describes_ofProblem hart
  obtain ⟨o, ho, rfl⟩ := Option.map_eq_some_iff.1 h
  have hform := form_optimize h0 (form_first p) ho
  have hmir := mirrored_of_form h0 (form_first p) (Tableau.mirrored_ofProblem p) ho
  obtain ⟨u, hu, hdriven, hb⟩ := exists_driven hform.toCanonical hmir h0 h1
  obtain ⟨acc, hacc, rfl⟩ := tableau?_concludeFirst ht
  cases hacc.trans hu
  exact describes_dropArtificials hdriven.canonical
    (hform.equivalent.trans hdriven.toEquivalent) hb

/-- The second phase has a column for every coefficient of the objective. -/
theorem Describes.length_objective_le (ht : Describes p t) : p.objective.length ≤ t.width := by
  rw [Tableau.width, ht.structural_eq]
  exact (Nat.le_add_right _ _).trans (Nat.le_add_right _ _)

/-- **The corner is the objective at the vertex**, in every form of the
tableau that the second phase starts from. -/
theorem Describes.corner_eq (ht : Describes p t) (hs : Form (priceObjective t p.objective) s) :
    s.corner = dot p.objective s.vertex := by
  have hsol : t.Solves s.vertex 1 := (hs.equivalent.solves_iff _ _).1 hs.toCanonical.solves_vertex
  have hgap := hs.equivalent.gap_objective _ _ hsol
  rw [hs.priced.gap_vertex, gap_priceObjective ht.toCanonical ht.length_objective_le hsol] at hgap
  exact neg_inj.1 hgap

/-! ## Basic solutions -/

/-- **A basic solution** of the rows with their slacks: at most as many of all
its values are other than zero as there are rows. -/
structure BasicSolution (p : Problem ℚ) (y slacks : List ℚ) : Prop where
  /-- A value for each variable. -/
  length_eq : y.length = p.numVariables
  /-- A slack for each row. -/
  length_slacks : slacks.length = p.numRows
  /-- The slacks make up for what the rows leave. -/
  row_eq : ∀ i r, p.rows[i]? = some r → r.lhs y + slacks.getD i 0 = r.rhs
  /-- At most one value for each row is not zero. -/
  countP_le : (y ++ slacks).countP (· ≠ 0) ≤ p.numRows

theorem restrict_add (n m : ℕ) (x : ℕ → ℚ) :
    restrict (n + m) x = restrict n x ++ restrict m fun i => x (n + i) := by
  rw [restrict, List.range_add, List.map_append, List.map_map]
  rfl

/-- **A vertex has no more values than rows**: it is zero off the basis. -/
theorem countP_restrict_vertex_le (t : Tableau ℚ) (n : ℕ) :
    (restrict n t.vertex).countP (· ≠ 0) ≤ t.rows.length := by
  have hsub : (List.range n).filter (fun j => t.vertex j ≠ 0) ⊆ t.basis := by
    intro j hj
    have hne := of_decide_eq_true (List.mem_filter.1 hj).2
    by_contra hnot
    exact hne (Tableau.vertex_of_not_mem hnot)
  have hle := (List.subperm_of_subset (List.nodup_range.filter _) hsub).length_le
  rw [Tableau.basis, List.length_map] at hle
  rw [restrict, List.countP_map, List.countP_eq_length_filter]
  exact hle

/-- **The vertex is a basic solution.** -/
theorem Describes.basicSolution (ht : Describes p t)
    (hs : Form (priceObjective t p.objective) s) :
    BasicSolution p (restrict p.numVariables s.vertex)
      (restrict p.numRows fun i => s.vertex (p.numVariables + i)) where
  length_eq := length_restrict _ _
  length_slacks := length_restrict _ _
  row_eq i r hr := by
    have hsol : t.Solves s.vertex 1 :=
      (hs.equivalent.solves_iff _ _).1 hs.toCanonical.solves_vertex
    have hi : i < p.numRows := (List.getElem?_eq_some_iff.1 hr).1
    have hlen : r.coefficients.length = p.numVariables :=
      p.length_coefficients r (List.mem_of_getElem? hr)
    rw [lhs_restrict hlen, getD_restrict hi, (ht.solves_iff _ _).1 hsol i r hr, one_mul]
  countP_le := by
    have hrows : s.rows.length = p.numRows :=
      hs.equivalent.length_rows_eq.trans ht.length_rows_eq
    rw [← restrict_add, ← hrows]
    exact countP_restrict_vertex_le s _

/-! ## Values within the tolerance of zero -/

/-- **The values are those of a point**, of which those within the tolerance
of zero may be zero instead. -/
structure Snapped (tolerance : ℚ) (y values : List ℚ) : Prop where
  /-- There are as many values. -/
  length_eq : values.length = y.length
  /-- They are within the tolerance. -/
  abs_sub_le : ∀ j, |y.getD j 0 - values.getD j 0| ≤ tolerance
  /-- A value that is not zero is that of the point. -/
  eq_of_ne_zero : ∀ j, values.getD j 0 ≠ 0 → y.getD j 0 = values.getD j 0

theorem snap_of_zero (tolerance : ℚ) : snap tolerance 0 = 0 := by
  unfold snap
  split <;> rfl

theorem abs_sub_snap_le (h0 : 0 ≤ tolerance) (v : ℚ) : |v - snap tolerance v| ≤ tolerance := by
  unfold snap
  split
  · rename_i h
    rwa [sub_zero, ← Scalar.abs_rat]
  · rwa [sub_self, abs_zero]

theorem eq_snap_of_ne_zero {v : ℚ} (h : snap tolerance v ≠ 0) : v = snap tolerance v := by
  unfold snap at h ⊢
  split
  · rename_i hle
    exact absurd (if_pos hle) h
  · rfl

theorem snapped_map_snap (h0 : 0 ≤ tolerance) (y : List ℚ) :
    Snapped tolerance y (y.map (snap tolerance)) := by
  have hget : ∀ j, (y.map (snap tolerance)).getD j 0 = snap tolerance (y.getD j 0) := by
    intro j
    conv_lhs => rw [← snap_of_zero tolerance]
    exact List.getD_map y 0 (snap tolerance)
  refine ⟨List.length_map _, fun j => ?_, fun j hj => ?_⟩
  · rw [hget]
    exact abs_sub_snap_le h0 _
  · rw [hget] at hj ⊢
    exact eq_snap_of_ne_zero hj

/-- The values with a tolerance are those without, each of them snapped. -/
theorem basicValues_eq_map_snap (tolerance : ℚ) (t : Tableau ℚ) (n : ℕ) :
    basicValues tolerance t n = (basicValues 0 t n).map (snap tolerance) := by
  have hzeros : (List.replicate n 0).map (snap tolerance) = List.replicate n 0 := by
    rw [List.map_replicate, snap_of_zero]
  unfold basicValues
  rw [← List.foldl_hom (List.map (snap tolerance)) fun values r => ?_, hzeros]
  split
  · rw [List.map_set, snap_zero]
  · rfl

/-- **The values of an answer are those of the vertex, snapped.** -/
theorem snapped_basicValues (h0 : 0 ≤ tolerance) (ht : t.Canonical) :
    Snapped tolerance (restrict n t.vertex) (basicValues tolerance t n) := by
  rw [basicValues_eq_map_snap, basicValues_eq_restrict ht]
  exact snapped_map_snap h0 _

/-- The sum of the magnitudes of coefficients. -/
def magnitude : List ℚ → ℚ
  | [] => 0
  | a :: as => |a| + magnitude as

/-- **A linear form tells nearby values apart by little.** -/
theorem abs_dot_sub_le {as : List ℚ} {x z : ℕ → ℚ} (h : ∀ j, |x j - z j| ≤ tolerance) :
    |dot as x - dot as z| ≤ tolerance * magnitude as := by
  induction as generalizing x z with
  | nil => simp [magnitude]
  | cons a as ih =>
    have hhead : |a * x 0 - a * z 0| ≤ tolerance * |a| := by
      rw [← mul_sub, abs_mul, mul_comm]
      exact mul_le_mul_of_nonneg_right (h 0) (abs_nonneg a)
    have htail := ih fun j => h (j + 1)
    rw [dot_cons, dot_cons, magnitude, mul_add, add_sub_add_comm]
    exact (abs_add_le _ _).trans (add_le_add hhead htail)

theorem Snapped.abs_evaluate_sub_le (h : Snapped tolerance y values) (p : Problem ℚ) :
    |p.evaluate y - p.evaluate values| ≤ tolerance * magnitude p.objective := by
  rw [Problem.evaluate_eq_dot, Problem.evaluate_eq_dot]
  exact abs_dot_sub_le h.abs_sub_le

/-! ## The answer -/

/-- **Every answer but "infeasible" comes from a tableau that describes the
problem.** -/
theorem exists_describes_of_solve (h0 : 0 ≤ tolerance) (h1 : tolerance < 1)
    (h : solve ⟨maxIterations, tolerance⟩ limit p = some run) :
    run.solution.status = .infeasible ∨
      ∃ t o, Describes p t ∧ Form (priceObjective t p.objective) o.tableau ∧
        run.solution = extract tolerance p.numVariables o := by
  obtain ⟨f, hf, ⟨-, hsol, -⟩ | ⟨t, o, ht, ho, hsol, -⟩⟩ := solve_cases h
  · rw [hsol]
    exact .inl rfl
  · have hdesc := describes_of_feasibleTableau h0 h1 hf ht
    have hstart := form_priceObjective hdesc.toCanonical hdesc.length_objective_le
    exact .inr ⟨t, o, hdesc, form_optimize h0 hstart ho, hsol⟩

/-- **The reported objective belongs to the reported point**, up to the
tolerance times the coefficients of the objective, and the point is a basic
solution but for the values that the tolerance made zero. -/
theorem solve_basic (h0 : 0 ≤ tolerance) (h1 : tolerance < 1)
    (h : solve ⟨maxIterations, tolerance⟩ limit p = some run) :
    (run.solution.status = .optimal → ∃ z, run.solution.objective = .number z ∧
      |z - p.evaluate run.solution.values| ≤ tolerance * magnitude p.objective ∧
      (tolerance = 0 → z = p.evaluate run.solution.values)) ∧
    (run.solution.status = .optimal ∨ run.solution.status = .unbounded →
      ∃ y slacks, Snapped tolerance y run.solution.values ∧ BasicSolution p y slacks) := by
  rcases exists_describes_of_solve h0 h1 h with hinf | ⟨t, o, hdesc, hform, hsol⟩
  · rw [hinf]
    exact ⟨nofun, fun hor => by rcases hor with hor | hor <;> cases hor⟩
  have hvalues : run.solution.values = basicValues tolerance o.tableau p.numVariables := by
    rw [hsol, values_extract]
  have hsnap := snapped_basicValues (n := p.numVariables) h0 hform.toCanonical
  rw [← hvalues] at hsnap
  refine ⟨fun hopt => ?_, fun _ => ⟨_, _, hsnap, hdesc.basicSolution hform⟩⟩
  have hnear := hsnap.abs_evaluate_sub_le p
  rw [evaluate_restrict, ← hdesc.corner_eq hform] at hnear
  refine ⟨o.tableau.corner, ?_, hnear, fun hzero => ?_⟩
  · -- only an optimal end has this status
    rw [hsol, extract] at hopt ⊢
    cases hend : o.ending with
    | optimal => rfl
    | unbounded =>
      rw [hend] at hopt
      cases hopt
  · rw [hzero, zero_mul] at hnear
    exact sub_eq_zero.1 (abs_nonpos_iff.1 hnear)

/-- Two rows whose vertex has a value that is not above one tenth. -/
def nearlyOne : Problem ℚ where
  objective := [2, -1]
  rows := [⟨[-1, -1], -1⟩, ⟨[1, 0], 20 / 21⟩]
  integer := [false, false]
  objective_ne_nil := List.cons_ne_nil _ _
  rows_ne_nil := List.cons_ne_nil _ _
  length_coefficients := List.forall_mem_cons.2 ⟨rfl, List.forall_mem_singleton.2 rfl⟩
  length_integer := by decide

/-- Through both phases with a tolerance of one tenth: the objective is that of
the vertex, and the second of the values is lost. -/
theorem solve_basic_nearlyOne :
    ∃ run, solve ⟨10, 1 / 10⟩ 9 nearlyOne = some run ∧
      run.solution.values = [20 / 21, 0] ∧
      (∃ z, run.solution.objective = .number z ∧
        |z - nearlyOne.evaluate [20 / 21, 0]| ≤ 1 / 10 * magnitude nearlyOne.objective) ∧
      ∃ y slacks, Snapped (1 / 10) y [20 / 21, 0] ∧ BasicSolution nearlyOne y slacks := by
  have hrun : (solve ⟨10, 1 / 10⟩ 9 nearlyOne).map (fun r =>
      (r.solution.status, r.solution.values)) = some (.optimal, [20 / 21, 0]) := by
    decide +kernel
  obtain ⟨run, hrun, heq⟩ := Option.map_eq_some_iff.1 hrun
  obtain ⟨hstatus, hvalues⟩ := Prod.mk.inj heq
  obtain ⟨hopt, hpoint⟩ := solve_basic (by norm_num) (by norm_num) hrun
  obtain ⟨z, hz, hle, -⟩ := hopt hstatus
  rw [hvalues] at hle hpoint
  exact ⟨run, hrun, hvalues, ⟨z, hz, hle⟩, hpoint (.inl hstatus)⟩

end Simplex

end Milp
