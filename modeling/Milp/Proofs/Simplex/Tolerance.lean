import Milp.Proofs.Simplex.Boundaries
/-!
# Optima and the tolerance

A reported optimum need not be feasible up to the tolerance with which it was
found: a value that counts as zero, or a row that leaves too late, puts a
left-hand side off by a multiple of the tolerance (`solve_not_feasible_steep`),
and the multiple is as large as the coefficients make it
(`exists_solve_not_feasible`). Where the tolerance is `Clear` of the run no row
leaves too late. All that is lost then is values that count as zero, which puts a
row off by no more than the tolerance for each unit of its coefficients; and
nothing is lost where the run `KeepsValues` (`solve_isFeasible`). On each problem
both hold with all tolerances that are small enough, since only finitely many
tableaus are reached.
-/

namespace Milp

namespace Simplex

variable {p : Problem ℚ} {t : Tableau ℚ} {phase : Phase} {tolerance : ℚ}
variable {n maxIterations limit : ℕ} {run : Run ℚ} {y values : List ℚ}

/-! ## Values that count as zero -/

/-- **Feasible but for values that count as zero**: a row may be off by the
tolerance for each unit of its coefficients. -/
structure NearlyFeasible (p : Problem ℚ) (tolerance : ℚ) (values : List ℚ) : Prop where
  /-- A value for each variable. -/
  length_eq : values.length = p.numVariables
  /-- None is negative. -/
  nonneg : ∀ v ∈ values, 0 ≤ v
  /-- Every row is nearly satisfied. -/
  lhs_le : ∀ r ∈ p.rows, r.lhs values ≤ r.rhs + tolerance * magnitude r.coefficients

/-- **A feasible point stays nearly feasible** when some of its values are made
zero. -/
theorem Snapped.nearlyFeasible (hs : Snapped tolerance y values) (hy : p.Feasible y) :
    NearlyFeasible p tolerance values where
  length_eq := hs.length_eq.trans hy.length_eq
  nonneg v hv := by
    obtain ⟨j, hj, rfl⟩ := List.mem_iff_getElem.1 hv
    have hget : values.getD j 0 = values[j] := List.getD_eq_getElem _ _ hj
    have hj' : j < y.length := hs.length_eq ▸ hj
    by_cases hzero : values[j] = 0
    · exact hzero.ge
    · rw [← hget, ← hs.eq_of_ne_zero j (hget.symm ▸ hzero), List.getD_eq_getElem _ _ hj']
      exact hy.nonneg _ (List.getElem_mem hj')
  lhs_le r hr := by
    have hnear : |dot r.coefficients _ - dot r.coefficients _| ≤ _ := abs_dot_sub_le hs.abs_sub_le
    have hle := hy.lhs_le r hr
    rw [Row.lhs_eq_value] at hle ⊢
    have hlost := (abs_le.1 hnear).1
    change dot r.coefficients _ ≤ r.rhs at hle
    change dot r.coefficients _ ≤ _
    linarith

/-- **No value is lost**: at an optimal end no variable has a value above zero
that counts as zero. -/
def KeepsValues (cfg : Config ℚ) (p : Problem ℚ) : Prop :=
  ∀ k t, Boundary cfg p (.second k) t → move cfg.tolerance (ruleAfter cfg k) t = .stop →
    ∀ r ∈ t.rows, r.basic < p.numVariables → 0 < r.rhs → cfg.tolerance < r.rhs

/-- The values are then those of the vertex. -/
theorem basicValues_eq_of_lt (ht : t.Canonical) (hf : t.Feasible)
    (hkept : ∀ r ∈ t.rows, r.basic < n → 0 < r.rhs → tolerance < r.rhs) :
    basicValues tolerance t n = restrict n t.vertex := by
  rw [basicValues_eq_map_snap, basicValues_eq_restrict ht]
  refine (List.map_congr_left fun v hv => ?_).trans (List.map_id _)
  obtain ⟨j, hj, rfl⟩ := List.mem_map.1 hv
  by_cases hb : j ∈ t.basis
  · obtain ⟨r, hr, rfl⟩ := Tableau.mem_basis.1 hb
    have hvertex : t.vertex r.basic = r.rhs := ht.atBasis_basic hr _
    rw [hvertex]
    rcases (hf r hr).eq_or_lt with hzero | hpos
    · rw [← hzero]
      exact snap_of_zero tolerance
    · have hlt := hkept r hr (List.mem_range.1 hj) hpos
      rw [snap, Scalar.abs_rat, abs_of_pos hpos, if_neg (not_le.2 hlt), id]
  · rw [Tableau.vertex_of_not_mem hb]
    exact snap_of_zero tolerance

/-! ## Where the tolerance is clear -/

/-- Boundaries are reached. -/
theorem Boundary.reached (h0 : 0 ≤ tolerance)
    (h : Boundary ⟨maxIterations, tolerance⟩ p phase t) : Reached p t := by
  have hholds := h.holds h0
  cases phase with
  | first k => exact .inl hholds.2
  | drivingOut i redundant => exact .inl hholds.2.1
  | second k =>
    obtain ⟨s, hstart, hform, -⟩ := hholds
    exact .inr ⟨s, hstart, hform⟩

section Resolved

variable (h0 : 0 ≤ tolerance) (hres : ∀ t, Reached p t → Resolved tolerance t)

include h0 hres

/-- **A tolerance that tells all numbers from zero is clear of the run.** -/
theorem clear_of_resolved (h1 : tolerance < 1) : Clear ⟨maxIterations, tolerance⟩ p where
  ratios phase k t col ht _ hcol := by
    obtain ⟨s, hform⟩ := (ht.holds h0).exists_form
    exact (hres t (ht.reached h0)).clearRatios
      (hform.length_objective ▸ Tableau.entering_lt hcol)
  corner k t ht _ hrest := by
    have hgap := (hres t (ht.reached h0)).corner (neg_ne_zero.1 hrest.ne')
    rwa [← abs_neg, abs_of_pos hrest] at hgap
  kept i redundant t ht := (ht.kept h0 h1).2

/-- It loses no value. -/
theorem keepsValues_of_resolved : KeepsValues ⟨maxIterations, tolerance⟩ p := by
  intro k t ht _ r hr _ hrhs
  have hgap := (hres t (ht.reached h0)).rhs r hr hrhs.ne'
  rwa [abs_of_pos hrhs] at hgap

end Resolved

/-- **Small tolerances are clear of every run on a problem**, lose no value and
change no answer. -/
theorem exists_clear (p : Problem ℚ) :
    ∃ small, 0 < small ∧ ∀ tolerance maxIterations, 0 ≤ tolerance → tolerance < small →
      Clear ⟨maxIterations, tolerance⟩ p ∧ KeepsValues ⟨maxIterations, tolerance⟩ p ∧
      ∀ limit, solve ⟨maxIterations, tolerance⟩ limit p = solve ⟨maxIterations, 0⟩ limit p := by
  obtain ⟨small, hpos, hsmall⟩ := exists_resolved_reached p
  refine ⟨min small 1, lt_min hpos one_pos, fun tolerance maxIterations h0 hlt => ?_⟩
  obtain ⟨hlt, hone⟩ := lt_min_iff.1 hlt
  have hres := hsmall tolerance hlt
  exact ⟨clear_of_resolved h0 hres hone, keepsValues_of_resolved h0 hres,
    fun limit => solve_eq_solve_zero h0 hres⟩

/-- **Where reported optima are feasible.** With a tolerance that is clear of the
run an optimum is feasible but for values that count as zero, and where there are
none it is feasible up to the tolerance. On each problem that is so for all
tolerances that are small enough, which find the answer of tolerance zero. -/
theorem solve_isFeasible (p : Problem ℚ) :
    (∀ tolerance maxIterations limit run, 0 ≤ tolerance →
      Clear ⟨maxIterations, tolerance⟩ p →
      solve ⟨maxIterations, tolerance⟩ limit p = some run → run.solution.status = .optimal →
        NearlyFeasible p tolerance run.solution.values ∧
        (KeepsValues ⟨maxIterations, tolerance⟩ p →
          p.isFeasible run.solution.values tolerance = true)) ∧
    ∃ small, 0 < small ∧ ∀ tolerance maxIterations, 0 ≤ tolerance → tolerance < small →
      Clear ⟨maxIterations, tolerance⟩ p ∧ KeepsValues ⟨maxIterations, tolerance⟩ p ∧
      ∀ limit, solve ⟨maxIterations, tolerance⟩ limit p = solve ⟨maxIterations, 0⟩ limit p := by
  refine ⟨fun tolerance maxIterations limit run h0 hc hrun hopt => ?_, exists_clear p⟩
  obtain ⟨f, t, o, hf, ht, ho, hlast, hstop, hvalues⟩ := exists_boundary_of_solve hrun hopt
  have hdesc := hc.describes h0 hf ht
  have hform := form_optimize h0
    (form_priceObjective hdesc.toCanonical hdesc.length_objective_le) ho
  have hfeas : o.tableau.Feasible := hlast.exact h0 hc
  -- the vertex solves the rows, with slacks that are not negative
  have hslacked : Tableau.Slacked p o.tableau.vertex 1 :=
    (hdesc.solves_iff _ _).1 ((hform.equivalent.solves_iff _ _).1 hform.toCanonical.solves_vertex)
  have hvertex := hslacked.feasible hfeas.vertex_nonneg
  rw [hvalues]
  refine ⟨(snapped_basicValues h0 hform.toCanonical).nearlyFeasible hvertex, fun hkept => ?_⟩
  rw [basicValues_eq_of_lt hform.toCanonical hfeas (hkept _ _ hlast hstop)]
  exact Problem.isFeasible_mono h0 (Problem.isFeasible_zero_iff.2 hvertex)

/-! ## With the default tolerance -/

/-- Two rows over two variables, which are satisfied at zero. -/
def homework : Problem ℚ where
  objective := [2, 3]
  rows := [⟨[3, 2], 13⟩, ⟨[4, 5], 11⟩]
  integer := [true, true]
  objective_ne_nil := List.cons_ne_nil _ _
  rows_ne_nil := List.cons_ne_nil _ _
  length_coefficients := by decide
  length_integer := by decide

/-- Where the second phase starts on `homework`. -/
def homeworkFirst : Tableau ℚ :=
  priceObjective (Tableau.ofProblem homework) homework.objective

/-- Where it ends. -/
def homeworkLast : Tableau ℚ := homeworkFirst.pivot 1 1

theorem move_homeworkFirst :
    move (1 / 10 ^ 9) (ruleAfter ⟨10000, 1 / 10 ^ 9⟩ 0) homeworkFirst = .pivot 1 1 := by
  decide +kernel

theorem move_homeworkLast :
    move (1 / 10 ^ 9) (ruleAfter ⟨10000, 1 / 10 ^ 9⟩ 1) homeworkLast = .stop := by
  decide +kernel

/-- On `homework` there is one pivot, and no first phase. -/
theorem boundary_homework (h : Boundary ⟨10000, 1 / 10 ^ 9⟩ homework phase t) :
    phase = .second 0 ∧ t = homeworkFirst ∨ phase = .second 1 ∧ t = homeworkLast := by
  induction h with
  | priced hart => exact absurd (by decide +kernel) hart
  | direct => exact .inl ⟨rfl, rfl⟩
  | pivoted _ _ ih | accepted _ _ _ ih | drivenOut _ _ ih | cleared _ ih =>
    rcases ih with ⟨hphase, -⟩ | ⟨hphase, -⟩ <;> cases hphase
  | pivotedAgain _ hmove ih =>
    rcases ih with ⟨hphase, rfl⟩ | ⟨hphase, rfl⟩ <;> cases hphase
    · cases move_homeworkFirst.symm.trans hmove
      exact .inr ⟨rfl, rfl⟩
    · cases move_homeworkLast.symm.trans hmove

theorem clear_homework : Clear ⟨10000, 1 / 10 ^ 9⟩ homework where
  ratios phase k t col ht hphase hcol := by
    rcases boundary_homework ht with ⟨rfl, rfl⟩ | ⟨rfl, rfl⟩ <;>
      rcases hphase with hphase | hphase <;> cases hphase
    · cases (move_eq_pivot move_homeworkFirst).1.symm.trans hcol
      exact ⟨by decide +kernel, by decide +kernel⟩
    · cases (move_eq_stop move_homeworkLast).symm.trans hcol
  corner k t ht _ _ := by
    rcases boundary_homework ht with ⟨hphase, -⟩ | ⟨hphase, -⟩ <;> cases hphase
  kept i redundant t ht := by
    rcases boundary_homework ht with ⟨hphase, -⟩ | ⟨hphase, -⟩ <;> cases hphase

theorem keepsValues_homework : KeepsValues ⟨10000, 1 / 10 ^ 9⟩ homework := by
  intro k t ht hstop
  rcases boundary_homework ht with ⟨hphase, rfl⟩ | ⟨hphase, rfl⟩ <;> cases hphase
  · cases move_homeworkFirst.symm.trans hstop
  · decide +kernel

/-- One row with a large coefficient, which asks for a value that is below
the tolerance. -/
def steep : Problem ℚ where
  objective := [-1]
  rows := [⟨[-1000000], -1 / 10000⟩]
  integer := [false]
  objective_ne_nil := List.cons_ne_nil _ _
  rows_ne_nil := List.cons_ne_nil _ _
  length_coefficients := List.forall_mem_singleton.2 rfl
  length_integer := rfl

/-- Where the first phase starts on `steep`. -/
def steepFirst : Tableau ℚ := priceArtificials (Tableau.ofProblem steep)

/-- Where it ends. -/
def steepNext : Tableau ℚ := steepFirst.pivot 0 0

/-- Where the second phase starts. -/
def steepLast : Tableau ℚ :=
  priceObjective (dropArtificials (dropRows steepNext [])) steep.objective

theorem move_steepFirst :
    move (1 / 10 ^ 9) (ruleAfter ⟨10000, 1 / 10 ^ 9⟩ 0) steepFirst = .pivot 0 0 := by
  decide +kernel

theorem move_steepNext :
    move (1 / 10 ^ 9) (ruleAfter ⟨10000, 1 / 10 ^ 9⟩ 1) steepNext = .stop := by
  decide +kernel

theorem move_steepLast :
    move (1 / 10 ^ 9) (ruleAfter ⟨10000, 1 / 10 ^ 9⟩ 0) steepLast = .stop := by
  decide +kernel

/-- On `steep` one pivot makes the variable basic, and no other follows. -/
theorem boundary_steep (h : Boundary ⟨10000, 1 / 10 ^ 9⟩ steep phase t) :
    phase = .first 0 ∧ t = steepFirst ∨ phase = .first 1 ∧ t = steepNext ∨
      (∃ i, phase = .drivingOut i [] ∧ t = steepNext) ∨ phase = .second 0 ∧ t = steepLast := by
  induction h with
  | priced => exact .inl ⟨rfl, rfl⟩
  | direct hart => exact absurd hart (by decide +kernel)
  | pivoted _ hmove ih =>
    rcases ih with ⟨hphase, rfl⟩ | ⟨hphase, rfl⟩ | ⟨i, hphase, -⟩ | ⟨hphase, -⟩ <;> cases hphase
    · cases move_steepFirst.symm.trans hmove
      exact .inr (.inl ⟨rfl, rfl⟩)
    · cases move_steepNext.symm.trans hmove
  | accepted _ hmove _ ih =>
    rcases ih with ⟨hphase, rfl⟩ | ⟨hphase, rfl⟩ | ⟨i, hphase, -⟩ | ⟨hphase, -⟩ <;> cases hphase
    · cases move_steepFirst.symm.trans hmove
    · exact .inr (.inr (.inl ⟨0, rfl, rfl⟩))
  | @drivenOut i acc _ hi ih =>
    obtain ⟨u, redundant⟩ := acc
    rcases ih with ⟨hphase, -⟩ | ⟨hphase, -⟩ | ⟨i, hphase, rfl⟩ | ⟨hphase, -⟩ <;> cases hphase
    -- the only row needs no driving out
    obtain rfl : i = 0 := Nat.lt_one_iff.1 (hi.trans_eq (by decide +kernel))
    have hsame : driveOutRow (1 / 10 ^ 9) (steepNext, []) 0 = (steepNext, []) :=
      if_pos (by decide +kernel)
    exact .inr (.inr (.inl ⟨1, by rw [hsame], by rw [hsame]⟩))
  | cleared _ ih =>
    rcases ih with ⟨hphase, -⟩ | ⟨hphase, -⟩ | ⟨i, hphase, rfl⟩ | ⟨hphase, -⟩ <;> cases hphase
    exact .inr (.inr (.inr ⟨rfl, rfl⟩))
  | pivotedAgain _ hmove ih =>
    rcases ih with ⟨hphase, -⟩ | ⟨hphase, -⟩ | ⟨i, hphase, -⟩ | ⟨hphase, rfl⟩ <;> cases hphase
    cases move_steepLast.symm.trans hmove

theorem clear_steep : Clear ⟨10000, 1 / 10 ^ 9⟩ steep where
  ratios phase k t col ht hphase hcol := by
    rcases boundary_steep ht with ⟨rfl, rfl⟩ | ⟨rfl, rfl⟩ | ⟨i, rfl, rfl⟩ | ⟨rfl, rfl⟩ <;>
      rcases hphase with hphase | hphase <;> cases hphase
    · cases (move_eq_pivot move_steepFirst).1.symm.trans hcol
      exact ⟨by decide +kernel, by decide +kernel⟩
    · cases (move_eq_stop move_steepNext).symm.trans hcol
    · cases (move_eq_stop move_steepLast).symm.trans hcol
  corner k t ht hstop hrest := by
    rcases boundary_steep ht with ⟨hphase, rfl⟩ | ⟨hphase, rfl⟩ | ⟨i, hphase, -⟩ | ⟨hphase, -⟩ <;>
      cases hphase
    · cases move_steepFirst.symm.trans hstop
    · exact absurd hrest (by decide +kernel)
  kept i redundant t ht := (ht.kept (by norm_num) (by norm_num)).2

/-- With the default tolerance the optimum of `homework` is feasible up to it, and
that of `steep` is but for its value. -/
theorem solve_isFeasible_default :
    (Clear ⟨10000, 1 / 10 ^ 9⟩ homework ∧ KeepsValues ⟨10000, 1 / 10 ^ 9⟩ homework ∧
      ∃ run, solve ⟨10000, 1 / 10 ^ 9⟩ 1 homework = some run ∧
        run.solution.values = [0, 11 / 5] ∧
        homework.isFeasible [0, 11 / 5] (1 / 10 ^ 9) = true) ∧
    Clear ⟨10000, 1 / 10 ^ 9⟩ steep ∧
      ∃ run, solve ⟨10000, 1 / 10 ^ 9⟩ 2 steep = some run ∧ run.solution.values = [0] ∧
        NearlyFeasible steep (1 / 10 ^ 9) [0] := by
  have h0 : (0 : ℚ) ≤ 1 / 10 ^ 9 := by norm_num
  have hrun : (solve ⟨10000, 1 / 10 ^ 9⟩ 1 homework).map (fun r =>
      (r.solution.status, r.solution.values)) = some (.optimal, [0, 11 / 5]) := by decide +kernel
  have hrun' : (solve ⟨10000, 1 / 10 ^ 9⟩ 2 steep).map (fun r =>
      (r.solution.status, r.solution.values)) = some (.optimal, [0]) := by decide +kernel
  obtain ⟨run, hrun, heq⟩ := Option.map_eq_some_iff.1 hrun
  obtain ⟨hstatus, hvalues⟩ := Prod.mk.inj heq
  obtain ⟨run', hrun', heq'⟩ := Option.map_eq_some_iff.1 hrun'
  obtain ⟨hstatus', hvalues'⟩ := Prod.mk.inj heq'
  have hfeas := ((solve_isFeasible homework).1 _ _ _ run h0 clear_homework hrun
    hstatus).2 keepsValues_homework
  have hnear := ((solve_isFeasible steep).1 _ _ _ run' h0 clear_steep hrun' hstatus').1
  rw [hvalues] at hfeas
  rw [hvalues'] at hnear
  exact ⟨⟨clear_homework, keepsValues_homework, run, hrun, hvalues, hfeas⟩, clear_steep, run',
    hrun', hvalues', hnear⟩

/-- With the tolerance and the number of iterations that are the default the
value of `steep` counts as zero, which its row does not admit. -/
theorem solve_not_feasible_steep :
    ∃ run, solve ⟨10000, 1 / 10 ^ 9⟩ 2 steep = some run ∧ run.solution.status = .optimal ∧
      steep.isFeasible run.solution.values (1 / 10 ^ 9) = false := by
  have hrun : (solve ⟨10000, 1 / 10 ^ 9⟩ 2 steep).map (fun r =>
      (r.solution.status, steep.isFeasible r.solution.values (1 / 10 ^ 9))) =
        some (.optimal, false) := by decide +kernel
  obtain ⟨run, hrun, heq⟩ := Option.map_eq_some_iff.1 hrun
  obtain ⟨hstatus, hfeas⟩ := Prod.mk.inj heq
  exact ⟨run, hrun, hstatus, hfeas⟩

/-! ## Ratios that are near each other -/

/-- Two rows whose ratios `2 * t` and `t` differ by the tolerance `t`. The
first one leaves, which puts the second one off by `a * t`. -/
def tied (t a : ℚ) : Problem ℚ where
  objective := [a]
  rows := [⟨[a], a * (2 * t)⟩, ⟨[a], a * t⟩]
  integer := [false]
  objective_ne_nil := List.cons_ne_nil _ _
  rows_ne_nil := List.cons_ne_nil _ _
  length_coefficients := by simp
  length_integer := rfl

/-- Pivoting on `tied` starts from here. -/
def tiedFirst (t a : ℚ) : Tableau ℚ :=
  ⟨[⟨⟨[a, 1, 0], a * (2 * t)⟩, 1⟩, ⟨⟨[a, 0, 1], a * t⟩, 2⟩], ⟨[-a, 0, 0], 0⟩, 3, 0⟩

/-- One pivot leads from there to here. -/
def tiedLast (t a : ℚ) : Tableau ℚ :=
  ⟨[⟨⟨[1, a⁻¹, 0], 2 * t⟩, 0⟩, ⟨⟨[0, -1, 1], -(a * t)⟩, 2⟩], ⟨[0, 1, 0], a * (2 * t)⟩, 3, 0⟩

section Tied

variable {t a : ℚ} (ht : 0 < t)
include ht

/-- In the last tableau no column can enter. -/
theorem move_tiedLast (rule : PivotRule) : move t rule (tiedLast t a) = .stop := by
  have hcosts : ∀ j, 0 ≤ (tiedLast t a).objective.entry j := by
    rintro (_ | _ | _ | j) <;> simp [tiedLast, Row.entry]
  cases hcol : (tiedLast t a).entering t rule with
  | none => rw [move, hcol]
  | some col =>
    have hneg := (Tableau.entering_eq_some hcol).2
    linarith [hcosts col]

variable (ha : t < a)
include ha

/-- No artificial variable is needed. -/
theorem ofProblem_tied : (Tableau.ofProblem (tied t a)).artificials = 0 ∧
    priceObjective (Tableau.ofProblem (tied t a)) (tied t a).objective = tiedFirst t a := by
  have ha0 : 0 < a := ht.trans ha
  have hrhs : ¬a * (2 * t) < 0 := not_lt.2 (by positivity)
  have hrhs' : ¬a * t < 0 := not_lt.2 (by positivity)
  simp [Tableau.ofProblem, tied, Tableau.equations, Tableau.isFlipped, hrhs, hrhs',
    Problem.numVariables, Problem.numRows, Scalar.unitList, List.replicate, priceObjective,
    tiedFirst, Tableau.width, Row.eliminate, Row.entry]

/-- The second row is lower by no more than the tolerance and comes later, so
that the first one leaves by both rules. -/
theorem leaving_tiedFirst (rule : PivotRule) : (tiedFirst t a).leaving t rule 0 = some 0 := by
  have ha0 : 0 < a := ht.trans ha
  have hcandidate : ∀ i basic rest b, 0 ≤ b →
      Tableau.candidate? t 0 i ⟨⟨a :: rest, a * b⟩, basic⟩ = some ⟨i, basic, b⟩ := by
    intro i basic rest b hb
    have hratio : a * b / a = b := mul_div_cancel_left₀ b ha0.ne'
    rw [Tableau.candidate?_of_lt (show t < a from ha), max_eq_left (mul_nonneg ha0.le hb)]
    change some (Tableau.Candidate.mk i basic (a * b / a)) = _
    rw [hratio]
  have hkept : ¬t < 2 * t - t := by linarith
  rw [Tableau.leaving, tiedFirst, Tableau.ratioTest_cons, Tableau.ratioTest_cons,
    hcandidate 0 1 _ _ (by linarith), hcandidate 1 2 _ _ ht.le]
  simp [Tableau.keep, Tableau.Candidate.beats, hkept, Tableau.ratioTest]

theorem move_tiedFirst (rule : PivotRule) : move t rule (tiedFirst t a) = .pivot 0 0 := by
  have hcol : (tiedFirst t a).entering t rule = some 0 := by
    have hlt : -a < -t := neg_lt_neg ha
    have hpos : ¬a < 0 := not_lt.2 (ht.trans ha).le
    cases rule <;>
      simp [Tableau.entering, tiedFirst, Tableau.lowestPlace, hlt, hpos, List.findIdx?_cons]
  rw [move, hcol]
  simp only [leaving_tiedFirst ht ha]

theorem pivot_tiedFirst : (tiedFirst t a).pivot 0 0 = tiedLast t a := by
  have hne : a ≠ 0 := (ht.trans ha).ne'
  have hrhs : a * t - a * (2 * t) = -(a * t) := by ring
  simp [tiedFirst, tiedLast, Tableau.pivot, Row.divide, Row.eliminate, Row.entry, Row.minusTimes,
    hne, hrhs]

theorem solve_tied (maxIterations : ℕ) :
    ∃ run, solve ⟨maxIterations, t⟩ 1 (tied t a) = some run ∧
      run.solution.status = .optimal ∧ run.solution.values = [2 * t] := by
  obtain ⟨hartificials, hpriced⟩ := ofProblem_tied ht ha
  have hfirst : feasibleTableau ⟨maxIterations, t⟩ 1 (Tableau.ofProblem (tied t a)) =
      some ⟨some (Tableau.ofProblem (tied t a)), []⟩ := by
    rw [feasibleTableau, if_pos hartificials]
  have hsecond : ∃ events, secondPhase ⟨maxIterations, t⟩ 1 (tied t a).objective
      (Tableau.ofProblem (tied t a)) = some ⟨.optimal, tiedLast t a, events⟩ := by
    have hmove := move_tiedFirst ht ha (ruleAfter ⟨maxIterations, t⟩ 0)
    have hlast : move t (ruleAfter ⟨maxIterations, t⟩ 1) (tiedLast t a) = .stop :=
      move_tiedLast ht _
    rw [← pivot_tiedFirst ht ha] at hlast ⊢
    rw [secondPhase, hpriced]
    exact ⟨_, optimize_of_pivot hmove (optimize_of_stop hlast)⟩
  obtain ⟨events, hsecond⟩ := hsecond
  -- the value is above the tolerance, so it stays
  have hsnap : snap t (2 * t) = 2 * t := by
    rw [snap, Scalar.abs_rat, abs_of_pos (by linarith), if_neg (by linarith)]
  have hvalues : basicValues t (tiedLast t a) 1 = [2 * t] := by
    simp [basicValues, tiedLast, hsnap]
  simp only [solve, hfirst, Option.bind_eq_bind, Option.bind_some, hsecond]
  exact ⟨_, rfl, rfl, hvalues⟩

end Tied

/-- **No factor serves all problems**, and no tolerance above zero is small
enough for all of them. -/
theorem exists_solve_not_feasible {tolerance : ℚ} (h : 0 < tolerance) (factor : ℚ)
    (maxIterations : ℕ) :
    ∃ p limit run, solve ⟨maxIterations, tolerance⟩ limit p = some run ∧
      run.solution.status = .optimal ∧
      p.isFeasible run.solution.values (factor * tolerance) = false := by
  obtain ⟨a, ha⟩ := exists_gt (max tolerance factor)
  obtain ⟨hat, haf⟩ := max_lt_iff.1 ha
  obtain ⟨run, hrun, hopt, hvalues⟩ := solve_tied h hat maxIterations
  refine ⟨tied tolerance a, 1, run, hrun, hopt, Bool.eq_false_iff.2 fun hfeas => ?_⟩
  obtain ⟨-, -, hrows⟩ := Problem.isFeasible_iff.1 hfeas
  have hrow := hrows ⟨[a], a * tolerance⟩ (by simp [tied])
  have hlhs : (⟨[a], a * tolerance⟩ : Row ℚ).lhs [2 * tolerance] = a * (2 * tolerance) := by
    simp [Row.lhs, Scalar.sumProducts_rat, dot_cons]
  rw [hvalues, hlhs] at hrow
  have hoff : factor * tolerance < a * tolerance := mul_lt_mul_of_pos_right haf h
  linarith

end Simplex

end Milp
