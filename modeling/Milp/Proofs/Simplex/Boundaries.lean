import Milp.Proofs.Simplex.Correctness
import Milp.Proofs.Simplex.Cycling
import Milp.Proofs.Simplex.Redundancy
import Milp.Proofs.Simplex.Resolution
/-!
# The tableau between two pivots

A run goes from one tableau to the next: a phase prices out its objective and
pivots, artificial variables are driven out row by row, and what can be dropped
is dropped before the second phase. `Boundary` is the tableaus that it comes by,
and every run comes by no others (`passed`). At each of them the tableau is
canonical and priced (`Boundary.holds`), by whatever tolerance the entries to
pivot on were chosen, and until something is dropped it says what the first
tableau says. Where the tolerance is `Clear` of the run, as zero always is, no
right-hand side ever becomes negative, also where rows are driven out on entries
of either sign: those rows have right-hand side zero (`Boundary.exact`).
-/

namespace Milp

/-! ## The first tableau -/

section FirstTableau

variable {p : Problem ℚ} {x slacks : List ℚ}

/-- **The first tableau at a point and slacks**, with artificial variables that
are zero: each row with its slack is an equation. -/
theorem Tableau.solves_ofProblem_append_iff (hx : x.length = p.numVariables)
    (hslacks : slacks.length = p.numRows) :
    (ofProblem p).Solves (fun j => (x ++ slacks).getD j 0) 1 ↔
      ∀ i r, p.rows[i]? = some r → r.lhs x + slacks.getD i 0 = r.rhs := by
  have hlength : (x ++ slacks).length = p.numVariables + p.numRows := by
    rw [List.length_append, hx, hslacks]
  rw [solves_ofProblem_iff fun j hj => List.getD_eq_default _ _ (hlength.trans_le hj)]
  refine forall₂_congr fun i r => imp_congr_right fun hr => ?_
  have hcoeff : r.coefficients.length = x.length :=
    (p.length_coefficients r (List.mem_of_getElem? hr)).trans hx.symm
  have hvalue : r.value (fun j => (x ++ slacks).getD j 0) = r.lhs x := by
    rw [Row.lhs_eq_value]
    exact dot_congr fun j hj => List.getD_append _ _ _ _ (hcoeff ▸ hj)
  have hslack : (x ++ slacks).getD (p.numVariables + i) 0 = slacks.getD i 0 := by
    rw [List.getD_append_right _ _ _ _ (hx.trans_le (Nat.le_add_right _ _)), hx,
      Nat.add_sub_cancel_left]
  dsimp only
  rw [hvalue, hslack, one_mul]

/-- **The rows hold where some slacks make up for what they leave.** -/
theorem Problem.rows_hold_iff (hx : x.length = p.numVariables) :
    (∀ r ∈ p.rows, r.lhs x ≤ r.rhs) ↔ ∃ slacks : List ℚ, slacks.length = p.numRows ∧
      (∀ v ∈ slacks, 0 ≤ v) ∧
      (Tableau.ofProblem p).Solves (fun j => (x ++ slacks).getD j 0) 1 := by
  constructor
  · intro hrows
    have hlength : (p.rows.map fun r => r.rhs - r.lhs x).length = p.numRows := List.length_map _
    refine ⟨_, hlength, List.forall_mem_map.2 fun r hr => sub_nonneg.2 (hrows r hr), ?_⟩
    refine (Tableau.solves_ofProblem_append_iff hx hlength).2 fun i r hr => ?_
    rw [List.getD_eq_getElem?_getD, List.getElem?_map, hr, Option.map_some, Option.getD_some]
    ring
  · rintro ⟨slacks, hlength, hnonneg, hsol⟩ r hr
    obtain ⟨i, hi⟩ := List.mem_iff_getElem?.1 hr
    have hlt : i < slacks.length := hlength.symm ▸ (List.getElem?_eq_some_iff.1 hi).1
    have hslack : 0 ≤ slacks.getD i 0 := by
      rw [List.getD_eq_getElem _ _ hlt]
      exact hnonneg _ (List.getElem_mem hlt)
    have heq := (Tableau.solves_ofProblem_append_iff hx hlength).1 hsol i r hi
    linarith

/-- **What a problem starts from**: an artificial variable for each negative
right-hand side and none below zero in the tableau, in which slacks make
equations of the rows. -/
structure Problem.Starts (p : Problem ℚ) (t : Tableau ℚ) : Prop where
  /-- There are as many artificial variables as negative right-hand sides. -/
  artificials_eq : t.artificials = p.rows.countP fun r => decide (r.rhs < 0)
  /-- The rows of those are the ones with an artificial variable. -/
  basic_iff : ∀ (i : ℕ) (r : Row ℚ) (e : BasicRow ℚ), p.rows[i]? = some r →
    t.rows[i]? = some e → (t.structural ≤ e.basic ↔ r.rhs < 0)
  /-- No right-hand side is negative. -/
  feasible : t.Feasible
  /-- At a point that is not negative the rows hold where some slacks solve the
  tableau with artificial variables that are zero. -/
  rows_hold_iff : ∀ x : List ℚ, x.length = p.numVariables → (∀ v ∈ x, 0 ≤ v) →
    ((∀ r ∈ p.rows, r.lhs x ≤ r.rhs) ↔ ∃ slacks : List ℚ, slacks.length = p.numRows ∧
      (∀ v ∈ slacks, 0 ≤ v) ∧ t.Solves (fun j => (x ++ slacks).getD j 0) 1)

theorem Problem.starts_ofProblem (p : Problem ℚ) : p.Starts (Tableau.ofProblem p) where
  artificials_eq := Tableau.artificials_ofProblem p
  basic_iff i r e hr he := by
    obtain ⟨r', hr', -, hi, -, rfl⟩ := Tableau.exists_of_mem_rows_ofProblem he
    cases hr.symm.trans hr'
    rw [Tableau.basic_equation, Tableau.structural_ofProblem, Tableau.isFlipped]
    by_cases hneg : r.rhs < 0
    · rw [if_pos (decide_eq_true hneg)]
      exact iff_of_true (Nat.le_add_right _ _) hneg
    · rw [if_neg (by simpa using hneg)]
      exact iff_of_false (by omega) hneg
  feasible := Tableau.feasible_ofProblem p
  rows_hold_iff _ hx _ := Problem.rows_hold_iff hx

end FirstTableau

namespace Simplex

/-! ## Boundaries -/

/-- Where a run is between two pivots. -/
inductive Phase where
  /-- The first phase, after some pivots. -/
  | first (pivots : ℕ)
  /-- Artificial variables have been driven out of the rows before `row`, all but
  the redundant ones. -/
  | drivingOut (row : ℕ) (redundant : List ℕ)
  /-- The second phase, after some pivots. -/
  | second (pivots : ℕ)

/-- **The tableaus between two pivots**, from where a phase prices out its
objective. -/
inductive Boundary {α : Type} [Scalar α] (cfg : Config α) (p : Problem α) :
    Phase → Tableau α → Prop
  /-- The first phase begins. -/
  | priced (hart : (Tableau.ofProblem p).artificials ≠ 0) :
    Boundary cfg p (.first 0) (priceArtificials (Tableau.ofProblem p))
  /-- There is a pivot in the first phase. -/
  | pivoted {k row col : ℕ} {t : Tableau α} (ht : Boundary cfg p (.first k) t)
    (hmove : move cfg.tolerance (ruleAfter cfg k) t = .pivot row col) :
    Boundary cfg p (.first (k + 1)) (t.pivot row col)
  /-- The first phase ends with success. -/
  | accepted {k : ℕ} {t : Tableau α} (ht : Boundary cfg p (.first k) t)
    (hmove : move cfg.tolerance (ruleAfter cfg k) t = .stop)
    (hcorner : ¬ cfg.tolerance < -t.corner) : Boundary cfg p (.drivingOut 0 []) t
  /-- The next row is driven out, or found redundant. -/
  | drivenOut {i : ℕ} {acc : Tableau α × List ℕ} (ht : Boundary cfg p (.drivingOut i acc.2) acc.1)
    (hi : i < acc.1.rows.length) :
    Boundary cfg p (.drivingOut (i + 1) (driveOutRow cfg.tolerance acc i).2)
      (driveOutRow cfg.tolerance acc i).1
  /-- The second phase begins without a first one. -/
  | direct (hart : (Tableau.ofProblem p).artificials = 0) :
    Boundary cfg p (.second 0) (priceObjective (Tableau.ofProblem p) p.objective)
  /-- The second phase begins with what is left when the redundant rows and the
  artificial columns are dropped. -/
  | cleared {redundant : List ℕ} {t : Tableau α}
    (ht : Boundary cfg p (.drivingOut t.rows.length redundant) t) :
    Boundary cfg p (.second 0)
      (priceObjective (dropArtificials (dropRows t redundant)) p.objective)
  /-- There is a pivot in the second phase. -/
  | pivotedAgain {k row col : ℕ} {t : Tableau α} (ht : Boundary cfg p (.second k) t)
    (hmove : move cfg.tolerance (ruleAfter cfg k) t = .pivot row col) :
    Boundary cfg p (.second (k + 1)) (t.pivot row col)

/-! ## Every run comes by boundaries only -/

section Runs

variable {α : Type} [Scalar α] {cfg : Config α} {p : Problem α} {s t : Tableau α}
variable {o : Optimized α} {f : Feasible α} {k n limit : ℕ}

/-- Pivots lead from boundary to boundary. -/
theorem Boundary.after {phase : ℕ → Phase}
    (hpivot : ∀ {k row col : ℕ} {t : Tableau α}, Boundary cfg p (phase k) t →
      move cfg.tolerance (ruleAfter cfg k) t = .pivot row col →
        Boundary cfg p (phase (k + 1)) (t.pivot row col))
    (ht : Boundary cfg p (phase 0) t) (h : after cfg t k = some s) :
    Boundary cfg p (phase k) s := by
  induction k generalizing s with
  | zero =>
    cases h
    exact ht
  | succ k ih =>
    obtain ⟨u, row, col, hu, hmove, rfl⟩ := after_succ_eq_some h
    exact hpivot (ih hu) hmove

/-- Driving out keeps the number of rows. -/
theorem length_rows_driveOut (tolerance : α) (t : Tableau α) (n : ℕ) :
    (driveOut tolerance t (List.range n)).1.rows.length = t.rows.length := by
  induction n with
  | zero => rfl
  | succ n ih =>
    rw [driveOut_range_succ, driveOutRow]
    split
    · exact ih
    · split
      · exact Tableau.length_rows_pivot.trans ih
      · exact ih

/-- So does driving out row by row. -/
theorem Boundary.driveOut (ht : Boundary cfg p (.drivingOut 0 []) t) (hn : n ≤ t.rows.length) :
    Boundary cfg p (.drivingOut n (driveOut cfg.tolerance t (List.range n)).2)
      (driveOut cfg.tolerance t (List.range n)).1 := by
  induction n with
  | zero => exact ht
  | succ n ih =>
    rw [driveOut_range_succ]
    refine .drivenOut (ih (Nat.le_of_succ_le hn)) ?_
    rw [length_rows_driveOut]
    exact hn

/-- A first phase that leaves a tableau has ended with success. -/
theorem accepted_of_concludeFirst {tolerance : α}
    (h : (concludeFirst tolerance o).tableau? = some t) :
    o.ending = .optimal ∧ ¬ tolerance < -o.tableau.corner := by
  unfold concludeFirst at h
  split at h
  · cases h
  · rename_i hend
    dsimp only at h
    split at h
    · cases h
    · exact ⟨hend, by assumption⟩

/-- The first phase ends at a boundary. -/
theorem boundary_of_optimize (hart : (Tableau.ofProblem p).artificials ≠ 0)
    (ho : optimize cfg limit 0 (priceArtificials (Tableau.ofProblem p)) = some o)
    (ht : (concludeFirst cfg.tolerance o).tableau? = some t) :
    Boundary cfg p (.drivingOut 0 []) o.tableau := by
  obtain ⟨hend, hcorner⟩ := accepted_of_concludeFirst ht
  have hlast : Boundary cfg p (.first (0 + o.pivots)) o.tableau :=
    Boundary.after .pivoted (.priced hart) (after_pivots rfl ho)
  rcases last_move_after_pivots ho with ⟨-, hmove⟩ | ⟨hunbounded, -⟩
  · exact .accepted hlast hmove hcorner
  · rw [hend] at hunbounded
    cases hunbounded

/-- The second phase begins at a boundary. -/
theorem boundary_of_feasibleTableau
    (hf : feasibleTableau cfg limit (Tableau.ofProblem p) = some f) (ht : f.tableau? = some t) :
    Boundary cfg p (.second 0) (priceObjective t p.objective) := by
  unfold feasibleTableau at hf
  split at hf
  · rename_i hart
    cases hf
    cases ht
    exact .direct hart
  · rename_i hart
    obtain ⟨o, ho, rfl⟩ := Option.map_eq_some_iff.1 hf
    have hswept := (boundary_of_optimize hart ho ht).driveOut le_rfl
    have hlength := length_rows_driveOut cfg.tolerance o.tableau o.tableau.rows.length
    obtain ⟨acc, hacc, rfl⟩ := tableau?_concludeFirst ht
    rw [← hacc] at hswept hlength
    rw [← hlength] at hswept
    exact .cleared hswept

/-- **An optimum is read off the last boundary** of the second phase. -/
theorem exists_boundary_of_solve {run : Run α} (h : solve cfg limit p = some run)
    (hopt : run.solution.status = .optimal) :
    ∃ f t o, feasibleTableau cfg limit (Tableau.ofProblem p) = some f ∧ f.tableau? = some t ∧
      optimize cfg limit 0 (priceObjective t p.objective) = some o ∧
      Boundary cfg p (.second o.pivots) o.tableau ∧
      move cfg.tolerance (ruleAfter cfg o.pivots) o.tableau = .stop ∧
      run.solution.values = basicValues cfg.tolerance o.tableau p.numVariables := by
  obtain ⟨f, hf, ⟨-, hsol, -⟩ | ⟨t, o, ht, ho, hsol, -⟩⟩ := solve_cases h
  · rw [hsol] at hopt
    cases hopt
  have hlast := Boundary.after .pivotedAgain (boundary_of_feasibleTableau hf ht)
    (after_pivots rfl ho)
  have hmove := last_move_after_pivots ho
  rw [Nat.zero_add] at hlast hmove
  refine ⟨f, t, o, hf, ht, ho, hlast, ?_, hsol ▸ values_extract ..⟩
  rcases hmove with ⟨-, hstop⟩ | ⟨hend, -⟩
  · exact hstop
  · rw [hsol, extract, hend] at hopt
    cases hopt

/-- **A run passes boundaries only.** -/
structure Passed (cfg : Config α) (p : Problem α) : Prop where
  /-- In the first phase, after every pivot. -/
  first : (Tableau.ofProblem p).artificials ≠ 0 → ∀ k s,
    after cfg (priceArtificials (Tableau.ofProblem p)) k = some s → Boundary cfg p (.first k) s
  /-- After that, row by row. -/
  drivingOut : (Tableau.ofProblem p).artificials ≠ 0 → ∀ limit o t,
    optimize cfg limit 0 (priceArtificials (Tableau.ofProblem p)) = some o →
    (concludeFirst cfg.tolerance o).tableau? = some t → ∀ n ≤ o.tableau.rows.length,
      Boundary cfg p (.drivingOut n (driveOut cfg.tolerance o.tableau (List.range n)).2)
        (driveOut cfg.tolerance o.tableau (List.range n)).1
  /-- In the second phase, after every pivot. -/
  second : ∀ limit f t, feasibleTableau cfg limit (Tableau.ofProblem p) = some f →
    f.tableau? = some t → ∀ k s, after cfg (priceObjective t p.objective) k = some s →
      Boundary cfg p (.second k) s

theorem passed (cfg : Config α) (p : Problem α) : Passed cfg p where
  first hart _ _ h := Boundary.after .pivoted (.priced hart) h
  drivingOut hart _ _ _ ho ht _ hn := (boundary_of_optimize hart ho ht).driveOut hn
  second _ _ _ hf ht _ _ h :=
    Boundary.after .pivotedAgain (boundary_of_feasibleTableau hf ht) h

end Runs

variable {p : Problem ℚ} {s t : Tableau ℚ} {acc : Tableau ℚ × List ℕ} {r : BasicRow ℚ}
variable {phase : Phase} {tolerance : ℚ} {n maxIterations limit : ℕ}

/-! ## What holds with any tolerance -/

/-- **What is known at a boundary.** -/
def Phase.Holds (p : Problem ℚ) : Phase → Tableau ℚ → Prop
  | first _, t => (Tableau.ofProblem p).artificials ≠ 0 ∧
      Form (priceArtificials (Tableau.ofProblem p)) t
  | drivingOut i redundant, t => (Tableau.ofProblem p).artificials ≠ 0 ∧
      Form (priceArtificials (Tableau.ofProblem p)) t ∧ i ≤ t.rows.length ∧
      Swept i (t, redundant)
  | second _, t => ∃ s, Start p s ∧ Form s t ∧ ((Tableau.ofProblem p).artificials = 0 →
      s = priceObjective (Tableau.ofProblem p) p.objective)

/-- **Every step of a run keeps it.** -/
theorem Boundary.holds (h0 : 0 ≤ tolerance) (h : Boundary ⟨maxIterations, tolerance⟩ p phase t) :
    phase.Holds p t := by
  induction h with
  | priced hart => exact ⟨hart, form_first p⟩
  | pivoted _ hmove ih => exact ⟨ih.1, form_of_move h0 ih.2 hmove⟩
  | accepted _ _ _ ih => exact ⟨ih.1, ih.2, Nat.zero_le _, .zero _⟩
  | drivenOut _ hi ih =>
    obtain ⟨hart, hform, -, hswept⟩ := ih
    have hr := List.getElem?_eq_getElem hi
    have hnext := form_driveOutRow h0 hform hr
    refine ⟨hart, hnext, ?_, hswept.driveOutRow hr⟩
    rw [hnext.equivalent.length_rows_eq, ← hform.equivalent.length_rows_eq]
    exact hi
  | direct hart =>
    exact ⟨_, .direct hart, (Start.direct hart).form, fun _ => rfl⟩
  | cleared _ ih =>
    obtain ⟨hart, hform, -, hswept⟩ := ih
    have hstart : Start p (priceObjective (dropArtificials (dropRows _ _)) p.objective) :=
      .cleared hform (foldl_eraseIdx_sublist _ _) hswept.basic_lt_dropRows
    exact ⟨_, hstart, hstart.form, fun hzero => absurd hzero hart⟩
  | pivotedAgain _ hmove ih =>
    obtain ⟨s, hs, hform, hdirect⟩ := ih
    exact ⟨s, hs, form_of_move h0 hform hmove, hdirect⟩

/-- At every boundary the tableau is a form of another one. -/
theorem Phase.Holds.exists_form (h : phase.Holds p t) : ∃ s, Form s t := by
  cases phase with
  | first k => exact ⟨_, h.2⟩
  | drivingOut i redundant => exact ⟨_, h.2.1⟩
  | second k =>
    obtain ⟨s, -, hform, -⟩ := h
    exact ⟨s, hform⟩

/-- **Until rows or columns are dropped** the tableau is solved by what solves
the first one. -/
theorem Phase.Holds.solves_iff (h : phase.Holds p t)
    (hkept : (∀ k, phase ≠ .second k) ∨ (Tableau.ofProblem p).artificials = 0) (x : ℕ → ℚ) :
    t.Solves x 1 ↔ (Tableau.ofProblem p).Solves x 1 := by
  cases phase with
  | first k => exact h.2.equivalent.solves_iff x 1
  | drivingOut i redundant => exact h.2.1.equivalent.solves_iff x 1
  | second k =>
    obtain ⟨s, -, hform, hdirect⟩ := h
    have hs := hdirect (hkept.resolve_left fun hne => hne k rfl)
    subst hs
    exact hform.equivalent.solves_iff x 1

/-- **No row is redundant** on the way, and artificial columns mirror others. -/
def Phase.Kept : Phase → Tableau ℚ → Prop
  | first _, t => t.Mirrored
  | drivingOut _ redundant, t => t.Mirrored ∧ redundant = []
  | second _, _ => True

/-- **Tolerances below one keep every row.** -/
theorem Boundary.kept (h0 : 0 ≤ tolerance) (h1 : tolerance < 1)
    (h : Boundary ⟨maxIterations, tolerance⟩ p phase t) : phase.Kept t := by
  induction h with
  | priced hart => exact Tableau.mirrored_ofProblem p
  | pivoted ht hmove ih =>
    obtain ⟨-, hrow⟩ := move_eq_pivot hmove
    obtain ⟨r, hr, -⟩ := Tableau.leaving_eq_some hrow
    exact ih.pivot (ht.holds h0).2.toShaped hr
  | accepted _ _ _ ih => exact ⟨ih, rfl⟩
  | @drivenOut i acc ht hi ih =>
    obtain ⟨hmir, hnil⟩ := ih
    obtain ⟨u, q, hu, hdriven, -⟩ := driveOutRow_spec (ht.holds h0).2.1.toCanonical hmir h0 h1
      (List.getElem?_eq_getElem hi) acc.2
    change driveOutRow tolerance acc i = (u, acc.2) at hu
    rw [hu]
    exact ⟨hdriven.mirrored, hnil⟩
  | direct hart => trivial
  | cleared ht ih => trivial
  | pivotedAgain _ _ ih => trivial

/-! ## What holds where the tolerance decides nothing -/

/-- **The tolerance is clear of a run**: what counts as zero in it is zero, as far
as it matters to whether a point is feasible. -/
structure Clear (cfg : Config ℚ) (p : Problem ℚ) : Prop where
  /-- The tolerance stays out of the ratio test of every pivot. -/
  ratios : ∀ phase k t col, Boundary cfg p phase t → phase = .first k ∨ phase = .second k →
    t.entering cfg.tolerance (ruleAfter cfg k) = some col → ClearRatios cfg.tolerance col t
  /-- The first phase does not end with success while artificial variables
  remain. -/
  corner : ∀ k t, Boundary cfg p (.first k) t →
    move cfg.tolerance (ruleAfter cfg k) t = .stop → 0 < -t.corner → cfg.tolerance < -t.corner
  /-- No row is found redundant. None ever is with a tolerance below one. -/
  kept : ∀ i redundant t, Boundary cfg p (.drivingOut i redundant) t → redundant = []

/-- Tolerance zero is clear of every run. -/
theorem clear_zero (p : Problem ℚ) (maxIterations : ℕ) : Clear ⟨maxIterations, 0⟩ p where
  ratios _ _ _ _ _ _ _ :=
    ⟨fun _ _ hpos => hpos, fun _ _ _ _ _ _ _ hlt => (add_zero _).trans_lt hlt⟩
  corner _ _ _ _ hpos := hpos
  kept _ _ _ ht := (ht.kept le_rfl zero_lt_one).2

theorem Form.ready (h : Form s t) (hf : t.Feasible) : Ready t :=
  { h with feasible := hf }

/-- **A row that is driven out has right-hand side zero**, whatever the sign of
the entry. -/
theorem Settled.driveOutRow (hs : Settled acc.1) (ht : acc.1.Shaped)
    (hr : acc.1.rows[n]? = some r) : Settled (driveOutRow tolerance acc n).1 := by
  unfold Simplex.driveOutRow
  rw [getD_basis hr]
  split
  · exact hs
  · rename_i hb
    cases replacement? tolerance acc.1 n with
    | some col => exact hs.pivot ht hr (hs.2 r (List.mem_of_getElem? hr) (not_lt.1 hb))
    | none => exact hs

/-- Rows and columns that are dropped leave the other right-hand sides. -/
theorem feasible_dropArtificials_dropRows (hf : t.Feasible) (redundant : List ℕ) :
    (dropArtificials (dropRows t redundant)).Feasible := by
  intro q hq
  obtain ⟨r, hr, rfl⟩ := mem_rows_dropArtificials hq
  exact hf r ((foldl_eraseIdx_sublist redundant t.rows).subset hr)

/-- **What is known where the tolerance is clear**: the tableau is feasible, and
settled where artificial variables are driven out. -/
def Phase.Exact : Phase → Tableau ℚ → Prop
  | drivingOut _ _, t => Settled t
  | _, t => t.Feasible

theorem Phase.Exact.feasible (h : phase.Exact t) : t.Feasible := by
  cases phase with
  | first k => exact h
  | drivingOut i redundant => exact h.1
  | second k => exact h

/-- **Every step of a run that the tolerance is clear of keeps it.** -/
theorem Boundary.exact (h0 : 0 ≤ tolerance) (hc : Clear ⟨maxIterations, tolerance⟩ p)
    (h : Boundary ⟨maxIterations, tolerance⟩ p phase t) : phase.Exact t := by
  induction h with
  | priced hart => exact Tableau.feasible_ofProblem p
  | pivoted ht hmove ih =>
    obtain ⟨hcol, hrow⟩ := move_eq_pivot hmove
    exact (hc.ratios _ _ _ _ ht (.inl rfl) hcol).feasible_pivot h0 (ht.holds h0).2.toShaped ih hrow
  | accepted ht hmove hcorner ih =>
    have hform := (ht.holds h0).2
    exact settled_of_ready (Tableau.canonical_ofProblem p) (hform.ready ih) hform.equivalent
      (not_lt.1 fun hpos => hcorner (hc.corner _ _ ht hmove hpos))
  | drivenOut ht hi ih =>
    exact ih.driveOutRow (ht.holds h0).2.1.toShaped (List.getElem?_eq_getElem hi)
  | direct hart => exact Tableau.feasible_ofProblem p
  | cleared ht ih => exact feasible_dropArtificials_dropRows ih.1 _
  | pivotedAgain ht hmove ih =>
    obtain ⟨hcol, hrow⟩ := move_eq_pivot hmove
    obtain ⟨s, -, hform, -⟩ := ht.holds h0
    exact (hc.ratios _ _ _ _ ht (.inr rfl) hcol).feasible_pivot h0 hform.toShaped ih hrow

/-- **What the second phase starts from describes the problem**, where no row is
dropped. -/
theorem Clear.describes {f : Feasible ℚ} (hc : Clear ⟨maxIterations, tolerance⟩ p)
    (h0 : 0 ≤ tolerance)
    (hf : feasibleTableau ⟨maxIterations, tolerance⟩ limit (Tableau.ofProblem p) = some f)
    (ht : f.tableau? = some t) : Describes p t := by
  unfold feasibleTableau at hf
  split at hf
  · rename_i hart
    cases hf
    cases ht
    exact describes_ofProblem hart
  · rename_i hart
    obtain ⟨o, ho, rfl⟩ := Option.map_eq_some_iff.1 hf
    have hlast := (boundary_of_optimize hart ho ht).driveOut le_rfl
    obtain ⟨acc, hacc, rfl⟩ := tableau?_concludeFirst ht
    rw [← hacc] at hlast
    obtain ⟨-, hform, hle, hswept⟩ := hlast.holds h0
    have hnil : acc.2 = [] := hc.kept _ _ _ hlast
    have hlength : o.tableau.rows.length = acc.1.rows.length :=
      (length_rows_driveOut tolerance _ _).symm.trans (by rw [hacc])
    rw [hnil, hlength] at hswept
    rw [hnil]
    exact describes_dropArtificials hform.toCanonical hform.equivalent hswept.basic_lt_of_nil

/-! ## What holds with tolerance zero -/

/-- At every boundary with tolerance zero pivoting can go on. -/
theorem Boundary.ready (h : Boundary ⟨maxIterations, 0⟩ p phase t) : Ready t := by
  obtain ⟨s, hform⟩ := (h.holds le_rfl).exists_form
  exact hform.ready (h.exact le_rfl (clear_zero p maxIterations)).feasible

/-- **The corner never decreases.** -/
theorem Boundary.corner_le {rule : PivotRule} {row col : ℕ}
    (h : Boundary ⟨maxIterations, 0⟩ p phase t) (hmove : move 0 rule t = .pivot row col) :
    t.corner ≤ (t.pivot row col).corner := by
  obtain ⟨r, hp⟩ := h.ready.pivots hmove
  exact hp.corner_le h.ready

/-- **The first phase never finds that it grows without end.** -/
theorem Boundary.move_ne_unbounded {rule : PivotRule} {k col : ℕ}
    (h : Boundary ⟨maxIterations, 0⟩ p (.first k) t) : move 0 rule t ≠ .unbounded col :=
  move_first_ne_unbounded (Tableau.canonical_ofProblem p) h.ready (h.holds le_rfl).2.equivalent

/-! ## Canonical form -/

/-- **The tableau is canonical at every boundary** of a run with any tolerance:
the basic columns are unit columns, also in the objective row, and until
something is dropped the tableau is solved by what solves the first one. With
tolerance zero no right-hand side is ever negative, no pivot of a phase lowers
the corner, and the first phase never finds that it grows without end. -/
theorem boundary_canonical (p : Problem ℚ) (maxIterations : ℕ) {tolerance : ℚ}
    (h0 : 0 ≤ tolerance) :
    p.Starts (Tableau.ofProblem p) ∧
    Passed ⟨maxIterations, tolerance⟩ p ∧
    (∀ phase t, Boundary ⟨maxIterations, tolerance⟩ p phase t →
      t.basis.Nodup ∧ t.Canonical ∧ t.Priced ∧
      ((∀ k, phase ≠ .second k) ∨ (Tableau.ofProblem p).artificials = 0 →
        ∀ x, t.Solves x 1 ↔ (Tableau.ofProblem p).Solves x 1)) ∧
    (tolerance = 0 →
      (∀ phase t, Boundary ⟨maxIterations, tolerance⟩ p phase t → t.Feasible) ∧
      (∀ phase t k row col, Boundary ⟨maxIterations, tolerance⟩ p phase t →
        phase = .first k ∨ phase = .second k →
        move tolerance (ruleAfter ⟨maxIterations, tolerance⟩ k) t = .pivot row col →
          t.corner ≤ (t.pivot row col).corner) ∧
      ∀ k t col, Boundary ⟨maxIterations, tolerance⟩ p (.first k) t →
        move tolerance (ruleAfter ⟨maxIterations, tolerance⟩ k) t ≠ .unbounded col) := by
  refine ⟨p.starts_ofProblem, passed _ p, fun phase t ht => ?_, ?_⟩
  · have hholds := ht.holds h0
    obtain ⟨s, hform⟩ := hholds.exists_form
    exact ⟨hform.basis_nodup, hform.toCanonical, hform.priced, hholds.solves_iff⟩
  · rintro rfl
    exact ⟨fun _ _ ht => ht.ready.feasible, fun _ _ _ _ _ ht _ hmove => ht.corner_le hmove,
      fun _ _ _ ht => ht.move_ne_unbounded⟩

/-- On `pinned` two artificial variables are driven out one after the other, and
each of the four tableaus on the way is canonical and has no right-hand side
below zero. -/
theorem boundary_canonical_pinned :
    ∃ o, optimize ⟨10, 0⟩ 9 0 (priceArtificials (Tableau.ofProblem pinned)) = some o ∧
      o.tableau.basis = [0, 4, 5] ∧
      (driveOut 0 o.tableau (List.range 3)).1.basis = [0, 1, 2] ∧
      ∀ n ≤ 3, ∃ t, (driveOut 0 o.tableau (List.range n)).1 = t ∧
        t.basis.Nodup ∧ t.Canonical ∧ t.Priced ∧ t.Feasible ∧
        ∀ x, t.Solves x 1 ↔ (Tableau.ofProblem pinned).Solves x 1 := by
  obtain ⟨-, hpassed, hcanonical, hexact⟩ := boundary_canonical pinned 10 (le_refl (0 : ℚ))
  obtain ⟨o, ho, hbasis⟩ := Option.map_eq_some_iff.1
    (show (optimize ⟨10, 0⟩ 9 0 (priceArtificials (Tableau.ofProblem pinned))).map
      (fun o => (o.tableau.basis, (driveOut 0 o.tableau (List.range 3)).1.basis,
        (concludeFirst 0 o).tableau?.isSome)) = some ([0, 4, 5], [0, 1, 2], true) by
      decide +kernel)
  obtain ⟨hlast, hdriven, hleft⟩ := by simpa only [Prod.mk.injEq] using hbasis
  obtain ⟨left, hleft⟩ := Option.isSome_iff_exists.1 hleft
  have hlength : o.tableau.rows.length = 3 := by
    simpa [Tableau.basis] using congrArg List.length hlast
  refine ⟨o, ho, hlast, hdriven, fun n hn => ⟨_, rfl, ?_⟩⟩
  have ht := hpassed.drivingOut (by decide) 9 o left ho hleft n (hlength ▸ hn)
  obtain ⟨hnodup, hcan, hpriced, hsolves⟩ := hcanonical _ _ ht
  exact ⟨hnodup, hcan, hpriced, (hexact rfl).1 _ _ ht, hsolves (.inl fun k hk => by cases hk)⟩

end Simplex

end Milp
