import Milp.Number.Double
import Milp.Proofs.Storage.Simplex
/-!
# The simplex method stays in bounds

A run of the method visits tableaus, one after every pivot, every row that is
driven out and every row that is removed (`StoredProblem.Visits`). Each of them
holds a tableau of the right shape, in which no artificial variable is basic once
the first phase has succeeded (`Visits.exists_tableau`). So whatever comparisons
say about values that are no numbers, all rows are equally long, the basic
columns are columns, and every index that is taken is in range
(`solve_in_bounds`).
-/

namespace Milp

open Storage

/-- **The shape of a stored tableau** with so many columns. -/
structure StoredTableau.Shaped {α : Type} (t : StoredTableau α) (cols : ℕ) : Prop where
  /-- All rows are equally long. -/
  length_of_mem : ∀ row ∈ t.data, row.length = cols
  /-- There is a basic column for every row but the last. -/
  length_data : t.data.length = t.basicVars.length + 1
  /-- The basic columns come before the last one. -/
  basic_lt : ∀ j ∈ t.basicVars, j < cols - 1

/-- What is kept of a tableau has its shape. -/
theorem Tableau.Shaped.stored {α : Type} {t : Tableau α} (ht : t.Shaped) (n m : ℕ) :
    (t.stored n m).Shaped (t.width + 1) where
  length_of_mem line hline := by
    obtain ⟨q, hq, rfl⟩ := List.mem_map.1 hline
    rw [Row.length_stored, ht.length_of_mem_lines hq]
  length_data := by
    rw [length_data_stored]
    simp [Tableau.stored, basis]
  basic_lt j hj := by
    obtain ⟨r, hr, rfl⟩ := List.mem_map.1 hj
    exact ht.basic_lt r hr

namespace StoredProblem

/-! ## What a run visits -/

/-- Where a run is between two operations on its tableau. -/
inductive Stage where
  /-- The first tableau has been made. -/
  | built
  /-- The first phase, after some pivots. -/
  | first (pivots : ℕ)
  /-- Artificial variables have been driven out of the rows before `row`, all but
  the redundant ones. -/
  | drivingOut (row : ℕ) (redundant : List ℕ)
  /-- These rows are still to be removed. -/
  | removing (redundant : List ℕ)
  /-- There are no artificial variables. -/
  | feasible
  /-- The second phase, after some pivots. -/
  | second (pivots : ℕ)

/-- The first phase has succeeded, or was not needed, and the rows that were
redundant are gone. -/
def Stage.Succeeded : Stage → Prop
  | removing [] => True
  | feasible => True
  | second _ => True
  | _ => False

variable {α : Type} [Scalar α]

/-- **A run visits a tableau** at a stage. -/
inductive Visits (b : Build) (cfg : Simplex.Config α) (p : StoredProblem α) :
    Stage → StoredTableau α → Prop where
  /-- The first tableau is made. -/
  | built {t : StoredTableau α} (h : StoredTableau.build b p = .ok t) : Visits b cfg p .built t
  /-- The first phase is needed. -/
  | priced {s t : StoredTableau α} (hs : Visits b cfg p .built s) (hart : s.numArtificials ≠ 0)
      (h : s.priceArtificials b = .ok t) : Visits b cfg p (.first 0) t
  /-- There is a pivot in the first phase. -/
  | pivoted {k row col : ℕ} {s t : StoredTableau α} (hs : Visits b cfg p (.first k) s)
      (hmove : s.move b cfg.tolerance (Simplex.ruleAfter cfg k) = .ok (.pivot row col))
      (h : s.pivot row col = .ok t) : Visits b cfg p (.first (k + 1)) t
  /-- The first phase ends with success. -/
  | accepted {k : ℕ} {v : α} {t : StoredTableau α} (ht : Visits b cfg p (.first k) t)
      (hmove : t.move b cfg.tolerance (Simplex.ruleAfter cfg k) = .ok .stop)
      (hcorner : t.corner b = .ok v) (hv : ¬ cfg.tolerance < -v) :
      Visits b cfg p (.drivingOut 0 []) t
  /-- The next row is driven out, or found redundant. -/
  | drivenOut {i last start : ℕ} {redundant redundant' : List ℕ} {s t : StoredTableau α}
      (hs : Visits b cfg p (.drivingOut i redundant) s) (hlast : s.objectiveRow b = .ok last)
      (hi : i < last) (hstart : s.artificialStart b = .ok start)
      (h : StoredTableau.driveOutRow cfg.tolerance start (s, redundant) i = .ok (t, redundant')) :
      Visits b cfg p (.drivingOut (i + 1) redundant') t
  /-- All rows have been driven out. -/
  | swept {last : ℕ} {redundant : List ℕ} {t : StoredTableau α}
      (ht : Visits b cfg p (.drivingOut last redundant) t) (hlast : t.objectiveRow b = .ok last) :
      Visits b cfg p (.removing redundant) t
  /-- A redundant row is removed. -/
  | removed {i : ℕ} {redundant : List ℕ} {s t : StoredTableau α}
      (hs : Visits b cfg p (.removing (i :: redundant)) s) (h : s.removeRow i = .ok t) :
      Visits b cfg p (.removing redundant) t
  /-- The artificial columns are dropped. -/
  | dropped {s t : StoredTableau α} (hs : Visits b cfg p (.removing []) s)
      (h : s.dropArtificials b = .ok t) : Visits b cfg p .feasible t
  /-- The first phase is not needed. -/
  | direct {t : StoredTableau α} (ht : Visits b cfg p .built t) (hart : t.numArtificials = 0) :
      Visits b cfg p .feasible t
  /-- The second phase begins. -/
  | pricedAgain {s t : StoredTableau α} (hs : Visits b cfg p .feasible s)
      (h : s.priceObjective b p.objective.data = .ok t) : Visits b cfg p (.second 0) t
  /-- There is a pivot in the second phase. -/
  | pivotedAgain {k row col : ℕ} {s t : StoredTableau α} (hs : Visits b cfg p (.second k) s)
      (hmove : s.move b cfg.tolerance (Simplex.ruleAfter cfg k) = .ok (.pivot row col))
      (h : s.pivot row col = .ok t) : Visits b cfg p (.second (k + 1)) t

/-! ## What is visited -/

/-- What is known of a tableau at a stage. -/
def Stage.Holds : Stage → Tableau α → Prop
  | built, _ => True
  | first _, _ => True
  | drivingOut i redundant, t => i ≤ t.rows.length ∧ Simplex.Swept i (t, redundant)
  | removing redundant, t => Simplex.Swept t.rows.length (t, redundant)
  | feasible, t => t.artificials = 0
  | second _, t => t.artificials = 0

variable {b : Build} {cfg : Simplex.Config α} {p : Problem α} {stage : Stage}

/-- **Every visited tableau holds a tableau** that can be kept, with what is known
of it at that stage. -/
theorem Visits.exists_tableau (h : p.Fits) {t : StoredTableau α}
    (ht : Visits b cfg p.stored stage t) :
    ∃ s : Tableau α, t = s.stored p.numVariables p.numRows ∧
      s.Storable p.numVariables p.numRows ∧ s.rows.length ≤ p.numRows ∧ stage.Holds s := by
  induction ht with
  | built hbuilt =>
    rw [Problem.build_stored h] at hbuilt
    split at hbuilt
    · rename_i hfits
      cases hbuilt
      exact ⟨_, rfl, hfits.storable, (Tableau.length_rows_ofProblem p).le, trivial⟩
    · cases hbuilt
  | priced _ _ hpriced ih =>
    obtain ⟨s, rfl, hs, hrows, -⟩ := ih
    cases hs.priceArtificials_stored.symm.trans hpriced
    exact ⟨_, rfl, hs.priceArtificials, hrows, trivial⟩
  | pivoted _ hmove hpivot ih =>
    obtain ⟨s, rfl, hs, hrows, -⟩ := ih
    have hm := Except.ok.inj ((Tableau.move_stored hs.toShaped _ _ _ _).symm.trans hmove)
    cases (hs.pivot_of_move hm).symm.trans hpivot
    exact ⟨_, rfl, hs.of_move hm, Tableau.length_rows_pivot.trans_le hrows, trivial⟩
  | accepted _ _ _ _ ih =>
    obtain ⟨s, rfl, hs, hrows, -⟩ := ih
    exact ⟨s, rfl, hs, hrows, Nat.zero_le _, .zero s⟩
  | @drivenOut i _ _ redundant _ _ _ _ hlast hi hstart hdriven ih =>
    obtain ⟨s, rfl, hs, hrows, hle, hswept⟩ := ih
    cases (Tableau.objectiveRow_stored s _ _).symm.trans hlast
    cases hs.artificialStart_stored.symm.trans hstart
    have hr := List.getElem?_eq_getElem hi
    have hshape : (s, redundant).1.Shaped := hs.toShaped
    cases (Tableau.driveOutRow_stored hshape hr _ _ _).symm.trans hdriven
    obtain ⟨hshaped, hsame⟩ := Simplex.shaped_driveOutRow cfg.tolerance hshape hr
    exact ⟨_, rfl, hs.of_sameSize hshaped hsame, hsame.length_rows_eq.trans_le hrows,
      hsame.length_rows_eq.symm ▸ hi, hswept.driveOutRow hr⟩
  | swept _ hlast ih =>
    obtain ⟨s, rfl, hs, hrows, -, hswept⟩ := ih
    cases (Tableau.objectiveRow_stored s _ _).symm.trans hlast
    exact ⟨s, rfl, hs, hrows, hswept⟩
  | removed _ hremoved ih =>
    obtain ⟨s, rfl, hs, hrows, hswept⟩ := ih
    have hi := hswept.lt _ List.mem_cons_self
    cases (Tableau.removeRow_stored hi _ _).symm.trans hremoved
    exact ⟨_, rfl, hs.dropRows [_], (List.eraseIdx_sublist _ _).length_le.trans hrows,
      hswept.eraseIdx⟩
  | dropped _ hdropped ih =>
    obtain ⟨s, rfl, hs, hrows, hswept⟩ := ih
    cases hs.dropArtificials_stored.symm.trans hdropped
    exact ⟨_, rfl, hs.dropArtificials hswept.basic_lt_of_nil,
      (List.length_map _).trans_le hrows, rfl⟩
  | direct _ hart ih =>
    obtain ⟨s, rfl, hs, hrows, -⟩ := ih
    exact ⟨s, rfl, hs, hrows, hart⟩
  | pricedAgain _ hpriced ih =>
    obtain ⟨s, rfl, hs, hrows, hart⟩ := ih
    rw [show p.stored.objective.data = p.objective from Problem.data_objectiveMatrix p] at hpriced
    have hlen := Problem.length_objective_le hs
    cases (hs.priceObjective_stored hlen).symm.trans hpriced
    exact ⟨_, rfl, hs.priceObjective hlen, hrows, hart⟩
  | pivotedAgain _ hmove hpivot ih =>
    obtain ⟨s, rfl, hs, hrows, hart⟩ := ih
    have hm := Except.ok.inj ((Tableau.move_stored hs.toShaped _ _ _ _).symm.trans hmove)
    cases (hs.pivot_of_move hm).symm.trans hpivot
    exact ⟨_, rfl, hs.of_move hm, Tableau.length_rows_pivot.trans_le hrows,
      Tableau.artificials_pivot.trans hart⟩

omit [Scalar α] in
/-- **After the first phase no artificial variable is basic.** -/
theorem Stage.Holds.basic_lt {t : Tableau α} (h : stage.Holds t) (hstage : stage.Succeeded)
    (ht : t.Shaped) : ∀ r ∈ t.rows, r.basic < t.structural := by
  have hwidth : t.artificials = 0 → ∀ r ∈ t.rows, r.basic < t.structural := by
    intro hart r hr
    have hlt := ht.basic_lt r hr
    rwa [Tableau.width, hart, Nat.add_zero] at hlt
  cases stage with
  | built => exact hstage.elim
  | first pivots => exact hstage.elim
  | drivingOut row redundant => exact hstage.elim
  | removing redundant =>
    cases redundant with
    | nil => exact Simplex.Swept.basic_lt_of_nil h
    | cons i redundant => exact hstage.elim
  | feasible => exact hwidth h
  | second pivots => exact hwidth h

/-! ## What the answer is read off -/

section Answers

variable {s t : Tableau α} {limit : ℕ}

/-- All pivots of a phase are visited, up to the last move, which is no pivot. -/
theorem Visits.optimize (phase : ℕ → Stage)
    (hphase : ∀ k row col u v, Visits b cfg p.stored (phase k) u →
      u.move b cfg.tolerance (Simplex.ruleAfter cfg k) = .ok (.pivot row col) →
      u.pivot row col = .ok v → Visits b cfg p.stored (phase (k + 1)) v)
    {k : ℕ} (ht : t.Storable p.numVariables p.numRows)
    (hvisits : Visits b cfg p.stored (phase k) (t.stored p.numVariables p.numRows))
    {o : Simplex.Optimized α} (h : Simplex.optimize cfg limit k t = some o) :
    ∃ l, Visits b cfg p.stored (phase l) (o.tableau.stored p.numVariables p.numRows) ∧
      (o.ending = .optimal →
        Simplex.move cfg.tolerance (Simplex.ruleAfter cfg l) o.tableau = .stop) := by
  induction limit using Nat.strongRecOn generalizing k t o with
  | ind limit ih =>
    rcases Simplex.optimize_cases h with ⟨htab, -, hlast⟩ |
      ⟨row, col, limit', o', hlimit, hm, ho', htab, hend, -⟩
    · rw [htab]
      refine ⟨k, hvisits, fun hoptimal => ?_⟩
      rcases hlast with ⟨-, hm⟩ | ⟨hunbounded, -⟩
      · exact hm
      · cases hoptimal.symm.trans hunbounded
    · rw [htab, hend]
      have hmove := (Tableau.move_stored (b := b) ht.toShaped p.numVariables p.numRows
        cfg.tolerance (Simplex.ruleAfter cfg k)).trans (congrArg _ hm)
      exact ih limit' (hlimit ▸ limit'.lt_succ_self) (ht.of_move hm)
        (hphase k row col _ _ hvisits hmove (ht.pivot_of_move hm)) ho'

/-- All rows are visited while they are driven out. -/
theorem Visits.driveOut (ht : t.Storable p.numVariables p.numRows)
    (hvisits : Visits b cfg p.stored (.drivingOut 0 []) (t.stored p.numVariables p.numRows))
    {n : ℕ} (hn : n ≤ t.rows.length) {acc : Tableau α × List ℕ}
    (hacc : acc = Simplex.driveOut cfg.tolerance t (List.range n)) :
    Visits b cfg p.stored (.drivingOut n acc.2) (acc.1.stored p.numVariables p.numRows) := by
  induction n generalizing acc with
  | zero =>
    cases hacc
    exact hvisits
  | succ n ih =>
    obtain ⟨-, hshaped, hsame⟩ :=
      Simplex.swept_driveOut cfg.tolerance ht.toShaped (Nat.le_of_succ_le hn)
    have hbefore := ih (Nat.le_of_succ_le hn) rfl
    have hlt := hsame.length_rows_eq.symm ▸ Nat.lt_of_succ_le hn
    rw [hacc, Simplex.driveOut_range_succ]
    exact .drivenOut hbefore (Tableau.objectiveRow_stored _ _ _) hlt
      (ht.of_sameSize hshaped hsame).artificialStart_stored
      (Tableau.driveOutRow_stored hshaped (List.getElem?_eq_getElem hlt) _ _ _)

/-- All rows are visited while some are removed. -/
theorem Visits.dropRows {places : List ℕ} (hswept : Simplex.Swept t.rows.length (t, places))
    (hvisits : Visits b cfg p.stored (.removing places) (t.stored p.numVariables p.numRows)) :
    Visits b cfg p.stored (.removing [])
      ((Simplex.dropRows t places).stored p.numVariables p.numRows) := by
  induction places generalizing t with
  | nil => exact hvisits
  | cons i places ih =>
    exact ih (t := { t with rows := t.rows.eraseIdx i }) hswept.eraseIdx
      (.removed hvisits (Tableau.removeRow_stored (hswept.lt i List.mem_cons_self) _ _))

/-- **What the second phase starts from is visited.** -/
theorem Visits.feasibleTableau (ht : t.Storable p.numVariables p.numRows)
    (hvisits : Visits b cfg p.stored .built (t.stored p.numVariables p.numRows))
    {f : Simplex.Feasible α} (h : Simplex.feasibleTableau cfg limit t = some f)
    (hs : f.tableau? = some s) :
    Visits b cfg p.stored .feasible (s.stored p.numVariables p.numRows) := by
  unfold Simplex.feasibleTableau at h
  split at h
  · rename_i hart
    cases h
    cases hs
    exact .direct hvisits hart
  rename_i hart
  obtain ⟨o, ho, rfl⟩ := Option.map_eq_some_iff.1 h
  have hlast := (ht.priceArtificials.optimize ho).1
  obtain ⟨l, hpivots, hstop⟩ := Visits.optimize .first
    (fun _ _ _ _ _ hu hmove hpivot => .pivoted hu hmove hpivot) ht.priceArtificials
    (.priced hvisits hart ht.priceArtificials_stored) ho
  -- the phase has succeeded, or there would be nothing left
  unfold Simplex.concludeFirst at hs
  split at hs
  · cases hs
  rename_i hend
  dsimp only at hs
  split at hs
  · cases hs
  rename_i hsmall
  cases hs
  have hmove := (Tableau.move_stored (b := b) hlast.toShaped p.numVariables p.numRows
    cfg.tolerance (Simplex.ruleAfter cfg l)).trans (congrArg _ (hstop hend))
  have haccepted := Visits.accepted hpivots hmove (Tableau.corner_stored hlast.toShaped _ _) hsmall
  obtain ⟨hswept, hshaped, hsame⟩ :=
    Simplex.swept_driveOut cfg.tolerance hlast.toShaped (Nat.le_refl o.tableau.rows.length)
  have hdriven := Visits.driveOut hlast haccepted le_rfl rfl
  generalize Simplex.driveOut cfg.tolerance o.tableau (List.range o.tableau.rows.length) = acc at *
  rw [← hsame.length_rows_eq] at hswept hdriven
  have hremoved := Visits.dropRows hswept (.swept hdriven (Tableau.objectiveRow_stored _ _ _))
  exact .dropped hremoved ((hlast.of_sameSize hshaped hsame).dropRows acc.2).dropArtificials_stored

/-- **The answer is read off a visited tableau**, unless there is none for the
second phase. -/
theorem Visits.of_solve (h : p.Fits) (hfits : p.TableauFits) {run : Simplex.Run α}
    (hrun : Simplex.solve cfg limit p = some run) :
    run.solution = Solution.infeasible p.numVariables ∨
      ∃ k t, Visits b cfg p.stored (.second k) (t.stored p.numVariables p.numRows) ∧
        t.Storable p.numVariables p.numRows ∧ t.rows.length ≤ p.numRows ∧
        run.solution.values = Simplex.basicValues cfg.tolerance t p.numVariables := by
  have hstart := hfits.storable
  obtain ⟨f, hf, ⟨-, hsol, -⟩ | ⟨t, o, ht, ho, hsol, -⟩⟩ := Simplex.solve_cases hrun
  · exact .inl hsol
  · have hbuilt : Visits b cfg p.stored .built
        ((Tableau.ofProblem p).stored p.numVariables p.numRows) :=
      .built ((Problem.build_stored h).trans (if_pos hfits))
    obtain ⟨hstorable, -, hrows⟩ := hstart.feasibleTableau hf ht
    have hlen := Problem.length_objective_le hstorable
    have hobjective : p.stored.objective.data = p.objective := p.data_objectiveMatrix
    obtain ⟨l, hlast, -⟩ := Visits.optimize .second
      (fun _ _ _ _ _ hu hmove hpivot => .pivotedAgain hu hmove hpivot)
      (hstorable.priceObjective hlen)
      (.pricedAgain (Visits.feasibleTableau hstart hbuilt hf ht)
        (hobjective.symm ▸ hstorable.priceObjective_stored hlen)) ho
    obtain ⟨hkept, hsame⟩ := (hstorable.priceObjective hlen).optimize ho
    have hle : o.tableau.rows.length ≤ p.numRows :=
      hsame.length_rows_eq.trans_le (hrows.trans (Tableau.length_rows_ofProblem p).le)
    exact .inr ⟨l, o.tableau, hlast, hkept, hle, hsol ▸ Simplex.values_extract ..⟩

end Answers

/-! ## Bounds -/

/-- **The method stays in bounds**, over every scalar: no law of arithmetic or of
the order is used, so values that are no numbers are included. All visited
tableaus have the shape of one, and once the first phase has succeeded no
artificial variable is basic in them, also when rows were removed. The method
then has no fault, where memory can hold the first tableau; otherwise that is not
made. The values of an answer are read off a visited tableau. There is one for
each variable, and at most one for each constraint is other than zero. -/
theorem solve_in_bounds (b : Build) (cfg : Simplex.Config α) (p : Problem α) (h : p.Fits) :
    (∀ stage t, Visits b cfg p.stored stage t →
      (∃ cols, t.Shaped cols) ∧
        (stage.Succeeded → ∀ j ∈ t.basicVars, j < p.numVariables + p.numRows)) ∧
    (∀ limit, p.stored.solve b cfg limit =
      if p.TableauFits then .ok (Simplex.solve cfg limit p) else .error .capacity) ∧
    ∀ limit run, p.stored.solve b cfg limit = .ok (some run) →
      (run.solution = Solution.infeasible p.numVariables ∨
        ∃ k t, Visits b cfg p.stored (.second k) t ∧
          t.basicValues b cfg.tolerance p.numVariables = .ok run.solution.values) ∧
      run.solution.values.length = p.numVariables ∧
      run.solution.values.countP (fun v => !Scalar.same v 0) ≤ p.numRows := by
  refine ⟨fun stage t ht => ?_, fun limit => Problem.solve_stored h, fun limit run hrun => ?_⟩
  · obtain ⟨s, rfl, hs, -, hholds⟩ := ht.exists_tableau h
    refine ⟨⟨_, hs.toShaped.stored _ _⟩, fun hsucceeded j hj => ?_⟩
    obtain ⟨r, hr, rfl⟩ := List.mem_map.1 hj
    exact hs.structural_eq ▸ hholds.basic_lt hsucceeded hs.toShaped r hr
  · have hn := h.numVariables_le
    rw [Problem.solve_stored h] at hrun
    split at hrun
    swap
    · cases hrun
    rename_i hfits
    rcases Visits.of_solve h hfits (Except.ok.inj hrun) with
      hinfeasible | ⟨k, t, hvisits, ht, hrows, hvalues⟩
    · refine ⟨.inl hinfeasible, ?_, ?_⟩ <;> rw [hinfeasible, Solution.infeasible]
      · exact List.length_replicate
      · refine (List.countP_eq_zero.2 fun v hv => ?_).trans_le (Nat.zero_le _)
        simp [List.eq_of_mem_replicate hv]
    · rw [hvalues]
      exact ⟨.inr ⟨k, _, hvisits, Tableau.basicValues_stored ht.toShaped hn ..⟩,
        Simplex.length_basicValues .., (Simplex.countP_basicValues_le ..).trans hrows⟩

/-- A variable with an entry that is no number in one row, and another row whose
right-hand side is negative. -/
def unorderedEntry : Problem Double where
  objective := [1.0]
  rows := [⟨[⟨0x7ff8000000000000⟩], 1.0⟩, ⟨[-1.0], -1.0⟩]
  integer := [false]
  objective_ne_nil := List.cons_ne_nil _ _
  rows_ne_nil := List.cons_ne_nil _ _
  length_coefficients := List.forall_mem_cons.2 ⟨rfl, List.forall_mem_singleton.2 rfl⟩
  length_integer := by decide

/-- The first phase pivots on the entry that is no number, after which no entry
is one. It succeeds all the same, and the second row is removed. -/
theorem solve_in_bounds_unorderedEntry :
    ∃ run, unorderedEntry.stored.solve .release ⟨10, 0.25⟩ 9 = .ok (some run) ∧
      .droppingRow 1 ∈ run.events ∧ run.solution.values.length = 1 ∧
      ∃ k t, Visits .release ⟨10, 0.25⟩ unorderedEntry.stored (.second k) t ∧
        (∃ cols, t.Shaped cols) ∧ ∀ j ∈ t.basicVars, j < 3 := by
  have hentries : 2 * 1 ≤ capacity := by decide
  obtain ⟨hvisited, hstored, hanswer⟩ :=
    solve_in_bounds .release ⟨10, 0.25⟩ unorderedEntry hentries
  have hfits : unorderedEntry.TableauFits := by decide +kernel
  have hsolve : (Simplex.solve (⟨10, 0.25⟩ : Simplex.Config Double) 9 unorderedEntry).map
      (fun run => (run.solution.isInfeasible, run.events.filterMap fun
        | .droppingRow i => some i
        | _ => none)) = some (false, [1]) := by
    decide +kernel
  obtain ⟨run, hrun, heq⟩ := Option.map_eq_some_iff.1 hsolve
  obtain ⟨hfeasible, hdropped⟩ := Prod.mk.inj heq
  have hrun : unorderedEntry.stored.solve .release ⟨10, 0.25⟩ 9 = .ok (some run) := by
    rw [hstored, if_pos hfits, hrun]
  obtain ⟨hread, hlength, -⟩ := hanswer 9 run hrun
  refine ⟨run, hrun, ?_, hlength, ?_⟩
  · obtain ⟨e, he, hi⟩ := List.mem_filterMap.1 (hdropped ▸ List.mem_singleton_self 1)
    cases e <;> cases hi
    exact he
  · rcases hread with hinfeasible | ⟨k, t, ht, -⟩
    · cases hfeasible.symm.trans (congrArg Solution.isInfeasible hinfeasible)
    · exact ⟨k, t, ht, (hvisited _ t ht).1, (hvisited _ t ht).2 trivial⟩

end StoredProblem

end Milp
