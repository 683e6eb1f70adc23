import Mathlib.Order.Interval.Finset.Nat
import Milp.Proofs.Simplex.Correctness
import Milp.Proofs.Simplex.Cycling
/-!
# The simplex method ends

Over exact numbers and with tolerance zero pivoting ends, whatever tableau
it starts from. Pivots by the largest-coefficient rule are limited by the
configuration; after that no basis comes twice (`basis_ne_of_after`), and a
basis is a set of as many columns as there are rows. So there are at most
`pivotBound` pivots, and with that limit the method answers every problem
(`solve_terminates`).
-/

namespace Milp

namespace Simplex

variable {s t u : Tableau ℚ} {maxIterations i j k : ℕ}

/-! ## Pivoting -/

/-- The number of sets of columns that can be basic, after the pivots by the
largest-coefficient rule. -/
def pivotBound (maxIterations : ℕ) (t : Tableau ℚ) : ℕ :=
  maxIterations + t.width.choose t.rows.length

/-- Every pivot leaves a tableau ready and equivalent to the first. -/
theorem ready_after (ht : Ready t) (h : after ⟨maxIterations, 0⟩ t k = some s) :
    Ready s ∧ Equivalent t s := by
  refine after_induction (fun s => Ready s ∧ Equivalent t s) ?_ ⟨ht, .refl t⟩ h
  rintro s rule row col ⟨hs, heq⟩ hm
  exact ⟨(ready_of_move hs hm).1, heq.trans (ready_of_move hs hm).2⟩

/-- **After the switch** the pivots are a run by the lowest-index rule. -/
theorem lowestIndexRun_after (ht : Ready t) (hi : maxIterations ≤ i) (hij : i ≤ j)
    (hj : after ⟨maxIterations, 0⟩ t j = some u) :
    LowestIndexRun (fun m => (after ⟨maxIterations, 0⟩ t (i + m)).getD t) (j - i) where
  ready := by
    obtain ⟨v, hv⟩ := after_of_le hij hj
    show Ready ((after ⟨maxIterations, 0⟩ t i).getD t)
    rw [hv]
    exact (ready_after ht hv).1
  enters m hm := by
    obtain ⟨w, hw⟩ := after_of_le (show i + m + 1 ≤ j by omega) hj
    obtain ⟨v, row, col, hv, hmove, rfl⟩ := after_succ_eq_some hw
    rw [ruleAfter, if_pos (hi.trans (Nat.le_add_right _ _))] at hmove
    obtain ⟨r, hp⟩ := (ready_after ht hv).1.pivots hmove
    refine ⟨col, row, r, ?_, ?_⟩
    · show Pivots _ ((after ⟨maxIterations, 0⟩ t (i + m)).getD t) row col r
      rwa [hv]
    · show (after ⟨maxIterations, 0⟩ t (i + m + 1)).getD t =
        ((after ⟨maxIterations, 0⟩ t (i + m)).getD t).pivot row col
      rw [hv, hw]
      rfl

/-- **After the switch no basis comes twice.** -/
theorem basis_ne_of_after (ht : Ready t) (hi : maxIterations ≤ i) (hij : i < j)
    (hs : after ⟨maxIterations, 0⟩ t i = some s) (hu : after ⟨maxIterations, 0⟩ t j = some u) :
    s.basis.toFinset ≠ u.basis.toFinset := by
  have hne := (lowestIndexRun_after ht hi hij.le hu).basis_ne (Nat.sub_pos_of_lt hij)
  simp only [Nat.add_zero, Nat.add_sub_cancel' hij.le, hs, hu, Option.getD_some] at hne
  exact hne

/-- A basis is a set of as many columns as there are rows. -/
theorem basis_mem_powersetCard (ht : t.Canonical) :
    t.basis.toFinset ∈ (Finset.range t.width).powersetCard t.rows.length := by
  rw [Finset.mem_powersetCard]
  refine ⟨fun c hc => ?_, ?_⟩
  · obtain ⟨r, hr, rfl⟩ := Tableau.mem_basis.1 (List.mem_toFinset.1 hc)
    exact Finset.mem_range.2 (ht.basic_lt r hr)
  · rw [List.toFinset_card_of_nodup ht.basis_nodup, Tableau.basis, List.length_map]

/-- The basis after some pivots, as a set. -/
def basisAfter (maxIterations : ℕ) (t : Tableau ℚ) (k : ℕ) : Finset ℕ :=
  ((after ⟨maxIterations, 0⟩ t k).getD t).basis.toFinset

theorem basisAfter_eq (h : after ⟨maxIterations, 0⟩ t k = some s) :
    basisAfter maxIterations t k = s.basis.toFinset := by
  rw [basisAfter, h]
  rfl

theorem basisAfter_mem_powersetCard (ht : Ready t) (h : after ⟨maxIterations, 0⟩ t k = some s) :
    basisAfter maxIterations t k ∈ (Finset.range t.width).powersetCard t.rows.length := by
  obtain ⟨hready, heq⟩ := ready_after ht h
  rw [basisAfter_eq h, ← heq.width_eq, ← heq.length_rows_eq]
  exact basis_mem_powersetCard hready.toCanonical

/-- The bases from the switch on are pairwise distinct. -/
theorem injOn_basisAfter (ht : Ready t) (h : after ⟨maxIterations, 0⟩ t k = some s) :
    Set.InjOn (basisAfter maxIterations t) (Finset.Icc maxIterations k) := by
  have hne : ∀ i ∈ Finset.Icc maxIterations k, ∀ j ∈ Finset.Icc maxIterations k, i < j →
      basisAfter maxIterations t i ≠ basisAfter maxIterations t j := by
    intro i hi j hj hij
    obtain ⟨u, hu⟩ := after_of_le (Finset.mem_Icc.1 hi).2 h
    obtain ⟨v, hv⟩ := after_of_le (Finset.mem_Icc.1 hj).2 h
    rw [basisAfter_eq hu, basisAfter_eq hv]
    exact basis_ne_of_after ht (Finset.mem_Icc.1 hi).1 hij hu hv
  intro i hi j hj heq
  rcases Nat.lt_trichotomy i j with hlt | rfl | hgt
  · exact absurd heq (hne i hi j hj hlt)
  · rfl
  · exact absurd heq.symm (hne j hj i hi hgt)

/-- **There are at most so many pivots.** -/
theorem le_pivotBound (ht : Ready t) (h : after ⟨maxIterations, 0⟩ t k = some s) :
    k ≤ pivotBound maxIterations t := by
  have hmem : ∀ i ∈ Finset.Icc maxIterations k, basisAfter maxIterations t i ∈
      (Finset.range t.width).powersetCard t.rows.length := by
    intro i hi
    obtain ⟨u, hu⟩ := after_of_le (Finset.mem_Icc.1 hi).2 h
    exact basisAfter_mem_powersetCard ht hu
  -- from the switch on there is one basis more than there are pivots
  have hcard := Finset.card_le_card_of_injOn _ hmem (injOn_basisAfter ht h)
  rw [Nat.card_Icc, Finset.card_powersetCard, Finset.card_range] at hcard
  rw [pivotBound]
  omega

/-- **Pivoting ends.** -/
theorem exists_optimize (ht : Ready t) {limit : ℕ} (hlimit : pivotBound maxIterations t ≤ limit) :
    ∃ o, optimize ⟨maxIterations, 0⟩ limit 0 t = some o := by
  -- one more pivot than the limit would be above the bound
  refine optimize_isSome (t := t) rfl ?_
  cases hnext : after ⟨maxIterations, 0⟩ t (0 + limit + 1) with
  | none => rfl
  | some s =>
    have hle := le_pivotBound ht hnext
    omega

/-- The pivots by the largest-coefficient rule, among the first ones. -/
theorem card_largestCoefficient_le (cfg : Config ℚ) (k : ℕ) :
    ((Finset.range k).filter fun m => ruleAfter cfg m = .largestCoefficient).card ≤
      cfg.maxIterations := by
  refine (Finset.card_le_card (t := Finset.range cfg.maxIterations) fun m hm => ?_).trans_eq
    (Finset.card_range _)
  rw [Finset.mem_range]
  by_contra hge
  have hrule := (Finset.mem_filter.1 hm).2
  rw [ruleAfter, if_pos (not_lt.1 hge)] at hrule
  cases hrule

/-! ## Both phases -/

variable {p : Problem ℚ} {limit : ℕ}

/-- The tableaus from which the method pivots on a problem: that of the
first phase, if there is one, and that of the second. -/
inductive PivotsFrom (cfg : Config ℚ) (p : Problem ℚ) : Tableau ℚ → Prop
  /-- Minus the artificial variables is maximised. -/
  | first : (Tableau.ofProblem p).artificials ≠ 0 →
    PivotsFrom cfg p (priceArtificials (Tableau.ofProblem p))
  /-- Then the objective of the problem. -/
  | second {limit : ℕ} {f : Feasible ℚ} {t : Tableau ℚ} :
    feasibleTableau cfg limit (Tableau.ofProblem p) = some f → f.tableau? = some t →
    PivotsFrom cfg p (priceObjective t p.objective)

/-- The first phase starts ready. -/
theorem ready_first (p : Problem ℚ) : Ready (priceArtificials (Tableau.ofProblem p)) :=
  ready_priceArtificials (Tableau.canonical_ofProblem p) (Tableau.feasible_ofProblem p)

theorem represents_of_feasibleTableau {f : Feasible ℚ}
    (h : feasibleTableau ⟨maxIterations, 0⟩ limit (Tableau.ofProblem p) = some f)
    (ht : f.tableau? = some t) : Represents p t := by
  rcases feasibleTableau_spec h with ⟨u, hu, hrep⟩ | ⟨hnone, -⟩
  · cases ht.symm.trans hu
    exact hrep
  · rw [ht] at hnone
    cases hnone

theorem PivotsFrom.ready (h : PivotsFrom ⟨maxIterations, 0⟩ p t) : Ready t := by
  cases h with
  | first => exact ready_first p
  | second hf ht => exact (represents_of_feasibleTableau hf ht).ready

/-- The second phase needs no larger limit than the first. -/
theorem Represents.pivotBound_le (ht : Represents p t) (c : List ℚ) :
    pivotBound maxIterations (priceObjective t c) ≤
      pivotBound maxIterations (Tableau.ofProblem p) := by
  have hwidth : t.width ≤ (Tableau.ofProblem p).width := by
    rw [Tableau.width, Tableau.width, ht.structural_eq, ht.artificials_eq,
      Tableau.structural_ofProblem]
    omega
  show maxIterations + t.width.choose t.rows.length ≤ _
  rw [pivotBound, ht.length_rows_eq, Tableau.length_rows_ofProblem]
  exact Nat.add_le_add_left (Nat.choose_le_choose _ hwidth) _

/-- **The method answers every problem.** -/
theorem exists_solve (hlimit : pivotBound maxIterations (Tableau.ofProblem p) ≤ limit) :
    ∃ run, solve ⟨maxIterations, 0⟩ limit p = some run := by
  obtain ⟨f, hf⟩ :
      ∃ f, feasibleTableau ⟨maxIterations, 0⟩ limit (Tableau.ofProblem p) = some f := by
    unfold feasibleTableau
    split
    · exact ⟨_, rfl⟩
    · obtain ⟨o, ho⟩ := exists_optimize (ready_first p) hlimit
      exact ⟨_, Option.map_eq_some_iff.2 ⟨o, ho, rfl⟩⟩
  refine Option.isSome_iff_exists.1 ?_
  cases htab : f.tableau? with
  | none => simp only [solve, hf, htab, Option.bind_eq_bind, Option.bind_some, Option.isSome_some]
  | some t =>
    have hrep := represents_of_feasibleTableau hf htab
    obtain ⟨o, ho⟩ := exists_optimize hrep.ready ((hrep.pivotBound_le _).trans hlimit)
    simp only [solve, hf, htab, secondPhase, ho, Option.bind_eq_bind, Option.bind_some,
      Option.isSome_some]

/-- **The simplex method ends on every problem**, whenever the rules switch.
Wherever it pivots from, so many pivots at most are by the
largest-coefficient rule; from then on no two tableaus have the same set of
basic variables; and there are at most as many pivots more as there are such
sets. -/
theorem solve_terminates (p : Problem ℚ) (maxIterations : ℕ) :
    (∃ enough, ∀ limit ≥ enough, ∃ run, solve ⟨maxIterations, 0⟩ limit p = some run) ∧
    ∀ t, PivotsFrom ⟨maxIterations, 0⟩ p t →
      (∃ limit o, optimize ⟨maxIterations, 0⟩ limit 0 t = some o) ∧
      (∀ limit o, optimize ⟨maxIterations, 0⟩ limit 0 t = some o →
        after ⟨maxIterations, 0⟩ t o.pivots = some o.tableau ∧
        o.pivots ≤ maxIterations + t.width.choose t.rows.length) ∧
      (∀ k s, after ⟨maxIterations, 0⟩ t k = some s →
        ((Finset.range k).filter fun m =>
          ruleAfter (⟨maxIterations, 0⟩ : Config ℚ) m = .largestCoefficient).card ≤
            maxIterations ∧
        k ≤ maxIterations + t.width.choose t.rows.length) ∧
      ∀ i j s u, maxIterations ≤ i → i < j → after ⟨maxIterations, 0⟩ t i = some s →
        after ⟨maxIterations, 0⟩ t j = some u → s.basis.toFinset ≠ u.basis.toFinset := by
  refine ⟨⟨_, fun limit hlimit => exists_solve hlimit⟩, fun t ht => ?_⟩
  refine ⟨⟨_, exists_optimize ht.ready le_rfl⟩, fun limit o ho => ?_, fun k s hs => ?_,
    fun i j s u hi hij hs hu => basis_ne_of_after ht.ready hi hij hs hu⟩
  · have hend : after ⟨maxIterations, 0⟩ t (0 + o.pivots) = some o.tableau := after_pivots rfl ho
    rw [Nat.zero_add] at hend
    exact ⟨hend, le_pivotBound ht.ready hend⟩
  · exact ⟨card_largestCoefficient_le _ k, le_pivotBound ht.ready hs⟩

/-- Two rows meet at the first vertex, and the largest-coefficient rule
alone comes back to it without end. -/
def degenerate : Problem ℚ where
  objective := [3 / 4, -150, 1 / 50, -6]
  rows := [⟨[1 / 4, -60, -1 / 25, 9], 0⟩, ⟨[1 / 2, -90, -1 / 50, 3], 0⟩, ⟨[0, 0, 1, 0], 1⟩]
  integer := [false, false, false, false]
  objective_ne_nil := List.cons_ne_nil _ _
  rows_ne_nil := List.cons_ne_nil _ _
  length_coefficients := List.forall_mem_cons.2
    ⟨rfl, List.forall_mem_cons.2 ⟨rfl, List.forall_mem_singleton.2 rfl⟩⟩
  length_integer := rfl

/-- On the degenerate problem, by the lowest-index rule from the start, the
method ends, and the third tableau has another basis than the first. -/
theorem solve_terminates_degenerate :
    (∃ enough, ∀ limit ≥ enough, ∃ run, solve ⟨0, 0⟩ limit degenerate = some run) ∧
    ∃ t s u, PivotsFrom ⟨0, 0⟩ degenerate t ∧ after ⟨0, 0⟩ t 0 = some s ∧
      after ⟨0, 0⟩ t 2 = some u ∧ s.basis.toFinset ≠ u.basis.toFinset := by
  obtain ⟨hsolve, hpivots⟩ := solve_terminates degenerate 0
  have hfrom : PivotsFrom ⟨0, 0⟩ degenerate
      (priceObjective (Tableau.ofProblem degenerate) degenerate.objective) :=
    .second (if_pos (by decide +kernel) : feasibleTableau _ 0 _ = _) rfl
  obtain ⟨u, hu⟩ : ∃ u, after ⟨0, 0⟩
      (priceObjective (Tableau.ofProblem degenerate) degenerate.objective) 2 = some u :=
    Option.isSome_iff_exists.1 (by decide +kernel)
  exact ⟨hsolve, _, _, u, hfrom, rfl, hu,
    (hpivots _ hfrom).2.2.2 0 2 _ u le_rfl two_pos rfl hu⟩

end Simplex

end Milp
