import Milp.Proofs.Simplex.Boundaries
/-!
# How far the ratio test drifts

With a tolerance the ratio test compares the ratio of each row with that of
the row it keeps, and no longer with the least one so far. By the
largest-coefficient rule what it keeps only goes down, so that it ends within
one tolerance of the least ratio. By the lowest-index rule a tie may take it up
by a tolerance, and the next tie by one more, so that it ends within one
tolerance for each row but one (`Feasible.leavesWithin`).

No smaller bound serves all tableaus (`leavesWithin_iff`): the lowest-index
rule is right up to one tolerance with two rows to choose from, and not with
three. On `drifting` this happens in a run, and a problem with no feasible point
gets an optimum (`not_leavesWithin_drifting`).
-/

namespace Milp

/-- By how many tolerances the ratio test may miss the least ratio, where it
chooses from `n + 1` rows. -/
def PivotRule.drift : PivotRule → ℕ → ℕ
  | .largestCoefficient, n => min n 1
  | .lowestIndex, n => n

namespace Tableau

variable {tolerance slack : ℚ} {rule : PivotRule} {t : Tableau ℚ} {col n : ℕ}

/-- Those of some rows that may leave for a column. -/
def mayLeave (tolerance : ℚ) (col : ℕ) (rows : List (BasicRow ℚ)) : List (BasicRow ℚ) :=
  rows.filter fun r => decide (tolerance < r.entry col)

/-- **The ratio test is right up to a slack**: there is no leaving row exactly
if there is none that may leave, and the ratio of a leaving row is by no more
than the slack above that of any row that may leave. -/
structure LeavesWithin (t : Tableau ℚ) (slack tolerance : ℚ) (rule : PivotRule)
    (col : ℕ) : Prop where
  /-- No row leaves exactly if no entry is above the tolerance. -/
  none_iff : t.leaving tolerance rule col = none ↔ ∀ r ∈ t.rows, r.entry col ≤ tolerance
  /-- The leaving row has an entry above the tolerance and nearly the least ratio
  of all such rows. -/
  ratio_le : ∀ row, t.leaving tolerance rule col = some row →
    ∃ r, t.rows[row]? = some r ∧ tolerance < r.entry col ∧
      ∀ s ∈ t.rows, tolerance < s.entry col →
        r.rhs / r.entry col ≤ s.rhs / s.entry col + slack

/-! ## The bound -/

/-- **What one more row does**: the kept candidate is within the drift of the
new one, and of any ratio that the one before was within the drift of. -/
theorem ratio_le_drift_of_keep (h0 : 0 ≤ tolerance) {b d c : Candidate ℚ}
    (h : keep tolerance rule (some b) (some d) = some c) (n : ℕ) :
    c.ratio ≤ d.ratio + rule.drift (n + 1) * tolerance ∧
      ∀ q, b.ratio ≤ q + rule.drift n * tolerance →
        c.ratio ≤ q + rule.drift (n + 1) * tolerance := by
  obtain ⟨hnew, hold⟩ := ratio_le_of_keep h0 h
  cases rule with
  | largestCoefficient =>
    have hone : PivotRule.largestCoefficient.drift (n + 1) = 1 := by simp [PivotRule.drift]
    have hle : ((PivotRule.largestCoefficient.drift n : ℕ) : ℚ) ≤ 1 := by
      exact_mod_cast min_le_right n 1
    have hdrift := mul_le_mul_of_nonneg_right hle h0
    have hdown : c.ratio ≤ b.ratio := hold.resolve_right nofun
    rw [hone, Nat.cast_one]
    exact ⟨by linarith, fun q hq => by linarith⟩
  | lowestIndex =>
    have hup : c.ratio ≤ b.ratio + tolerance := by
      rcases hold with hle | ⟨-, hle⟩ <;> linarith
    have hnonneg : 0 ≤ (n : ℚ) * tolerance := mul_nonneg n.cast_nonneg h0
    simp only [PivotRule.drift, Nat.cast_add, Nat.cast_one]
    exact ⟨by linarith, fun q hq => by linarith⟩

theorem length_mayLeave_concat (rows : List (BasicRow ℚ)) (r : BasicRow ℚ) :
    (mayLeave tolerance col (rows ++ [r])).length =
      (mayLeave tolerance col rows).length + if tolerance < r.entry col then 1 else 0 := by
  simp only [mayLeave, ← List.countP_eq_length_filter, List.countP_append, List.countP_singleton,
    decide_eq_true_eq]

/-- Where the ratio test has a winner, some row may leave. -/
theorem length_mayLeave_pos {rows : List (BasicRow ℚ)} {c : Candidate ℚ}
    (h : ratioTest tolerance rule col 0 none rows = some c) :
    0 < (mayLeave tolerance col rows).length := by
  obtain hb | ⟨k, r, hr, hc⟩ := ratioTest_eq_some h
  · cases hb
  · exact List.length_pos_of_mem (List.mem_filter.2
      ⟨List.mem_of_getElem? hr, decide_eq_true (candidate?_eq_some hc).1⟩)

/-- **What all rows do**: the winner of the ratio test is within the drift of
every row that may leave. -/
theorem ratioTest_le_drift (h0 : 0 ≤ tolerance) {rows : List (BasicRow ℚ)} :
    ∀ {n : ℕ} {c : Candidate ℚ}, (mayLeave tolerance col rows).length ≤ n + 1 →
      ratioTest tolerance rule col 0 none rows = some c →
      ∀ s ∈ rows, tolerance < s.entry col →
        c.ratio ≤ max s.rhs 0 / s.entry col + rule.drift n * tolerance := by
  induction rows using List.reverseRecOn with
  | nil => exact fun _ _ s hs => absurd hs List.not_mem_nil
  | append_singleton rows r ih =>
    intro n c hcount h s hs hlt
    rw [ratioTest_concat, zero_add] at h
    rw [length_mayLeave_concat] at hcount
    by_cases hr : tolerance < r.entry col
    swap
    · -- the last row may not leave, so that nothing changes
      have hnone : candidate? tolerance col rows.length r = none := if_pos (not_lt.1 hr)
      rw [hnone] at h
      rcases List.mem_append.1 hs with hs | hs
      · exact ih (by omega) h s hs hlt
      · cases List.mem_singleton.1 hs
        exact absurd hlt hr
    rw [candidate?_of_lt hr] at h
    rw [if_pos hr] at hcount
    cases hbest : ratioTest tolerance rule col 0 none rows with
    | none =>
      -- it is the first that may leave
      rw [hbest] at h
      obtain rfl := Option.some.inj h
      rcases List.mem_append.1 hs with hs | hs
      · exact absurd hlt (not_lt.2 ((ratioTest_eq_none hbest).2 s hs))
      · cases List.mem_singleton.1 hs
        exact le_add_of_nonneg_right (mul_nonneg (Nat.cast_nonneg _) h0)
    | some b =>
      rw [hbest] at h
      have hpos := length_mayLeave_pos hbest
      obtain ⟨m, rfl⟩ : ∃ m, n = m + 1 := ⟨n - 1, by omega⟩
      obtain ⟨hnew, hold⟩ := ratio_le_drift_of_keep h0 h m
      rcases List.mem_append.1 hs with hs | hs
      · exact hold _ (ih (by omega) hbest s hs hlt)
      · cases List.mem_singleton.1 hs
        exact hnew

/-- **The ratio test is right up to the drift.** -/
theorem Feasible.leavesWithin (hf : t.Feasible) (h0 : 0 ≤ tolerance)
    (hcount : (mayLeave tolerance col t.rows).length ≤ n + 1) (rule : PivotRule) :
    t.LeavesWithin (rule.drift n * tolerance) tolerance rule col where
  none_iff := by
    refine ⟨fun h r hr => leaving_eq_none h hr, fun h => ?_⟩
    by_contra hsome
    obtain ⟨row, hrow⟩ := Option.ne_none_iff_exists'.1 hsome
    obtain ⟨r, hr, hlt⟩ := leaving_eq_some hrow
    exact absurd hlt (not_lt.2 (h r (List.mem_of_getElem? hr)))
  ratio_le := by
    intro row h
    obtain ⟨c, hc, rfl⟩ := Option.map_eq_some_iff.1 h
    obtain hb | ⟨k, r, hr, hk⟩ := ratioTest_eq_some hc
    · cases hb
    obtain ⟨hlt, rfl⟩ := candidate?_eq_some hk
    refine ⟨r, by rwa [zero_add], hlt, fun s hs hslt => ?_⟩
    have hle := ratioTest_le_drift h0 hcount hc s hs hslt
    rwa [max_eq_left (hf r (List.mem_of_getElem? hr)), max_eq_left (hf s hs)] at hle

/-! ## No smaller bound -/

/-- A tableau with `n` rows that have the given ratios in the first column. Each
has a slack column of its own, the last row the first one. -/
def ofRatios (tolerance : ℚ) (ratio : ℕ → ℚ) (n : ℕ) : Tableau ℚ where
  rows := (List.range n).map fun i =>
    ⟨⟨(1 + tolerance) :: Scalar.unitList n (n - 1 - i) 1, ratio i * (1 + tolerance)⟩, n - i⟩
  objective := ⟨-(1 + tolerance) :: List.replicate n 0, 0⟩
  structural := n + 1
  artificials := 0

section OfRatios

variable {ratio : ℕ → ℚ}

theorem getElem?_rows_ofRatios {i : ℕ} (hi : i < n) :
    (ofRatios tolerance ratio n).rows[i]? = some
      ⟨⟨(1 + tolerance) :: Scalar.unitList n (n - 1 - i) 1, ratio i * (1 + tolerance)⟩, n - i⟩ := by
  simp [ofRatios, hi]

theorem nodup_basis_ofRatios : (ofRatios tolerance ratio n).basis.Nodup := by
  have hbasis : (ofRatios tolerance ratio n).basis = (List.range n).map (n - ·) := by
    simp [basis, ofRatios]
  rw [hbasis]
  refine List.nodup_range.map_on fun i hi j hj heq => ?_
  have hi := List.mem_range.1 hi
  have hj := List.mem_range.1 hj
  omega

theorem length_mayLeave_ofRatios_le (col : ℕ) :
    (mayLeave tolerance col (ofRatios tolerance ratio n).rows).length ≤ n :=
  (List.length_filter_le _ _).trans (by simp [ofRatios])

theorem leaving_ofRatios {c : Candidate ℚ}
    (h : ratioTest tolerance rule 0 0 none ((ofRatios tolerance ratio n).rows.take n) = some c) :
    (ofRatios tolerance ratio n).leaving tolerance rule 0 = some c.row := by
  rw [List.take_of_length_le (by simp [ofRatios])] at h
  rw [leaving, h]
  rfl

variable (h0 : 0 ≤ tolerance)
include h0

theorem feasible_ofRatios (h : ∀ i < n, 0 ≤ ratio i) :
    (ofRatios tolerance ratio n).Feasible := by
  intro r hr
  obtain ⟨i, hi, rfl⟩ := List.mem_map.1 hr
  exact mul_nonneg (h i (List.mem_range.1 hi)) (by linarith)

/-- The ratio of a row of `ofRatios` is the given one. -/
theorem mul_div_one_add_tolerance (q : ℚ) : q * (1 + tolerance) / (1 + tolerance) = q :=
  mul_div_cancel_right₀ q (by linarith : (0 : ℚ) < 1 + tolerance).ne'

/-- The candidate that a row of `ofRatios` is. -/
theorem candidate?_ofRatios {coefficients : List ℚ} {q : ℚ} (hq : 0 ≤ q) (i basic : ℕ) :
    candidate? tolerance 0 i
      ⟨⟨(1 + tolerance) :: coefficients, q * (1 + tolerance)⟩, basic⟩ = some ⟨i, basic, q⟩ := by
  rw [candidate?_of_lt (show tolerance < 1 + tolerance by linarith),
    max_eq_left (mul_nonneg hq (by linarith))]
  exact congrArg (fun v => some (Candidate.mk i basic v)) (mul_div_one_add_tolerance h0 q)

/-- The ratio test on `ofRatios` goes ratio by ratio. -/
theorem ratioTest_take_ofRatios (rule : PivotRule) {i : ℕ} (hi : i < n) (hnonneg : 0 ≤ ratio i) :
    ratioTest tolerance rule 0 0 none ((ofRatios tolerance ratio n).rows.take (i + 1)) =
      keep tolerance rule
        (ratioTest tolerance rule 0 0 none ((ofRatios tolerance ratio n).rows.take i))
        (some ⟨i, n - i, ratio i⟩) := by
  have hlength : ((ofRatios tolerance ratio n).rows.take i).length = i := by
    simp [ofRatios, hi.le]
  rw [List.take_add_one, getElem?_rows_ofRatios hi, Option.toList_some, ratioTest_concat, hlength,
    candidate?_ofRatios h0 hnonneg, zero_add]

/-- **Each row takes the place of the one before**, where the ratios rise by the
tolerance and the basic columns fall. -/
theorem ratioTest_ofRatios_lowestIndex {k : ℕ} (hk : k < n) :
    ratioTest tolerance .lowestIndex 0 0 none
      ((ofRatios tolerance (fun i => i * tolerance) n).rows.take (k + 1)) =
        some ⟨k, n - k, k * tolerance⟩ := by
  induction k with
  | zero =>
    rw [ratioTest_take_ofRatios h0 _ hk (by simp)]
    rfl
  | succ k ih =>
    rw [ratioTest_take_ofRatios h0 _ hk (by positivity), ih (by omega)]
    refine congrArg some (if_pos (Candidate.beats_eq_true_iff.2 (.inr ⟨rfl, ?_, ?_⟩)))
    · have hstep : ((k + 1 : ℕ) : ℚ) * tolerance - k * tolerance = tolerance := by
        push_cast
        ring
      rw [Scalar.abs_rat, hstep, abs_of_nonneg h0]
    · change n - (k + 1) < n - k
      omega

/-- **The first row stays**, where the ratios fall to zero from no more than the
tolerance. -/
theorem ratioTest_ofRatios_largestCoefficient {m k : ℕ} (hm : m ≤ 1) (hk : k ≤ m) :
    ratioTest tolerance .largestCoefficient 0 0 none
      ((ofRatios tolerance (fun i => (m - i) * tolerance) (m + 1)).rows.take (k + 1)) =
        some ⟨0, m + 1, m * tolerance⟩ := by
  have hnonneg : ∀ i ≤ m, 0 ≤ ((m : ℚ) - i) * tolerance := fun i hi =>
    mul_nonneg (sub_nonneg.2 (Nat.cast_le.2 hi)) h0
  induction k with
  | zero =>
    rw [ratioTest_take_ofRatios h0 _ (Nat.succ_pos m) (hnonneg 0 hk)]
    simp [ratioTest, keep]
  | succ k ih =>
    rw [ratioTest_take_ofRatios h0 _ (Nat.lt_succ_of_le hk) (hnonneg _ hk), ih (by omega)]
    refine congrArg some (if_neg fun hbeats => ?_)
    rcases Candidate.beats_eq_true_iff.1 hbeats with hlt | ⟨hrule, -⟩
    · have hle : (m : ℚ) * tolerance ≤ tolerance :=
        mul_le_of_le_one_left h0 (by exact_mod_cast hm)
      linarith [hnonneg _ hk]
    · cases hrule

/-- What the slack has to make up for. -/
theorem LeavesWithin.ratio_le_add {i j : ℕ}
    (h : (ofRatios tolerance ratio n).LeavesWithin slack tolerance rule 0)
    (hrow : (ofRatios tolerance ratio n).leaving tolerance rule 0 = some i) (hi : i < n)
    (hj : j < n) : ratio i ≤ ratio j + slack := by
  obtain ⟨r, hr, -, hle⟩ := h.ratio_le i hrow
  cases (getElem?_rows_ofRatios hi).symm.trans hr
  have hij := hle _ (List.mem_of_getElem? (getElem?_rows_ofRatios hj))
    (show tolerance < 1 + tolerance by linarith)
  change ratio i * (1 + tolerance) / (1 + tolerance) ≤
    ratio j * (1 + tolerance) / (1 + tolerance) + slack at hij
  rwa [mul_div_one_add_tolerance h0, mul_div_one_add_tolerance h0] at hij

/-- **The drift is reached**, by as many rows as there may be. -/
theorem exists_drift_le (rule : PivotRule) (n : ℕ) :
    ∃ t : Tableau ℚ, t.Feasible ∧ t.basis.Nodup ∧ (mayLeave tolerance 0 t.rows).length ≤ n + 1 ∧
      ∀ slack, t.LeavesWithin slack tolerance rule 0 → rule.drift n * tolerance ≤ slack := by
  cases rule with
  | largestCoefficient =>
    have hnonneg : ∀ i < min n 1 + 1, 0 ≤ ((min n 1 : ℕ) - i : ℚ) * tolerance := fun i hi =>
      mul_nonneg (sub_nonneg.2 (Nat.cast_le.2 (Nat.lt_succ_iff.1 hi))) h0
    have hrow := leaving_ofRatios
      (ratioTest_ofRatios_largestCoefficient h0 (min_le_right n 1) le_rfl)
    refine ⟨_, feasible_ofRatios h0 hnonneg, nodup_basis_ofRatios,
      (length_mayLeave_ofRatios_le 0).trans (Nat.succ_le_succ (min_le_left n 1)),
      fun slack h => ?_⟩
    -- the first row leaves, the last one has ratio zero
    have hle := h.ratio_le_add h0 hrow (Nat.succ_pos _) (Nat.lt_succ_self _)
    rwa [Nat.cast_zero, sub_zero, sub_self, zero_mul, zero_add] at hle
  | lowestIndex =>
    have hnonneg : ∀ i < n + 1, 0 ≤ (i : ℚ) * tolerance := fun i _ =>
      mul_nonneg i.cast_nonneg h0
    have hrow := leaving_ofRatios (ratioTest_ofRatios_lowestIndex h0 (Nat.lt_succ_self n))
    refine ⟨_, feasible_ofRatios h0 hnonneg, nodup_basis_ofRatios,
      length_mayLeave_ofRatios_le 0, fun slack h => ?_⟩
    -- the last row leaves, the first one has ratio zero
    have hle := h.ratio_le_add h0 hrow (Nat.lt_succ_self n) (Nat.succ_pos n)
    rwa [Nat.cast_zero, zero_mul, zero_add] at hle

end OfRatios

/-- **For which slack the ratio test is right** wherever it chooses from no more
than `n + 1` rows: exactly for those that make up for the drift. The tolerance
itself does by the largest-coefficient rule, and by the lowest-index rule where
there are no more than two rows or the tolerance is zero. -/
theorem leavesWithin_iff (h0 : 0 ≤ tolerance) (rule : PivotRule) (n : ℕ) (slack : ℚ) :
    (∀ (t : Tableau ℚ) (col : ℕ), t.Feasible → t.basis.Nodup →
      (mayLeave tolerance col t.rows).length ≤ n + 1 → t.LeavesWithin slack tolerance rule col) ↔
    rule.drift n * tolerance ≤ slack := by
  constructor
  · intro h
    obtain ⟨t, hf, hbasis, hcount, hdrift⟩ := exists_drift_le h0 rule n
    exact hdrift slack (h t 0 hf hbasis hcount)
  · intro hslack t col hf _ hcount
    obtain ⟨hnone, hle⟩ := hf.leavesWithin h0 hcount rule
    refine ⟨hnone, fun row hrow => ?_⟩
    obtain ⟨r, hr, hlt, hle⟩ := hle row hrow
    exact ⟨r, hr, hlt, fun s hs hslt => (hle s hs hslt).trans (add_le_add_right hslack _)⟩

end Tableau

namespace Simplex

/-! ## In a run -/

/-- A problem with no feasible point. The first three rows leave so little room
that the last one misses its right-hand side by about two. -/
def drifting : Problem ℚ where
  objective := [0, 0, 0, 1]
  rows := [⟨[0, 0, 1, 1], 0⟩, ⟨[0, 1, 0, 1], 1 / 10 ^ 9⟩, ⟨[1, 0, 0, 1], 2 / 10 ^ 9⟩,
    ⟨[-1, -1, -1, -(10 ^ 9 + 3)], -2⟩]
  integer := [false, false, false, false]
  objective_ne_nil := List.cons_ne_nil _ _
  rows_ne_nil := List.cons_ne_nil _ _
  length_coefficients := by simp
  length_integer := by simp

/-- The tableau after three pivots, which make the first three variables basic,
the first one in the third row and the third one in the first. -/
def drifted : Tableau ℚ :=
  (((priceArtificials (Tableau.ofProblem drifting)).pivot 2 0).pivot 1 1).pivot 0 2

/-- By the lowest-index rule the first phase on `drifting` comes by `drifted`. -/
theorem boundary_drifted : Boundary ⟨0, 1 / 10 ^ 9⟩ drifting (.first 3) drifted :=
  .pivoted (.pivoted (.pivoted (.priced (by decide +kernel)) (by decide +kernel))
    (by decide +kernel)) (by decide +kernel)

theorem feasible_drifted : drifted.Feasible :=
  show ∀ r ∈ drifted.rows, 0 ≤ r.rhs by decide +kernel

/-- All four rows of `drifted` may leave for the fourth column, and the one that
does is within three tolerances of the least ratio. -/
theorem leavesWithin_drifted :
    (Tableau.mayLeave (1 / 10 ^ 9) 3 drifted.rows).length = 4 ∧
      drifted.LeavesWithin (3 / 10 ^ 9) (1 / 10 ^ 9) .lowestIndex 3 := by
  have hcount : (Tableau.mayLeave (1 / 10 ^ 9) 3 drifted.rows).length = 4 := by decide +kernel
  have hslack : (PivotRule.lowestIndex.drift 3 : ℚ) * (1 / 10 ^ 9) ≤ 3 / 10 ^ 9 := by
    norm_num [PivotRule.drift]
  exact ⟨hcount, (Tableau.leavesWithin_iff (by norm_num) .lowestIndex 3 _).2 hslack drifted 3
    feasible_drifted (by decide +kernel) hcount.le⟩

theorem not_feasible_drifting (x : List ℚ) : ¬ drifting.Feasible x := by
  rintro ⟨hlength, hnonneg, hrows⟩
  obtain ⟨a, b, c, d, rfl⟩ := List.length_eq_four.1 hlength
  simp only [List.forall_mem_cons] at hnonneg
  simp only [drifting, List.forall_mem_cons, Row.lhs, Scalar.sumProducts_rat, dot_cons, dot_nil,
    List.getD_cons_zero, List.getD_cons_succ] at hrows
  obtain ⟨ha, hb, hc, hd, -⟩ := hnonneg
  obtain ⟨hfirst, hsecond, hthird, hlast, -⟩ := hrows
  linarith

/-- **With the default tolerance the ratio test misses the least ratio** by more
than the tolerance: in `drifted` the first row has ratio zero, and the third one
leaves with twice the tolerance. The problem has no feasible point, and the run
ends with an optimum. -/
theorem not_leavesWithin_drifting :
    Boundary ⟨0, 1 / 10 ^ 9⟩ drifting (.first 3) drifted ∧ drifted.basis.Nodup ∧
      drifted.Feasible ∧ drifted.leaving (1 / 10 ^ 9) .lowestIndex 3 = some 2 ∧
      ¬ drifted.LeavesWithin (1 / 10 ^ 9) (1 / 10 ^ 9) .lowestIndex 3 ∧
      (∀ x, ¬ drifting.Feasible x) ∧
      ∃ run, solve ⟨0, 1 / 10 ^ 9⟩ 9 drifting = some run ∧ run.solution.status = .optimal := by
  have hrow : drifted.leaving (1 / 10 ^ 9) .lowestIndex 3 = some 2 := by decide +kernel
  have hoff : ∀ r ∈ drifted.rows[2]?, ∃ s ∈ drifted.rows, 1 / 10 ^ 9 < s.entry 3 ∧
      s.rhs / s.entry 3 + 1 / 10 ^ 9 < r.rhs / r.entry 3 := by decide +kernel
  have hoptimal : (solve ⟨0, 1 / 10 ^ 9⟩ 9 drifting).map (·.solution.status) =
      some .optimal := by decide +kernel
  obtain ⟨run, hrun, hopt⟩ := Option.map_eq_some_iff.1 hoptimal
  refine ⟨boundary_drifted, by decide +kernel, feasible_drifted, hrow, fun h => ?_,
    not_feasible_drifting, run, hrun, hopt⟩
  obtain ⟨r, hr, -, hle⟩ := h.ratio_le 2 hrow
  obtain ⟨s, hs, hlt, hgap⟩ := hoff r hr
  exact absurd (hle s hs hlt) (not_le.2 hgap)

end Simplex

end Milp
