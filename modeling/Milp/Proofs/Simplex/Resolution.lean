import Mathlib.Data.Set.Finite.Lemmas
import Milp.Proofs.Simplex.Reached
/-!
# Tolerances that decide nothing

Where the exact method compares a number with zero, a tolerance decides what
counts as zero. It decides nothing that zero would not where it is below all
numbers that are compared and are not zero: it `Resolves` them. On a tableau
these are its entries and right-hand sides, the corner and the differences
of ratios (`compared`). A tolerance that resolves every tableau that is
reached gives the answer of tolerance zero (`solve_eq_solve_zero`); as only
finitely many are, all tolerances that are small enough do
(`exists_resolved_reached`).

To keep a tableau feasible less will do. A pivot does so where the least ratio
leaves, and it does where no other ratio is near it (`ClearRatios`).
-/

namespace Milp

namespace Simplex

variable {s t : Tableau ℚ} {r : BasicRow ℚ} {n row col limit maxIterations : ℕ}
variable {tolerance v : ℚ} {rule : PivotRule} {p : Problem ℚ}

/-! ## Numbers -/

/-- **The tolerance tells the number from zero**, if it is not zero. -/
def Resolves (tolerance v : ℚ) : Prop := v ≠ 0 → tolerance < |v|

namespace Resolves

variable (h0 : 0 ≤ tolerance) (h : Resolves tolerance v)

include h0 h

theorem lt_abs_iff : tolerance < |v| ↔ 0 < |v| :=
  ⟨h0.trans_lt, fun hpos => h (abs_pos.1 hpos)⟩

theorem abs_le_iff : |v| ≤ tolerance ↔ |v| ≤ 0 := by
  rw [← not_lt, ← not_lt, h.lt_abs_iff h0]

theorem lt_iff : tolerance < v ↔ 0 < v := by
  refine ⟨h0.trans_lt, fun hpos => ?_⟩
  have hlt := h hpos.ne'
  rwa [abs_of_pos hpos] at hlt

theorem lt_neg_iff : v < -tolerance ↔ v < 0 := by
  refine ⟨fun hlt => hlt.trans_le (neg_nonpos.2 h0), fun hneg => ?_⟩
  have hlt := h hneg.ne
  rw [abs_of_neg hneg] at hlt
  exact lt_neg_of_lt_neg hlt

end Resolves

/-- **Small tolerances resolve finitely many numbers.** -/
theorem exists_resolves {V : Set ℚ} (hV : V.Finite) :
    ∃ small, 0 < small ∧ ∀ tolerance < small, ∀ v ∈ V, Resolves tolerance v := by
  -- the least magnitude among the numbers that are not zero, and one
  obtain ⟨least, hleast, hmin⟩ := Set.exists_min_image (insert 1 {v ∈ V | v ≠ 0}) (|·|)
    ((hV.subset (Set.sep_subset V _)).insert 1) (Set.insert_nonempty _ _)
  refine ⟨|least|, abs_pos.2 ?_, fun tolerance hlt v hv hne => ?_⟩
  · rcases hleast with rfl | ⟨-, hne⟩
    · exact one_ne_zero
    · exact hne
  · exact hlt.trans_le (hmin v (.inr ⟨hv, hne⟩))

/-! ## Tableaus -/

/-- How far a column can grow on account of a row. -/
def ratio (col : ℕ) (r : BasicRow ℚ) : ℚ := max r.rhs 0 / r.entry col

/-- The numbers that the method compares on a tableau. -/
def compared (t : Tableau ℚ) : List ℚ :=
  t.corner :: t.objective.coefficients ++ (t.rows.flatMap fun r => r.rhs :: r.coefficients) ++
    t.rows.flatMap fun r => t.rows.flatMap fun s =>
      (List.range t.width).map fun col => ratio col r - ratio col s

/-- **The tolerance resolves all comparisons** on a tableau. -/
structure Resolved (tolerance : ℚ) (t : Tableau ℚ) : Prop where
  /-- Whether artificial variables remain. -/
  corner : Resolves tolerance t.corner
  /-- Whether a column can enter. -/
  cost : ∀ v ∈ t.objective.coefficients, Resolves tolerance v
  /-- Whether a value counts as zero. -/
  rhs : ∀ r ∈ t.rows, Resolves tolerance r.rhs
  /-- Whether a row can leave. -/
  coefficient : ∀ r ∈ t.rows, ∀ v ∈ r.coefficients, Resolves tolerance v
  /-- Which of two rows leaves. -/
  ratio : ∀ r ∈ t.rows, ∀ s ∈ t.rows, ∀ col < t.width,
    Resolves tolerance (ratio col r - ratio col s)

theorem resolved_of_compared (h : ∀ v ∈ compared t, Resolves tolerance v) :
    Resolved tolerance t := by
  simp only [compared, List.mem_append, List.mem_cons, List.mem_flatMap, List.mem_map,
    List.mem_range] at h
  exact
    { corner := h _ (.inl (.inl (.inl rfl)))
      cost := fun v hv => h v (.inl (.inl (.inr hv)))
      rhs := fun r hr => h _ (.inl (.inr ⟨r, hr, .inl rfl⟩))
      coefficient := fun r hr v hv => h v (.inl (.inr ⟨r, hr, .inr hv⟩))
      ratio := fun r hr s hs col hcol => h _ (.inr ⟨r, hr, s, hs, col, hcol, rfl⟩) }

/-- Every entry is a coefficient, or zero. -/
theorem Resolved.entry (ht : Resolved tolerance t) (hr : r ∈ t.rows) (j : ℕ) :
    Resolves tolerance (r.entry j) := by
  rcases Nat.lt_or_ge j r.coefficients.length with hj | hj
  · rw [Row.entry, List.getD_eq_getElem _ _ hj]
    exact ht.coefficient r hr _ (List.getElem_mem hj)
  · rw [Row.entry_of_length_le hj]
    exact fun hne => absurd rfl hne

/-- **Small tolerances resolve all that is reached on a problem.** -/
theorem exists_resolved_reached (p : Problem ℚ) :
    ∃ small, 0 < small ∧ ∀ tolerance < small, ∀ t, Reached p t → Resolved tolerance t := by
  obtain ⟨small, hpos, hsmall⟩ := exists_resolves
    ((finite_reached p).biUnion fun t _ => List.finite_toSet (compared t))
  refine ⟨small, hpos, fun tolerance hlt t ht => resolved_of_compared fun v hv => ?_⟩
  exact hsmall tolerance hlt v (Set.mem_biUnion ht hv)

/-! ## The least ratio -/

/-- **The tolerance stays out of the ratio test** of a column: no positive entry
counts as zero, and a ratio that is not the least one is not near it. -/
structure ClearRatios (tolerance : ℚ) (col : ℕ) (t : Tableau ℚ) : Prop where
  /-- Positive entries are above the tolerance. -/
  entry : ∀ r ∈ t.rows, 0 < r.entry col → tolerance < r.entry col
  /-- A ratio above the least one is so by more than the tolerance. -/
  ratio : ∀ r ∈ t.rows, 0 < r.entry col →
    (∀ q ∈ t.rows, 0 < q.entry col → ratio col r ≤ ratio col q) →
    ∀ s ∈ t.rows, 0 < s.entry col → ratio col r < ratio col s →
      ratio col r + tolerance < ratio col s

theorem Resolved.clearRatios (ht : Resolved tolerance t) (hcol : col < t.width) :
    ClearRatios tolerance col t where
  entry r hr hpos := by
    have hlt := ht.entry hr col hpos.ne'
    rwa [abs_of_pos hpos] at hlt
  ratio r hr _ _ s hs _ hlt := by
    have hgap := ht.ratio s hs r hr col hcol (sub_ne_zero.2 hlt.ne')
    rw [abs_of_pos (sub_pos.2 hlt)] at hgap
    linarith

/-- The winner of the ratio test has the ratio of its row. -/
theorem exists_ratio_of_ratioTest {rows : List (BasicRow ℚ)} {c : Tableau.Candidate ℚ}
    (h : Tableau.ratioTest tolerance rule col 0 none rows = some c) :
    ∃ r, rows[c.row]? = some r ∧ tolerance < r.entry col ∧ c.ratio = ratio col r := by
  obtain hb | ⟨k, r, hr, hk⟩ := Tableau.ratioTest_eq_some h
  · cases hb
  obtain ⟨hlt, rfl⟩ := Tableau.candidate?_eq_some hk
  exact ⟨r, by rwa [zero_add], hlt, rfl⟩

/-- **The winner of the ratio test is near the least ratio**, where no other
ratio is. -/
theorem ratioTest_le_of_clear (h0 : 0 ≤ tolerance) {least : ℚ} {rows : List (BasicRow ℚ)}
    (hclear : ∀ r ∈ rows, tolerance < r.entry col →
      ratio col r = least ∨ least + tolerance < ratio col r)
    {q : BasicRow ℚ} (hq : q ∈ rows) (hlt : tolerance < q.entry col)
    (hleast : ratio col q = least) {c : Tableau.Candidate ℚ}
    (h : Tableau.ratioTest tolerance rule col 0 none rows = some c) :
    c.ratio ≤ least + tolerance := by
  induction rows using List.reverseRecOn generalizing c with
  | nil => cases hq
  | append_singleton rows r ih =>
    rw [Tableau.ratioTest_concat, zero_add] at h
    have hfront := fun s hs => hclear s (List.mem_append_left _ hs)
    have hq : q ∈ rows ∨ q = r := by simpa using hq
    by_cases hr : tolerance < r.entry col
    swap
    · -- the last row may not leave, so that nothing changes
      have hnone : Tableau.candidate? tolerance col rows.length r = none := if_pos (not_lt.1 hr)
      rw [hnone] at h
      rcases hq with hq | rfl
      · exact ih hfront hq h
      · exact absurd hlt hr
    rw [Tableau.candidate?_of_lt hr] at h
    cases hbest : Tableau.ratioTest tolerance rule col 0 none rows with
    | none =>
      -- it is the first that may leave
      rw [hbest] at h
      obtain rfl := Option.some.inj h
      rcases hq with hq | rfl
      · exact absurd hlt (not_lt.2 ((Tableau.ratioTest_eq_none hbest).2 q hq))
      · exact hleast.le.trans (le_add_of_nonneg_right h0)
    | some b =>
      rw [hbest] at h
      obtain ⟨hnew, hold⟩ := Tableau.ratio_le_of_keep h0 h
      rcases hq with hq | rfl
      · -- the one before has the least ratio itself, as it is near it
        obtain ⟨s, hs, hslt, hb⟩ := exists_ratio_of_ratioTest hbest
        have hnear := ih hfront hq hbest
        have hbeq : b.ratio = least := by
          rw [hb] at hnear ⊢
          exact (hfront s (List.mem_of_getElem? hs) hslt).resolve_right (not_lt.2 hnear)
        rw [← hbeq]
        rcases hold with hle | ⟨-, hle⟩
        · exact hle.trans (le_add_of_nonneg_right h0)
        · exact hle
      · exact hleast ▸ hnew

/-- **The leaving row has the least ratio** where the tolerance stays out of the
ratio test, by both rules. -/
theorem ClearRatios.ratio_le (h : ClearRatios tolerance col t) (h0 : 0 ≤ tolerance)
    (hrow : t.leaving tolerance rule col = some row) :
    ∃ r, t.rows[row]? = some r ∧ 0 < r.entry col ∧
      ∀ s ∈ t.rows, 0 < s.entry col → Simplex.ratio col r ≤ Simplex.ratio col s := by
  obtain ⟨c, hc, rfl⟩ := Option.map_eq_some_iff.1 hrow
  obtain ⟨r, hr, hlt, hratio⟩ := exists_ratio_of_ratioTest hc
  have hmem := List.mem_of_getElem? hr
  have hpos := h0.trans_lt hlt
  obtain ⟨q, ⟨hq, hqpos⟩, hmin⟩ := Set.exists_min_image {s ∈ {s | s ∈ t.rows} | 0 < s.entry col}
    (Simplex.ratio col) ((List.finite_toSet t.rows).subset (Set.sep_subset _ _)) ⟨r, hmem, hpos⟩
  have hleast : ∀ s ∈ t.rows, 0 < s.entry col → Simplex.ratio col q ≤ Simplex.ratio col s :=
    fun s hs hspos => hmin s ⟨hs, hspos⟩
  have hclear : ∀ s ∈ t.rows, tolerance < s.entry col →
      Simplex.ratio col s = Simplex.ratio col q ∨
        Simplex.ratio col q + tolerance < Simplex.ratio col s := by
    intro s hs hslt
    rcases (hleast s hs (h0.trans_lt hslt)).eq_or_lt with heq | hlt
    · exact .inl heq.symm
    · exact .inr (h.ratio q hq hqpos hleast s hs (h0.trans_lt hslt) hlt)
  have hnear := ratioTest_le_of_clear h0 hclear hq (h.entry q hq hqpos) rfl hc
  rw [hratio] at hnear
  have heq := (hclear r hmem hlt).resolve_right (not_lt.2 hnear)
  exact ⟨r, hr, hpos, fun s hs hspos => heq.le.trans (hleast s hs hspos)⟩

/-- **A pivot keeps all right-hand sides nonnegative** there. -/
theorem ClearRatios.feasible_pivot (h : ClearRatios tolerance col t) (h0 : 0 ≤ tolerance)
    (ht : t.Shaped) (hf : t.Feasible) (hrow : t.leaving tolerance rule col = some row) :
    (t.pivot row col).Feasible := by
  have hratio : ∀ s ∈ t.rows, Simplex.ratio col s = s.rhs / s.entry col := fun s hs => by
    rw [Simplex.ratio, max_eq_left (hf s hs)]
  obtain ⟨r, hr, hpos, hle⟩ := h.ratio_le h0 hrow
  refine Simplex.feasible_pivot ht hf hr hpos fun s hs hspos => ?_
  rw [← hratio r (List.mem_of_getElem? hr), ← hratio s hs]
  exact hle s hs hspos

/-! ## Moves -/

section Moves

variable (h0 : 0 ≤ tolerance)

include h0

theorem lowestPlace_neg_eq {vs : List ℚ} (h : ∀ v ∈ vs, Resolves tolerance v) (j : ℕ)
    (best : Option ℕ) :
    Tableau.lowestPlace j (-tolerance) best vs = Tableau.lowestPlace j 0 best vs := by
  induction vs generalizing j best with
  | nil => rfl
  | cons v vs ih =>
    -- from the first value that is below on, what the others are held against is the same
    have hiff := (h v List.mem_cons_self).lt_neg_iff h0
    have htail := ih (fun w hw => h w (List.mem_cons_of_mem _ hw)) (j + 1)
    simp only [Tableau.lowestPlace, hiff, htail]

theorem findIdx?_lt_neg_eq {vs : List ℚ} (h : ∀ v ∈ vs, Resolves tolerance v) :
    (vs.findIdx? fun v => decide (v < -tolerance)) = vs.findIdx? fun v => decide (v < 0) := by
  induction vs with
  | nil => rfl
  | cons v vs ih =>
    have hiff := (h v List.mem_cons_self).lt_neg_iff h0
    have htail := ih fun w hw => h w (List.mem_cons_of_mem _ hw)
    simp only [List.findIdx?_cons, hiff, htail]

theorem beats_eq {c b : Tableau.Candidate ℚ} (h : Resolves tolerance (c.ratio - b.ratio)) :
    c.beats tolerance rule b = c.beats 0 rule b := by
  have hlt : c.ratio < b.ratio - tolerance ↔ c.ratio < b.ratio - 0 :=
    calc c.ratio < b.ratio - tolerance
      _ ↔ c.ratio - b.ratio < -tolerance := by rw [sub_lt_iff_lt_add', ← sub_eq_add_neg]
      _ ↔ c.ratio - b.ratio < 0 := h.lt_neg_iff h0
      _ ↔ c.ratio < b.ratio - 0 := by rw [sub_neg, sub_zero]
  simp only [Tableau.Candidate.beats, Scalar.abs_rat, hlt, h.abs_le_iff h0]

variable (ht : Resolved tolerance t)

include ht

/-- The same column enters. -/
theorem Resolved.entering_eq (rule : PivotRule) :
    t.entering tolerance rule = t.entering 0 rule := by
  cases rule with
  | largestCoefficient =>
    show Tableau.lowestPlace 0 (-tolerance) none _ = Tableau.lowestPlace 0 (-0) none _
    rw [lowestPlace_neg_eq h0 ht.cost, neg_zero]
  | lowestIndex =>
    show List.findIdx? (fun v => decide (v < -tolerance)) _ =
      List.findIdx? (fun v => decide (v < -0)) _
    rw [findIdx?_lt_neg_eq h0 ht.cost, neg_zero]

theorem Resolved.candidate?_eq (hr : r ∈ t.rows) (col i : ℕ) :
    Tableau.candidate? tolerance col i r = Tableau.candidate? 0 col i r := by
  have hle : r.entry col ≤ tolerance ↔ r.entry col ≤ 0 := by
    rw [← not_lt, ← not_lt, (ht.entry hr col).lt_iff h0]
  simp only [Tableau.candidate?, hle]

/-- Between rows of the tableau the ratio test keeps the same candidate. -/
theorem Resolved.ratioTest_eq (rule : PivotRule) (hcol : col < t.width)
    {rows : List (BasicRow ℚ)} (hrows : ∀ r ∈ rows, r ∈ t.rows) (i : ℕ)
    {best : Option (Tableau.Candidate ℚ)}
    (hbest : ∀ b ∈ best, ∃ s ∈ t.rows, b.ratio = Simplex.ratio col s) :
    Tableau.ratioTest tolerance rule col i best rows =
      Tableau.ratioTest 0 rule col i best rows := by
  induction rows generalizing i best with
  | nil => rfl
  | cons r rows ih =>
    have hr := hrows r List.mem_cons_self
    have hnext : ∀ c ∈ Tableau.candidate? 0 col i r, c.ratio = Simplex.ratio col r := by
      intro c hc
      obtain ⟨-, rfl⟩ := Tableau.candidate?_eq_some hc
      rfl
    have hkeep : Tableau.keep tolerance rule best (Tableau.candidate? 0 col i r) =
        Tableau.keep 0 rule best (Tableau.candidate? 0 col i r) := by
      unfold Tableau.keep
      split
      · rfl
      · rfl
      · rename_i c b hc
        obtain ⟨s, hs, hb⟩ := hbest b rfl
        have hres := ht.ratio r hr s hs col hcol
        rw [← hb, ← hnext c hc] at hres
        rw [beats_eq h0 hres]
    rw [Tableau.ratioTest_cons, Tableau.ratioTest_cons, ht.candidate?_eq h0 hr, hkeep]
    refine ih (fun q hq => hrows q (List.mem_cons_of_mem _ hq)) (i + 1) fun b hb => ?_
    rcases Tableau.keep_eq_some hb with hb | hb
    · exact hbest b hb
    · exact ⟨r, hr, hnext b hb⟩

/-- The same row leaves. -/
theorem Resolved.leaving_eq (rule : PivotRule) (hcol : col < t.width) :
    t.leaving tolerance rule col = t.leaving 0 rule col := by
  rw [Tableau.leaving, ht.ratioTest_eq h0 rule hcol (fun _ hr => hr) 0
    fun b hb => absurd hb (Option.not_mem_none b)]
  rfl

/-- **A resolved tableau has the same move.** -/
theorem Resolved.move_eq (hshape : t.Shaped) (rule : PivotRule) :
    move tolerance rule t = move 0 rule t := by
  unfold move
  rw [ht.entering_eq h0]
  cases hc : t.entering 0 rule with
  | none => rfl
  | some col =>
    have hcol := (Tableau.entering_eq_some hc).1
    rw [hshape.length_objective] at hcol
    simp only [ht.leaving_eq h0 rule hcol]

end Moves

/-! ## Runs -/

section Runs

variable {small : ℚ} (h0 : 0 ≤ tolerance)

include h0

/-- **Pivoting goes the same way** through forms that are all resolved. -/
theorem optimize_eq_of_resolved (hall : ∀ s, Form t s → Resolved tolerance s) (hs : Form t s)
    (k : ℕ) : optimize ⟨maxIterations, tolerance⟩ limit k s =
      optimize ⟨maxIterations, 0⟩ limit k s := by
  refine optimize_congr ?_ (Form t) (fun u rule hu => ?_) (fun u rule row col hu hm => ?_) hs
  · rfl
  · exact (hall u hu).move_eq h0 hu.toShaped rule
  · exact form_of_move le_rfl hu hm

/-- The same column takes the place of an artificial variable. -/
theorem Resolved.replacement?_eq (ht : Resolved tolerance t) (row : ℕ) :
    replacement? tolerance t row = replacement? 0 t row := by
  have hentry : ∀ j, tolerance < |t.entry row j| ↔ 0 < |t.entry row j| := by
    intro j
    unfold Tableau.entry
    split
    · rename_i r hr
      exact (ht.entry (List.mem_of_getElem? hr) j).lt_abs_iff h0
    · simpa using h0
  simp only [replacement?, Scalar.abs_rat, hentry]

/-- **Driving out does the same** where all forms are resolved. -/
theorem driveOut_eq_of_resolved (hall : ∀ s, Form t s → Resolved tolerance s) (hs : Form t s)
    (hn : n ≤ s.rows.length) :
    driveOut tolerance s (List.range n) = driveOut 0 s (List.range n) := by
  induction n with
  | zero => rfl
  | succ n ih =>
    have hform := form_driveOut le_rfl hs (Nat.le_of_succ_le hn)
    rw [driveOut_range_succ, driveOut_range_succ, ih (Nat.le_of_succ_le hn), driveOutRow,
      driveOutRow, (hall _ hform).replacement?_eq h0]

/-- **So does the first phase.** -/
theorem feasibleTableau_eq_of_resolved (hall : ∀ t, Reached p t → Resolved tolerance t) :
    feasibleTableau ⟨maxIterations, tolerance⟩ limit (Tableau.ofProblem p) =
      feasibleTableau ⟨maxIterations, 0⟩ limit (Tableau.ofProblem p) := by
  have hforms : ∀ s, Form (priceArtificials (Tableau.ofProblem p)) s → Resolved tolerance s :=
    fun s hs => hall s (.inl hs)
  simp only [feasibleTableau, firstPhase]
  rw [optimize_eq_of_resolved h0 hforms (form_first p)]
  split
  · rfl
  cases ho : optimize ⟨maxIterations, 0⟩ limit 0 (priceArtificials (Tableau.ofProblem p)) with
  | none => rw [Option.map_none, Option.map_none]
  | some o =>
    have hform := form_optimize le_rfl (form_first p) ho
    have hcorner : Resolves tolerance (-o.tableau.corner) := by
      intro hne
      rw [abs_neg]
      exact (hforms _ hform).corner (neg_ne_zero.1 hne)
    simp only [Option.map_some, concludeFirst, hcorner.lt_iff h0,
      driveOut_eq_of_resolved h0 hforms hform le_rfl]

theorem Resolved.snap_eq (ht : Resolved tolerance t) (hr : r ∈ t.rows) :
    snap tolerance r.rhs = snap 0 r.rhs := by
  simp only [snap, Scalar.abs_rat, (ht.rhs r hr).abs_le_iff h0]

/-- The same values are read off. -/
theorem Resolved.extract_eq {o : Optimized ℚ} (ht : Resolved tolerance o.tableau) (n : ℕ) :
    extract tolerance n o = extract 0 n o := by
  have hvalues : basicValues tolerance o.tableau n = basicValues 0 o.tableau n :=
    List.foldl_ext _ _ _ fun values r hr => by rw [ht.snap_eq h0 hr]
  rw [extract, extract, hvalues]

/-- **A tolerance that resolves all that is reached changes no answer.** -/
theorem solve_eq_solve_zero (hall : ∀ t, Reached p t → Resolved tolerance t) :
    solve ⟨maxIterations, tolerance⟩ limit p = solve ⟨maxIterations, 0⟩ limit p := by
  simp only [solve, feasibleTableau_eq_of_resolved h0 hall]
  cases hf : feasibleTableau ⟨maxIterations, 0⟩ limit (Tableau.ofProblem p) with
  | none => simp only [Option.bind_eq_bind, Option.bind_none]
  | some f =>
    cases ht : f.tableau? with
    | none => simp only [Option.bind_eq_bind, Option.bind_some, ht]
    | some t =>
      have hstart := start_of_feasibleTableau le_rfl hf ht
      have hforms : ∀ s, Form (priceObjective t p.objective) s → Resolved tolerance s :=
        fun s hs => hall s (.inr ⟨_, hstart, hs⟩)
      simp only [Option.bind_eq_bind, Option.bind_some, ht, secondPhase]
      rw [optimize_eq_of_resolved h0 hforms hstart.form]
      cases ho : optimize ⟨maxIterations, 0⟩ limit 0 (priceObjective t p.objective) with
      | none => rw [Option.bind_none, Option.bind_none]
      | some o =>
        have hres := hforms _ (form_optimize le_rfl hstart.form ho)
        simp only [Option.bind_some, hres.extract_eq h0]

end Runs

end Simplex

end Milp
