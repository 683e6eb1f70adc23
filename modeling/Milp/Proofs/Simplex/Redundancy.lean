import Milp.Proofs.Simplex.BasicSolution
/-!
# No row is redundant

The first phase can end with artificial variables in the basis, and the rows
of those for which nothing takes their place would be dropped as dependent on
the others. There are no such rows: the column that mirrors an artificial one
has an entry of minus one where that is basic, which every tolerance below one
accepts. So whatever depends on what, each row finds its replacement when its
turn comes (`exists_replacement?_at`), no event reports a row that is dropped,
and the second phase has as many rows as the problem (`solve_keeps_rows`).
-/

namespace Milp

namespace Simplex

/-! ## Events of pivoting -/

section Events

variable {α : Type} [Scalar α] {cfg : Config α} {t : Tableau α}

omit [Scalar α] in
/-- No move drops a row. -/
theorem droppingRow_notMem_moveEvents (cfg : Config α) (k : ℕ) (m : Move) (i : ℕ) :
    Event.droppingRow i ∉ moveEvents cfg k m := by
  unfold moveEvents
  cases m <;> split <;> simp

/-- **Pivoting drops no row.** -/
theorem droppingRow_notMem_of_optimize {limit k : ℕ} {o : Optimized α}
    (h : optimize cfg limit k t = some o) (i : ℕ) : Event.droppingRow i ∉ o.events := by
  induction limit using Nat.strong_induction_on generalizing k t o with
  | h limit ih =>
    rcases optimize_cases h with ⟨-, hev, -⟩ | ⟨row, col, limit, o', rfl, -, ho', -, -, hev⟩
    · rw [hev]
      exact droppingRow_notMem_moveEvents _ _ _ _
    · rw [hev, List.mem_append, not_or]
      exact ⟨droppingRow_notMem_moveEvents _ _ _ _, ih limit (Nat.lt_succ_self limit) ho'⟩

/-- As many rows at every pivot. -/
theorem length_rows_after {s : Tableau α} {k : ℕ} (h : after cfg t k = some s) :
    s.rows.length = t.rows.length :=
  after_induction (fun s => s.rows.length = t.rows.length)
    (fun _ _ _ _ hs _ => Tableau.length_rows_pivot.trans hs) rfl h

end Events

/-! ## Driving out, row by row -/

variable {p : Problem ℚ} {t : Tableau ℚ} {o : Optimized ℚ} {f : Feasible ℚ}
variable {tolerance : ℚ} {i maxIterations limit : ℕ}

/-- The tableau when the turn of a row comes to be driven out: the rows before
it have been. -/
def atTurn (tolerance : ℚ) (t : Tableau ℚ) (row : ℕ) : Tableau ℚ :=
  (driveOut tolerance t (List.range row)).1

/-- **Each row finds its replacement** when its turn comes, if its basic
variable is artificial. -/
theorem exists_replacement?_at (ht : t.Canonical) (hm : t.Mirrored) (h0 : 0 ≤ tolerance)
    (h1 : tolerance < 1) (hi : i < t.rows.length) :
    ∃ r, (atTurn tolerance t i).rows[i]? = some r ∧ (t.structural ≤ r.basic →
      ∃ col < t.structural, replacement? tolerance (atTurn tolerance t i) i = some col) := by
  have hbefore : ∀ k ∈ List.range i, k < t.rows.length :=
    fun k hk => (List.mem_range.1 hk).trans hi
  obtain ⟨u, hu, hdriven, -⟩ := driveOut_spec ht hm h0 h1 hbefore
  have hr := List.getElem?_eq_getElem (hdriven.length_rows_eq.symm ▸ hi)
  rw [atTurn, hu]
  refine ⟨_, hr, fun hb => ?_⟩
  rw [← hdriven.structural_eq] at hb ⊢
  obtain ⟨col, hcol⟩ := exists_replacement? hdriven.canonical hdriven.mirrored h1 hr hb
  exact ⟨col, (replacement?_eq_some hcol hr).1, hcol⟩

/-- **The first phase reports no row that is dropped.** -/
theorem droppingRow_notMem_feasibleTableau (h0 : 0 ≤ tolerance) (h1 : tolerance < 1)
    (h : feasibleTableau ⟨maxIterations, tolerance⟩ limit (Tableau.ofProblem p) = some f) (i : ℕ) :
    Event.droppingRow i ∉ f.events := by
  unfold feasibleTableau at h
  split at h
  · cases h
    exact List.not_mem_nil
  obtain ⟨o, ho, rfl⟩ := Option.map_eq_some_iff.1 h
  have hnone := droppingRow_notMem_of_optimize ho i
  have hform := form_optimize h0 (form_first p) ho
  have hmir := mirrored_of_form h0 (form_first p) (Tableau.mirrored_ofProblem p) ho
  obtain ⟨u, hu, -⟩ := exists_driven hform.toCanonical hmir h0 h1
  unfold concludeFirst
  cases o.ending with
  | unbounded => exact hnone
  | optimal =>
    dsimp only
    split
    · simpa using hnone
    · simpa [hu] using hnone

/-- **No row is dropped**, with every tolerance from zero on and below one,
also where rows depend on each other. In the first phase every row whose basic
variable is artificial finds a column that can take its place, so that none is
redundant, no event reports one, and no artificial variable stays basic; all
tableaus of the second phase have as many rows as the problem. -/
theorem solve_keeps_rows (h0 : 0 ≤ tolerance) (h1 : tolerance < 1) (p : Problem ℚ)
    (maxIterations limit : ℕ) :
    (∀ o, optimize ⟨maxIterations, tolerance⟩ limit 0
        (priceArtificials (Tableau.ofProblem p)) = some o →
      (∀ i < p.numRows, ∃ r, (atTurn tolerance o.tableau i).rows[i]? = some r ∧
        (p.numVariables + p.numRows ≤ r.basic → ∃ col < p.numVariables + p.numRows,
          replacement? tolerance (atTurn tolerance o.tableau i) i = some col)) ∧
      (driveOut tolerance o.tableau (List.range o.tableau.rows.length)).2 = [] ∧
      ∀ r ∈ (driveOut tolerance o.tableau (List.range o.tableau.rows.length)).1.rows,
        r.basic < p.numVariables + p.numRows) ∧
    (∀ f, feasibleTableau ⟨maxIterations, tolerance⟩ limit (Tableau.ofProblem p) = some f →
      (∀ i, .droppingRow i ∉ f.events) ∧
      ∀ t, f.tableau? = some t → ∀ k s,
        after ⟨maxIterations, tolerance⟩ (priceObjective t p.objective) k = some s →
          s.rows.length = p.numRows) ∧
    ∀ run, solve ⟨maxIterations, tolerance⟩ limit p = some run →
      ∀ i, .droppingRow i ∉ run.events := by
  refine ⟨fun o ho => ?_, fun f hf => ⟨droppingRow_notMem_feasibleTableau h0 h1 hf, ?_⟩,
    fun run hrun i => ?_⟩
  · have hform := form_optimize h0 (form_first p) ho
    have hmir := mirrored_of_form h0 (form_first p) (Tableau.mirrored_ofProblem p) ho
    have hrows : o.tableau.rows.length = p.numRows :=
      hform.equivalent.length_rows_eq.trans (Tableau.length_rows_ofProblem p)
    have hst : o.tableau.structural = p.numVariables + p.numRows := hform.equivalent.structural_eq
    obtain ⟨u, hu, hdriven, hbasic⟩ := exists_driven hform.toCanonical hmir h0 h1
    rw [hdriven.structural_eq] at hbasic
    rw [hu, ← hst, ← hrows]
    exact ⟨fun i hi => exists_replacement?_at hform.toCanonical hmir h0 h1 hi, rfl, hbasic⟩
  · intro t ht k s hs
    exact (length_rows_after hs).trans (describes_of_feasibleTableau h0 h1 hf ht).length_rows_eq
  · obtain ⟨f, hf, ⟨-, -, hev⟩ | ⟨t, o, -, ho, -, hev⟩⟩ := solve_cases hrun
    · simp [hev, droppingRow_notMem_feasibleTableau h0 h1 hf i]
    · simp [hev, droppingRow_notMem_feasibleTableau h0 h1 hf i,
        droppingRow_notMem_of_optimize ho i]

/-- One variable that three rows, of which each follows from the other two,
hold at one. -/
def pinned : Problem ℚ where
  objective := [2]
  rows := [⟨[1], 1⟩, ⟨[-1], -1⟩, ⟨[-2], -2⟩]
  integer := [false]
  objective_ne_nil := List.cons_ne_nil _ _
  rows_ne_nil := List.cons_ne_nil _ _
  length_coefficients := List.forall_mem_cons.2
    ⟨rfl, List.forall_mem_cons.2 ⟨rfl, List.forall_mem_singleton.2 rfl⟩⟩
  length_integer := by decide

/-- On `pinned` the first phase leaves two artificial variables basic. Both are
replaced, and the second phase has all three rows. -/
theorem solve_keeps_rows_pinned :
    ∃ o, optimize ⟨10, 1 / 2⟩ 9 0 (priceArtificials (Tableau.ofProblem pinned)) = some o ∧
      o.tableau.basis = [0, 4, 5] ∧
      (∃ col < 4, replacement? (1 / 2) (atTurn (1 / 2) o.tableau 2) 2 = some col) ∧
      (∀ r ∈ (driveOut (1 / 2) o.tableau (List.range o.tableau.rows.length)).1.rows,
        r.basic < 4) ∧
      ∃ run, solve ⟨10, 1 / 2⟩ 9 pinned = some run ∧ ∀ i, .droppingRow i ∉ run.events := by
  obtain ⟨hfirst, -, hsolve⟩ := solve_keeps_rows (by norm_num : (0 : ℚ) ≤ 1 / 2) (by norm_num)
    pinned 10 9
  obtain ⟨o, ho, hbasis⟩ := Option.map_eq_some_iff.1
    (show (optimize ⟨10, 1 / 2⟩ 9 0 (priceArtificials (Tableau.ofProblem pinned))).map
      (fun o => (o.tableau.basis, (atTurn (1 / 2) o.tableau 2).basis)) =
        some ([0, 4, 5], [0, 1, 5]) by decide +kernel)
  obtain ⟨hlast, hturn⟩ := Prod.mk.inj hbasis
  obtain ⟨hfound, -, hstructural⟩ := hfirst o ho
  obtain ⟨r, hr, hcol⟩ := hfound 2 (by decide)
  have hbasic : 4 ≤ r.basic := by
    have hget : (atTurn (1 / 2) o.tableau 2).basis[2]? = some r.basic := by
      rw [Tableau.basis, List.getElem?_map, hr, Option.map_some]
    rw [hturn] at hget
    exact Option.some.inj hget ▸ by decide
  obtain ⟨run, hrun⟩ : ∃ run, solve ⟨10, 1 / 2⟩ 9 pinned = some run :=
    Option.isSome_iff_exists.1 (by decide +kernel)
  exact ⟨o, ho, hlast, hcol hbasic, hstructural, run, hrun, hsolve run hrun⟩

end Simplex

end Milp
