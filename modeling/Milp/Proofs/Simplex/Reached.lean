import Mathlib.Data.List.Sublists
import Milp.Proofs.Simplex.FirstPhase
import Milp.Proofs.Simplex.Forms
/-!
# What the method reaches

With any tolerance that is not negative the pivots are on entries other than
zero. So pivoting stays among the forms of the tableau it starts from
(`form_optimize`), and so does driving out (`form_driveOut`). A tolerance
of one or more may leave artificial variables basic; their rows are dropped
then, and the rows that are left are still in canonical form. Together that
makes finitely many tableaus for each problem (`finite_reached`), whatever
the tolerance and whenever the rules switch.
-/

namespace Milp

namespace Simplex

variable {s t u : Tableau ℚ} {r : BasicRow ℚ} {n row col limit maxIterations : ℕ}
variable {tolerance : ℚ} {rule : PivotRule} {p : Problem ℚ}

/-! ## Pivoting -/

/-- **A pivot of any rule leads to a form.** -/
theorem form_of_move (h0 : 0 ≤ tolerance) (hs : Form t s)
    (h : move tolerance rule s = .pivot row col) : Form t (s.pivot row col) := by
  obtain ⟨hcol, hrow⟩ := move_eq_pivot h
  obtain ⟨hlt, -⟩ := Tableau.entering_eq_some hcol
  obtain ⟨r, hr, hentry⟩ := Tableau.leaving_eq_some hrow
  exact hs.pivot hr (hs.length_objective ▸ hlt) (h0.trans_lt hentry).ne'

/-- **Pivoting ends at a form.** -/
theorem form_optimize {k : ℕ} {o : Optimized ℚ} (h0 : 0 ≤ tolerance) (hs : Form t s)
    (h : optimize ⟨maxIterations, tolerance⟩ limit k s = some o) : Form t o.tableau :=
  (optimize_induction (Form t) (fun _ _ _ _ hu hm => form_of_move h0 hu hm) h hs).1

/-! ## Driving out -/

/-- Driving out a row leads to a form. -/
theorem form_driveOutRow {acc : Tableau ℚ × List ℕ} (h0 : 0 ≤ tolerance) (hs : Form t acc.1)
    (hr : acc.1.rows[n]? = some r) : Form t (driveOutRow tolerance acc n).1 := by
  obtain ⟨-, heq⟩ | ⟨col, hlt, hcol, heq⟩ | heq := driveOutRow_cases tolerance hr
  · rw [heq]
    exact hs
  · rw [heq]
    exact hs.pivot hr (hlt.trans_le (Nat.le_add_right _ _))
      (abs_pos.1 (h0.trans_lt (replacement?_eq_some hcol hr).2))
  · rw [heq]
    exact hs

/-- **Driving out ends at a form.** -/
theorem form_driveOut (h0 : 0 ≤ tolerance) (hs : Form t s) (hn : n ≤ s.rows.length) :
    Form t (driveOut tolerance s (List.range n)).1 := by
  induction n with
  | zero => exact hs
  | succ n ih =>
    have hform := ih (Nat.le_of_succ_le hn)
    have hlen : n < (driveOut tolerance s (List.range n)).1.rows.length := by
      rw [hform.equivalent.length_rows_eq, ← hs.equivalent.length_rows_eq]
      exact hn
    rw [driveOut_range_succ]
    exact form_driveOutRow h0 hform (List.getElem?_eq_getElem hlen)

/-! ## Dropping rows -/

/-- Rows with unit columns among them are in canonical form. -/
theorem canonical_of_units (ht : t.Shaped) (hu : Units t.rows) : t.Canonical where
  toShaped := ht
  entry_basic {i k r q} hr hq := by
    obtain ⟨hi, rfl⟩ := List.getElem?_eq_some_iff.1 hr
    obtain ⟨hk, rfl⟩ := List.getElem?_eq_some_iff.1 hq
    rcases Nat.lt_trichotomy i k with hlt | rfl | hlt
    · rw [if_neg hlt.ne]
      exact (List.pairwise_iff_getElem.1 hu.2 i k hi hk hlt).1
    · rw [if_pos rfl]
      exact hu.1 _ (List.getElem_mem hi)
    · rw [if_neg hlt.ne']
      exact (List.pairwise_iff_getElem.1 hu.2 k i hk hi hlt).2

/-- **Some of the rows of a canonical tableau are in canonical form.** -/
theorem canonical_of_sublist (ht : t.Canonical) {rows : List (BasicRow ℚ)}
    (h : rows.Sublist t.rows) : Tableau.Canonical { t with rows := rows } := by
  obtain ⟨hone, hpair⟩ := units_rows ht
  refine canonical_of_units (shaped_of_sublist ht.toShaped h) ?_
  exact ⟨fun q hq => hone q (h.subset hq), hpair.sublist h⟩

/-! ## All that is reached -/

/-- The tableaus that the second phase can start from: the first one, where
it has no artificial variables, or some rows of a form that the first phase
ends at. -/
inductive Start (p : Problem ℚ) : Tableau ℚ → Prop
  /-- No first phase is needed. -/
  | direct : (Tableau.ofProblem p).artificials = 0 →
    Start p (priceObjective (Tableau.ofProblem p) p.objective)
  /-- Rows in which an artificial variable stays basic are dropped. -/
  | cleared {u : Tableau ℚ} {rows : List (BasicRow ℚ)} :
    Form (priceArtificials (Tableau.ofProblem p)) u → rows.Sublist u.rows →
    (∀ r ∈ rows, r.basic < u.structural) →
    Start p (priceObjective (dropArtificials { u with rows := rows }) p.objective)

/-- **What the method can reach**: the forms that either phase goes through. -/
def Reached (p : Problem ℚ) (t : Tableau ℚ) : Prop :=
  Form (priceArtificials (Tableau.ofProblem p)) t ∨ ∃ s, Start p s ∧ Form s t

theorem form_first (p : Problem ℚ) :
    Form (priceArtificials (Tableau.ofProblem p)) (priceArtificials (Tableau.ofProblem p)) := by
  have hready :=
    ready_priceArtificials (Tableau.canonical_ofProblem p) (Tableau.feasible_ofProblem p)
  exact .refl hready.toCanonical hready.priced

theorem form_priceObjective (ht : t.Canonical) {c : List ℚ} (hc : c.length ≤ t.width) :
    Form (priceObjective t c) (priceObjective t c) :=
  .refl (canonical_priceOut ht (length_objectiveCosts hc))
    (priced_priceOut ht (length_objectiveCosts hc))

/-- The second phase starts from a form. -/
theorem Start.form (h : Start p t) : Form t t := by
  have hle : p.objective.length ≤ p.numVariables + p.numRows := Nat.le_add_right _ _
  cases h with
  | direct =>
    exact form_priceObjective (Tableau.canonical_ofProblem p) (hle.trans (Nat.le_add_right _ _))
  | cleared hu hsub hb =>
    refine form_priceObjective
      (canonical_dropArtificials (canonical_of_sublist hu.toCanonical hsub) hb) ?_
    have hst := hu.equivalent.structural_eq
    exact (hle.trans_eq hst.symm).trans (Nat.le_add_right _ _)

theorem finite_start (p : Problem ℚ) : {t | Start p t}.Finite := by
  have hcleared := (finite_forms (priceArtificials (Tableau.ofProblem p))).biUnion fun u _ =>
    (List.finite_toSet u.rows.sublists).image fun rows =>
      priceObjective (dropArtificials { u with rows := rows }) p.objective
  refine (hcleared.insert (priceObjective (Tableau.ofProblem p) p.objective)).subset ?_
  rintro t (_ | ⟨hu, hsub, -⟩)
  · exact Set.mem_insert _ _
  · refine Set.mem_insert_of_mem _ (Set.mem_biUnion hu ⟨_, ?_, rfl⟩)
    exact List.mem_sublists.2 hsub

/-- **The method reaches finitely many tableaus on a problem.** -/
theorem finite_reached (p : Problem ℚ) : {t | Reached p t}.Finite := by
  refine ((finite_forms (priceArtificials (Tableau.ofProblem p))).union
    ((finite_start p).biUnion fun s _ => finite_forms s)).subset ?_
  rintro t (ht | ⟨s, hs, ht⟩)
  · exact .inl ht
  · exact .inr (Set.mem_biUnion hs ht)

/-- What the first phase leaves is a start of the second. -/
theorem start_of_feasibleTableau {f : Feasible ℚ} (h0 : 0 ≤ tolerance)
    (h : feasibleTableau ⟨maxIterations, tolerance⟩ limit (Tableau.ofProblem p) = some f)
    (ht : f.tableau? = some t) : Start p (priceObjective t p.objective) := by
  unfold feasibleTableau at h
  split at h
  · rename_i hart
    cases h
    cases ht
    exact .direct hart
  obtain ⟨o, ho, rfl⟩ := Option.map_eq_some_iff.1 h
  have hform := form_optimize h0 (form_first p) ho
  obtain ⟨acc, hacc, rfl⟩ := tableau?_concludeFirst ht
  have hlast := form_driveOut h0 hform le_rfl
  obtain ⟨hswept, -, hsame⟩ := swept_driveOut tolerance hform.toShaped le_rfl
  rw [← hacc] at hlast hswept hsame
  rw [← hsame.length_rows_eq] at hswept
  -- no artificial variable is basic in the rows that are left
  exact .cleared hlast (foldl_eraseIdx_sublist acc.2 acc.1.rows) hswept.basic_lt_dropRows

end Simplex

end Milp
