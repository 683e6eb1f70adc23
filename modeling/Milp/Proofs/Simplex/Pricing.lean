import Milp.Proofs.Problem.Feasible
import Milp.Proofs.Simplex.Shapes
/-!
# Pricing out the basis

Both phases set the objective row anew and subtract multiples of the
equations from it until it is zero in the basic columns. Subtracting the
equations of a canonical tableau one by one does that (`entry_priceOut`),
and changes nothing on what solves them (`gap_priceOut`). The first phase
looks at the basic columns instead of the entries, which comes to the same
(`objective_priceArtificials`). Priced so, its objective row says how much
the artificial variables amount to, and that of the second phase says minus
the objective of the problem.
-/

namespace Milp

namespace Simplex

variable {t : Tableau ℚ} {z : Row ℚ} {rows : List (BasicRow ℚ)} {n : ℕ}

/-- The row with the basic columns of all rows eliminated, one by one. -/
def priceOut (rows : List (BasicRow ℚ)) (z : Row ℚ) : Row ℚ :=
  rows.foldl (fun z r => z.eliminate r.basic r.toRow) z

theorem priceOut_cons (r : BasicRow ℚ) (rows : List (BasicRow ℚ)) (z : Row ℚ) :
    priceOut (r :: rows) z = priceOut rows (z.eliminate r.basic r.toRow) := rfl

theorem length_priceOut (hlen : ∀ r ∈ rows, r.coefficients.length = n)
    (hz : z.coefficients.length = n) : (priceOut rows z).coefficients.length = n :=
  length_foldl_rows (fun w hw r hr => by
    rw [Row.length_eliminate _ (hw.trans (hlen r hr).symm), hw]) hz

/-- What solves the equations cannot tell the row from the one before. -/
theorem gap_priceOut (hlen : ∀ r ∈ rows, r.coefficients.length = n)
    (hz : z.coefficients.length = n) {x : ℕ → ℚ} {h : ℚ} (hx : ∀ r ∈ rows, r.gap x h = 0) :
    (priceOut rows z).gap x h = z.gap x h := by
  induction rows generalizing z with
  | nil => rfl
  | cons r rows ih =>
    have hr : r.coefficients.length = n := hlen r List.mem_cons_self
    rw [priceOut_cons, ih (fun s hs => hlen s (List.mem_cons_of_mem _ hs))
      ((Row.length_eliminate _ (hz.trans hr.symm)).trans hz)
      (fun s hs => hx s (List.mem_cons_of_mem _ hs)),
      Row.gap_eliminate _ (hz.trans hr.symm), hx r List.mem_cons_self, mul_zero, sub_zero]

/-- A column that no row has an entry in stays as it is. -/
theorem entry_priceOut_of_zero (hlen : ∀ r ∈ rows, r.coefficients.length = n)
    (hz : z.coefficients.length = n) {j : ℕ} (hj : ∀ r ∈ rows, r.entry j = 0) :
    (priceOut rows z).entry j = z.entry j := by
  induction rows generalizing z with
  | nil => rfl
  | cons r rows ih =>
    have hr : r.coefficients.length = n := hlen r List.mem_cons_self
    rw [priceOut_cons, ih (fun s hs => hlen s (List.mem_cons_of_mem _ hs))
      ((Row.length_eliminate _ (hz.trans hr.symm)).trans hz)
      (fun s hs => hj s (List.mem_cons_of_mem _ hs)),
      Row.entry_eliminate _ (hz.trans hr.symm), hj r List.mem_cons_self, mul_zero, sub_zero]

/-- Rows whose basic columns are unit columns among them. -/
def Units (rows : List (BasicRow ℚ)) : Prop :=
  (∀ r ∈ rows, r.entry r.basic = 1) ∧
    rows.Pairwise fun r s => r.entry s.basic = 0 ∧ s.entry r.basic = 0

theorem Units.tail {r : BasicRow ℚ} (h : Units (r :: rows)) : Units rows :=
  ⟨fun s hs => h.1 s (List.mem_cons_of_mem _ hs), (List.pairwise_cons.1 h.2).2⟩

/-- **Pricing out makes the basic entries zero.** -/
theorem entry_priceOut (hlen : ∀ r ∈ rows, r.coefficients.length = n)
    (hz : z.coefficients.length = n) (hu : Units rows) {r : BasicRow ℚ} (hr : r ∈ rows) :
    (priceOut rows z).entry r.basic = 0 := by
  induction rows generalizing z with
  | nil => cases hr
  | cons s rows ih =>
    have hs : s.coefficients.length = n := hlen s List.mem_cons_self
    have hz' := (Row.length_eliminate s.basic (hz.trans hs.symm)).trans hz
    have hlen' := fun q hq => hlen q (List.mem_cons_of_mem s hq)
    rw [priceOut_cons]
    rcases List.mem_cons.1 hr with rfl | hr
    · rw [entry_priceOut_of_zero hlen' hz' fun q hq => ((List.pairwise_cons.1 hu.2).1 q hq).2,
        Row.entry_eliminate _ (hz.trans hs.symm), hu.1 r List.mem_cons_self, mul_one, sub_self]
    · exact ih hlen' hz' hu.tail hr

/-- The rows of a canonical tableau have unit columns. -/
theorem units_rows (ht : t.Canonical) : Units t.rows := by
  refine ⟨fun r hr => ht.entry_self hr, List.pairwise_iff_getElem.2 fun i k hi hk hik => ?_⟩
  have hgi := List.getElem?_eq_getElem hi
  have hgk := List.getElem?_eq_getElem hk
  exact ⟨by rw [ht.entry_basic hgi hgk, if_neg hik.ne],
    by rw [ht.entry_basic hgk hgi, if_neg hik.ne']⟩

/-- A new objective row leaves a tableau canonical. -/
theorem canonical_priceOut (ht : t.Canonical) (hz : z.coefficients.length = t.width) :
    Tableau.Canonical { t with objective := priceOut t.rows z } where
  length_coefficients := ht.length_coefficients
  length_objective := length_priceOut ht.length_coefficients hz
  basic_lt := ht.basic_lt
  entry_basic := ht.entry_basic

/-- Priced out, the new objective row is zero in the basic columns. -/
theorem priced_priceOut (ht : t.Canonical) (hz : z.coefficients.length = t.width) :
    Tableau.Priced { t with objective := priceOut t.rows z } :=
  fun _ hr => entry_priceOut ht.length_coefficients hz (units_rows ht) hr

/-- A tableau whose objective row is priced out anew is ready. -/
theorem ready_priceOut (ht : t.Canonical) (hf : t.Feasible) (hz : z.coefficients.length = t.width) :
    Ready { t with objective := priceOut t.rows z } where
  toCanonical := canonical_priceOut ht hz
  priced := priced_priceOut ht hz
  feasible := hf

/-! ## The first phase -/

/-- The objective row of the first phase before it is priced out. -/
def artificialCosts (t : Tableau ℚ) : Row ℚ :=
  ⟨List.replicate t.structural 0 ++ List.replicate t.artificials 1, 0⟩

theorem length_artificialCosts (t : Tableau ℚ) :
    (artificialCosts t).coefficients.length = t.width := by
  simp [artificialCosts, Tableau.width]

theorem entry_artificialCosts {j : ℕ} (hj : j < t.width) :
    (artificialCosts t).entry j = if t.structural ≤ j then 1 else 0 := by
  show (List.replicate t.structural (0 : ℚ) ++ List.replicate t.artificials 1).getD j 0 = _
  rw [Tableau.width] at hj
  split
  · rw [List.getD_append_right _ _ _ _ (by simpa), List.getD_replicate _ (by simp; omega)]
  · rw [List.getD_append _ _ _ _ (by simp; omega), List.getD_replicate _ (by omega)]

/-- The gap of that row is what the artificial variables amount to. -/
theorem gap_artificialCosts (t : Tableau ℚ) (x : ℕ → ℚ) (h : ℚ) :
    (artificialCosts t).gap x h = ∑ i ∈ Finset.range t.artificials, x (t.structural + i) := by
  show dot (List.replicate t.structural 0 ++ List.replicate t.artificials 1) x - h * 0 = _
  rw [mul_zero, sub_zero, dot_append, dot_replicate_zero, zero_add, List.length_replicate,
    dot_eq_sum, List.length_replicate]
  refine Finset.sum_congr rfl fun i hi => ?_
  rw [List.getD_replicate _ (Finset.mem_range.1 hi), one_mul]

/-- Where a row has entry one in the basic columns of artificial variables
and zero in the others, looking at the column is looking at the entry. -/
theorem foldl_minus_eq_priceOut {a : ℕ} (hlen : ∀ r ∈ rows, r.coefficients.length = n)
    (hz : z.coefficients.length = n) (hu : Units rows)
    (hcost : ∀ r ∈ rows, z.entry r.basic = if a ≤ r.basic then 1 else 0) :
    rows.foldl (fun z r => if a ≤ r.basic then z.minus r.toRow else z) z = priceOut rows z := by
  induction rows generalizing z with
  | nil => rfl
  | cons r rows ih =>
    have hr : r.coefficients.length = n := hlen r List.mem_cons_self
    have hstep : (if a ≤ r.basic then z.minus r.toRow else z) = z.eliminate r.basic r.toRow := by
      have hc := hcost r List.mem_cons_self
      rw [Row.eliminate_eq _ (hz.trans hr.symm), hc]
      split
      · exact Row.minus_eq_minusTimes _ _
      · rename_i hlt
        rw [if_neg hlt] at hc
        rw [← hc, ← Row.eliminate_eq _ (hz.trans hr.symm), Row.eliminate, hc]
        rfl
    rw [List.foldl_cons, priceOut_cons, hstep]
    refine ih (fun s hs => hlen s (List.mem_cons_of_mem _ hs))
      ((Row.length_eliminate _ (hz.trans hr.symm)).trans hz) hu.tail fun s hs => ?_
    rw [Row.entry_eliminate _ (hz.trans hr.symm), ((List.pairwise_cons.1 hu.2).1 s hs).1, mul_zero,
      sub_zero, hcost s (List.mem_cons_of_mem _ hs)]

/-- **The objective row of the first phase** is priced out. -/
theorem objective_priceArtificials (ht : t.Canonical) :
    priceArtificials t = { t with objective := priceOut t.rows (artificialCosts t) } := by
  have hfold := foldl_minus_eq_priceOut ht.length_coefficients (length_artificialCosts t)
    (units_rows ht) fun r hr => entry_artificialCosts (ht.basic_lt r hr)
  unfold priceArtificials
  rw [← hfold]
  rfl

theorem ready_priceArtificials (ht : t.Canonical) (hf : t.Feasible) :
    Ready (priceArtificials t) := by
  rw [objective_priceArtificials ht]
  exact ready_priceOut ht hf (length_artificialCosts t)

/-- **The first phase minimises the artificial variables.** -/
theorem gap_priceArtificials (ht : t.Canonical) {x : ℕ → ℚ} {h : ℚ} (hx : t.Solves x h) :
    (priceArtificials t).objective.gap x h =
      ∑ i ∈ Finset.range t.artificials, x (t.structural + i) := by
  rw [objective_priceArtificials ht]
  show (priceOut t.rows (artificialCosts t)).gap x h = _
  rw [gap_priceOut ht.length_coefficients (length_artificialCosts t) hx, gap_artificialCosts]

/-! ## The second phase -/

/-- The objective row of the second phase before it is priced out. -/
def objectiveCosts (t : Tableau ℚ) (c : List ℚ) : Row ℚ :=
  ⟨c.map (- ·) ++ List.replicate (t.width - c.length) 0, 0⟩

theorem length_objectiveCosts {c : List ℚ} (hc : c.length ≤ t.width) :
    (objectiveCosts t c).coefficients.length = t.width := by
  simp [objectiveCosts]
  omega

theorem gap_objectiveCosts (t : Tableau ℚ) (c : List ℚ) (x : ℕ → ℚ) (h : ℚ) :
    (objectiveCosts t c).gap x h = -dot c x := by
  have hneg : c.map (- ·) = c.map (-1 * ·) := List.map_congr_left fun a _ => (neg_one_mul a).symm
  show dot (c.map (- ·) ++ List.replicate (t.width - c.length) 0) x - h * 0 = _
  rw [mul_zero, sub_zero, dot_append, dot_replicate_zero, add_zero, hneg, dot_map_mul, neg_one_mul]

theorem ready_priceObjective (ht : t.Canonical) (hf : t.Feasible) {c : List ℚ}
    (hc : c.length ≤ t.width) : Ready (priceObjective t c) :=
  ready_priceOut ht hf (length_objectiveCosts hc)

/-- **The second phase maximises the objective**: its row says minus that. -/
theorem gap_priceObjective (ht : t.Canonical) {c : List ℚ} (hc : c.length ≤ t.width)
    {x : ℕ → ℚ} {h : ℚ} (hx : t.Solves x h) :
    (priceObjective t c).objective.gap x h = -dot c x := by
  show (priceOut t.rows (objectiveCosts t c)).gap x h = _
  rw [gap_priceOut ht.length_coefficients (length_objectiveCosts hc) hx, gap_objectiveCosts]

end Simplex

end Milp
