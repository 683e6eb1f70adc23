import Milp.Proofs.Tableau.Row
/-!
# Canonical form

In a canonical tableau the column of each basic variable is a unit column:
one in its own row and zero in all others. A pivot on any entry but zero
keeps the form (`canonical_pivot`), the assignments that solve the rows
(`solves_pivot_iff`) and, on those, the gap of the objective row
(`gap_objective_pivot`).

Two assignments are read off a canonical tableau. The `vertex` has the
right-hand sides in the basic columns and solves the rows; the `ray` of a
column moves that column by one and the basic columns so as to stay on
solutions.
-/

namespace Milp

namespace Tableau

/-! ## The shape -/

section Shape

variable {α : Type} [Scalar α] {t : Tableau α} {r : BasicRow α} {row col : ℕ}

/-- **The shape of a tableau**: all rows have one entry per column, and the
basic columns are columns. -/
structure Shaped (t : Tableau α) : Prop where
  /-- Every equation has one entry per column. -/
  length_coefficients : ∀ r ∈ t.rows, r.coefficients.length = t.width
  /-- The objective row has one entry per column. -/
  length_objective : t.objective.coefficients.length = t.width
  /-- Basic columns are columns. -/
  basic_lt : ∀ r ∈ t.rows, r.basic < t.width

@[simp] theorem structural_pivot : (t.pivot row col).structural = t.structural := by
  unfold pivot
  split <;> rfl

@[simp] theorem artificials_pivot : (t.pivot row col).artificials = t.artificials := by
  unfold pivot
  split <;> rfl

@[simp] theorem width_pivot : (t.pivot row col).width = t.width := by
  simp [width]

/-- The rows after a pivot, one by one. -/
theorem getElem?_rows_pivot (hr : t.rows[row]? = some r) (i : ℕ) :
    (t.pivot row col).rows[i]? =
      if i = row then some ⟨r.toRow.divide (r.entry col), col⟩
      else t.rows[i]?.map fun s =>
        ⟨s.toRow.eliminate col (r.toRow.divide (r.entry col)), s.basic⟩ := by
  simp only [pivot, hr, List.getElem?_mapIdx]
  split
  · rename_i hi
    subst hi
    simp [hr]
  · rfl

/-- The objective row after a pivot. -/
theorem objective_pivot (hr : t.rows[row]? = some r) :
    (t.pivot row col).objective =
      t.objective.eliminate col (r.toRow.divide (r.entry col)) := by
  simp only [pivot, hr]

@[simp] theorem length_rows_pivot : (t.pivot row col).rows.length = t.rows.length := by
  unfold pivot
  split
  · rfl
  · exact List.length_mapIdx

/-- A row after a pivot is the divided row or one that was eliminated. -/
theorem mem_rows_pivot (hr : t.rows[row]? = some r) {s : BasicRow α}
    (hs : s ∈ (t.pivot row col).rows) :
    s = ⟨r.toRow.divide (r.entry col), col⟩ ∨
      ∃ q ∈ t.rows, s = ⟨q.toRow.eliminate col (r.toRow.divide (r.entry col)), q.basic⟩ := by
  obtain ⟨i, hi⟩ := List.mem_iff_getElem?.1 hs
  rw [getElem?_rows_pivot hr] at hi
  split at hi
  · exact .inl (Option.some.inj hi).symm
  · obtain ⟨q, hq, rfl⟩ := Option.map_eq_some_iff.1 hi
    exact .inr ⟨q, List.mem_of_getElem? hq, rfl⟩

/-- The basic columns after a pivot. -/
theorem basis_pivot (hr : t.rows[row]? = some r) :
    (t.pivot row col).basis = t.basis.set row col := by
  refine List.ext_getElem? fun i => ?_
  have hlt : row < t.rows.length := (List.getElem?_eq_some_iff.1 hr).1
  rw [basis, List.getElem?_map, getElem?_rows_pivot hr, List.getElem?_set, basis,
    List.getElem?_map, List.length_map]
  by_cases hi : i = row
  · subst hi
    simp [hlt]
  · rw [if_neg hi, if_neg (Ne.symm hi), Option.map_map]
    rfl

/-- A pivot in one of the columns keeps the shape. -/
theorem Shaped.pivot (ht : t.Shaped) (hr : t.rows[row]? = some r) (hcol : col < t.width) :
    (t.pivot row col).Shaped := by
  have hdiv : (r.toRow.divide (r.entry col)).coefficients.length = t.width := by
    rw [Row.length_divide, ht.length_coefficients r (List.mem_of_getElem? hr)]
  refine ⟨fun s hs => ?_, ?_, fun s hs => ?_⟩
  · rw [width_pivot]
    rcases mem_rows_pivot hr hs with rfl | ⟨q, hq, rfl⟩
    · exact hdiv
    · have hlen := ht.length_coefficients q hq
      exact (Row.length_eliminate col (hlen.trans hdiv.symm)).trans hlen
  · rw [width_pivot, objective_pivot hr,
      Row.length_eliminate col (ht.length_objective.trans hdiv.symm), ht.length_objective]
  · rw [width_pivot]
    rcases mem_rows_pivot hr hs with rfl | ⟨q, hq, rfl⟩
    · exact hcol
    · exact ht.basic_lt q hq

end Shape

variable {t : Tableau ℚ} {r s : BasicRow ℚ} {row col : ℕ}

/-! ## The form -/

/-- **Canonical form**: the basic columns are the unit columns. -/
structure Canonical (t : Tableau ℚ) : Prop extends Shaped t where
  /-- A basic column is one in its own row and zero in the others. -/
  entry_basic : ∀ {i k : ℕ} {r s : BasicRow ℚ}, t.rows[i]? = some r → t.rows[k]? = some s →
    r.entry s.basic = if i = k then 1 else 0

/-- The objective row is zero in the basic columns. -/
def Priced (t : Tableau ℚ) : Prop := ∀ r ∈ t.rows, t.objective.entry r.basic = 0

/-- The assignment solves the rows, their right-hand sides weighted with
`h`: a point for `h = 1`, a direction for `h = 0`. -/
def Solves (t : Tableau ℚ) (x : ℕ → ℚ) (h : ℚ) : Prop := ∀ r ∈ t.rows, r.gap x h = 0

/-- No right-hand side is negative. -/
def Feasible (t : Tableau ℚ) : Prop := ∀ r ∈ t.rows, 0 ≤ r.rhs

/-- The divided row is as long as any other. -/
theorem Shaped.length_pivotRow (ht : t.Shaped) (hr : t.rows[row]? = some r) (hs : s ∈ t.rows) :
    s.coefficients.length = (r.toRow.divide (r.entry col)).coefficients.length := by
  rw [Row.length_divide, ht.length_coefficients s hs,
    ht.length_coefficients r (List.mem_of_getElem? hr)]

/-- So is the objective row. -/
theorem Shaped.length_objective_pivotRow (ht : t.Shaped) (hr : t.rows[row]? = some r) :
    t.objective.coefficients.length = (r.toRow.divide (r.entry col)).coefficients.length := by
  rw [Row.length_divide, ht.length_objective,
    ht.length_coefficients r (List.mem_of_getElem? hr)]

theorem mem_basis {j : ℕ} : j ∈ t.basis ↔ ∃ r ∈ t.rows, r.basic = j := List.mem_map

namespace Canonical

variable (ht : t.Canonical)

include ht

theorem entry_self (hr : r ∈ t.rows) : r.entry r.basic = 1 := by
  obtain ⟨i, hi⟩ := List.mem_iff_getElem?.1 hr
  rw [ht.entry_basic hi hi, if_pos rfl]

/-- A row has no entry in the basic column of another one. -/
theorem entry_of_mem_basis (hr : r ∈ t.rows) {j : ℕ} (hj : j ∈ t.basis) (hne : j ≠ r.basic) :
    r.entry j = 0 := by
  obtain ⟨s, hs, rfl⟩ := mem_basis.1 hj
  obtain ⟨i, hi⟩ := List.mem_iff_getElem?.1 hr
  obtain ⟨k, hk⟩ := List.mem_iff_getElem?.1 hs
  rw [ht.entry_basic hi hk]
  refine if_neg fun hik => hne ?_
  subst hik
  rw [Option.some.inj (hi.symm.trans hk)]

/-- Rows with the same basic column are the same row. -/
theorem eq_of_basic_eq (hr : r ∈ t.rows) (hs : s ∈ t.rows) (h : r.basic = s.basic) : r = s := by
  obtain ⟨i, hi⟩ := List.mem_iff_getElem?.1 hr
  obtain ⟨k, hk⟩ := List.mem_iff_getElem?.1 hs
  have hone : r.entry s.basic = 1 := h ▸ ht.entry_self hr
  have hik : i = k := by
    by_contra hne
    rw [ht.entry_basic hi hk, if_neg hne] at hone
    exact zero_ne_one hone
  subst hik
  exact Option.some.inj (hi.symm.trans hk)

/-- The basic columns are pairwise distinct. -/
theorem basis_nodup : t.basis.Nodup := by
  rw [List.nodup_iff_getElem?_ne_getElem?]
  intro i k hik hk heq
  rw [basis, List.getElem?_map, List.getElem?_map] at heq
  rw [basis, List.length_map] at hk
  have hi := List.getElem?_eq_getElem (hik.trans hk)
  have hk := List.getElem?_eq_getElem hk
  rw [hi, hk] at heq
  have hbasic : t.rows[i].basic = t.rows[k].basic := Option.some.inj heq
  have h0 := ht.entry_basic hi hk
  rw [if_neg hik.ne, ← hbasic, ht.entry_self (List.getElem_mem _)] at h0
  exact one_ne_zero h0

end Canonical

/-! ## Pivots -/

/-- **A pivot keeps canonical form**, on any entry but zero. -/
theorem canonical_pivot (ht : t.Canonical) (hr : t.rows[row]? = some r) (hcol : col < t.width)
    (hne : r.entry col ≠ 0) : (t.pivot row col).Canonical := by
  refine { ht.toShaped.pivot hr hcol with entry_basic := ?_ }
  intro i k q s hq hs
  rw [getElem?_rows_pivot hr] at hq hs
  have hone : (r.toRow.divide (r.entry col)).entry col = 1 := by
    rw [Row.entry_divide, div_self hne]
  have hlen : ∀ {i : ℕ} {q : BasicRow ℚ}, t.rows[i]? = some q →
      q.coefficients.length = (r.toRow.divide (r.entry col)).coefficients.length :=
    fun h => ht.length_pivotRow hr (List.mem_of_getElem? h)
  by_cases hi : i = row <;> by_cases hk : k = row
  · -- the new basic column, in its own row
    rw [if_pos hi] at hq
    rw [if_pos hk] at hs
    cases hq
    cases hs
    rw [if_pos (hi.trans hk.symm)]
    exact hone
  · -- an old basic column, in the divided row
    rw [if_pos hi] at hq
    rw [if_neg hk] at hs
    cases hq
    obtain ⟨v, hv, rfl⟩ := Option.map_eq_some_iff.1 hs
    rw [if_neg (fun h => hk (h.symm.trans hi))]
    show (r.toRow.divide (r.entry col)).entry v.basic = 0
    rw [Row.entry_divide, ht.entry_basic hr hv, if_neg (Ne.symm hk), zero_div]
  · -- the new basic column, in another row
    rw [if_neg hi] at hq
    rw [if_pos hk] at hs
    cases hs
    obtain ⟨u, hu, rfl⟩ := Option.map_eq_some_iff.1 hq
    rw [if_neg (fun h => hi (h.trans hk))]
    show (u.toRow.eliminate col (r.toRow.divide (r.entry col))).entry col = 0
    rw [Row.entry_eliminate _ (hlen hu), hone, mul_one, sub_self]
  · -- an old basic column, in another row
    rw [if_neg hi] at hq
    rw [if_neg hk] at hs
    obtain ⟨u, hu, rfl⟩ := Option.map_eq_some_iff.1 hq
    obtain ⟨v, hv, rfl⟩ := Option.map_eq_some_iff.1 hs
    show (u.toRow.eliminate col (r.toRow.divide (r.entry col))).entry v.basic = _
    rw [Row.entry_eliminate _ (hlen hu), Row.entry_divide, ht.entry_basic hr hv,
      if_neg (Ne.symm hk), zero_div, mul_zero, sub_zero, ht.entry_basic hu hv]

/-- **A pivot keeps the solutions.** -/
theorem solves_pivot_iff (ht : t.Shaped) (hr : t.rows[row]? = some r) (hne : r.entry col ≠ 0)
    (x : ℕ → ℚ) (h : ℚ) : (t.pivot row col).Solves x h ↔ t.Solves x h := by
  constructor
  · intro hx q hq
    have hdiv : (r.toRow.divide (r.entry col)).gap x h = 0 :=
      hx ⟨r.toRow.divide (r.entry col), col⟩
        (List.mem_of_getElem? (i := row) (by rw [getElem?_rows_pivot hr, if_pos rfl]))
    obtain ⟨i, hi⟩ := List.mem_iff_getElem?.1 hq
    by_cases hrow : i = row
    · subst hrow
      cases hr.symm.trans hi
      rw [Row.gap_divide, div_eq_zero_iff] at hdiv
      exact hdiv.resolve_right hne
    · have hel := hx ⟨q.toRow.eliminate col (r.toRow.divide (r.entry col)), q.basic⟩
        (List.mem_of_getElem? (i := i)
          (by rw [getElem?_rows_pivot hr, if_neg hrow, hi, Option.map_some]))
      rwa [Row.gap_eliminate _ (ht.length_pivotRow hr hq), hdiv, mul_zero, sub_zero] at hel
  · intro hx q hq
    have hdiv : (r.toRow.divide (r.entry col)).gap x h = 0 := by
      rw [Row.gap_divide, hx r (List.mem_of_getElem? hr), zero_div]
    rcases mem_rows_pivot hr hq with rfl | ⟨s, hs, rfl⟩
    · exact hdiv
    · rw [Row.gap_eliminate _ (ht.length_pivotRow hr hs), hdiv, mul_zero, sub_zero]
      exact hx s hs

/-- **A pivot keeps the gap of the objective row** on what solves the rows. -/
theorem gap_objective_pivot (ht : t.Shaped) (hr : t.rows[row]? = some r) {x : ℕ → ℚ} {h : ℚ}
    (hx : t.Solves x h) : (t.pivot row col).objective.gap x h = t.objective.gap x h := by
  rw [objective_pivot hr, Row.gap_eliminate _ (ht.length_objective_pivotRow hr),
    Row.gap_divide, hx r (List.mem_of_getElem? hr), zero_div, mul_zero, sub_zero]

/-- A pivot leaves the objective row zero in the basic columns. -/
theorem priced_pivot (ht : t.Canonical) (hp : t.Priced) (hr : t.rows[row]? = some r)
    (hne : r.entry col ≠ 0) : (t.pivot row col).Priced := by
  intro s hs
  rw [objective_pivot hr, Row.entry_eliminate _ (ht.length_objective_pivotRow hr),
    Row.entry_divide]
  obtain ⟨i, hi⟩ := List.mem_iff_getElem?.1 hs
  rw [getElem?_rows_pivot hr] at hi
  split at hi
  · cases hi
    rw [div_self hne, mul_one, sub_self]
  · rename_i hrow
    obtain ⟨q, hq, rfl⟩ := Option.map_eq_some_iff.1 hi
    rw [ht.entry_basic hr hq, if_neg (Ne.symm hrow), zero_div, mul_zero, sub_zero,
      hp q (List.mem_of_getElem? hq)]

/-- The corner after a pivot. -/
theorem corner_pivot (ht : t.Shaped) (hr : t.rows[row]? = some r) :
    (t.pivot row col).corner = t.corner - t.objective.entry col * (r.rhs / r.entry col) := by
  rw [corner, objective_pivot hr, Row.rhs_eliminate _ (ht.length_objective_pivotRow hr)]
  rfl

/-! ## Assignments on the basis -/

/-- The assignment with a number of each row in its basic column and zero
elsewhere. -/
def atBasis (t : Tableau ℚ) (f : BasicRow ℚ → ℚ) (j : ℕ) : ℚ :=
  match t.rows.find? fun r => r.basic == j with
  | some r => f r
  | none => 0

/-- The basic solution: right-hand sides in the basic columns. -/
def vertex (t : Tableau ℚ) : ℕ → ℚ := t.atBasis (·.rhs)

/-- The direction in which the column grows by one and the basic columns
make up for it. -/
def ray (t : Tableau ℚ) (col : ℕ) (j : ℕ) : ℚ :=
  (if j = col then 1 else 0) + t.atBasis (fun r => -r.entry col) j

theorem atBasis_of_not_mem (f : BasicRow ℚ → ℚ) {j : ℕ} (hj : j ∉ t.basis) :
    t.atBasis f j = 0 := by
  unfold atBasis
  split
  · rename_i r hr
    have hb : r.basic = j := by simpa using List.find?_some hr
    exact absurd (mem_basis.2 ⟨r, List.mem_of_find?_eq_some hr, hb⟩) hj
  · rfl

theorem vertex_of_not_mem {j : ℕ} (hj : j ∉ t.basis) : t.vertex j = 0 := atBasis_of_not_mem _ hj

/-- Where every row has a nonnegative number, so has every column. -/
theorem atBasis_nonneg {f : BasicRow ℚ → ℚ} (hf : ∀ r ∈ t.rows, 0 ≤ f r) (j : ℕ) :
    0 ≤ t.atBasis f j := by
  unfold atBasis
  split
  · rename_i r hr
    exact hf r (List.mem_of_find?_eq_some hr)
  · exact le_rfl

/-- An assignment that is zero off the basis meets a row in one column. -/
theorem Canonical.value_of_support (ht : t.Canonical) (hr : r ∈ t.rows) {x : ℕ → ℚ}
    (hx : ∀ j ∉ t.basis, x j = 0) : r.value x = x r.basic := by
  have hlt : r.basic < r.coefficients.length :=
    (ht.length_coefficients r hr).symm ▸ ht.basic_lt r hr
  rw [Row.value, dot_eq_single hlt]
  · show r.entry r.basic * x r.basic = x r.basic
    rw [ht.entry_self hr, one_mul]
  · intro j _ hj
    by_cases hb : j ∈ t.basis
    · show r.entry j * x j = 0
      rw [ht.entry_of_mem_basis hr hb hj, zero_mul]
    · rw [hx j hb, mul_zero]

/-- And a priced objective row nowhere. -/
theorem Priced.value_of_support (hp : t.Priced) {x : ℕ → ℚ} (hx : ∀ j ∉ t.basis, x j = 0) :
    t.objective.value x = 0 := by
  rw [Row.value, dot_eq_sum]
  refine Finset.sum_eq_zero fun j _ => ?_
  by_cases hb : j ∈ t.basis
  · obtain ⟨r, hr, rfl⟩ := mem_basis.1 hb
    show t.objective.entry r.basic * _ = 0
    rw [hp r hr, zero_mul]
  · rw [hx j hb, mul_zero]

theorem Canonical.atBasis_basic (ht : t.Canonical) (hr : r ∈ t.rows) (f : BasicRow ℚ → ℚ) :
    t.atBasis f r.basic = f r := by
  unfold atBasis
  split
  · rename_i s hs
    have hb : s.basic = r.basic := by simpa using List.find?_some hs
    rw [ht.eq_of_basic_eq (List.mem_of_find?_eq_some hs) hr hb]
  · rename_i hnone
    exact absurd (beq_self_eq_true r.basic) (List.find?_eq_none.1 hnone r hr)

/-- **The vertex solves the rows.** -/
theorem Canonical.solves_vertex (ht : t.Canonical) : t.Solves t.vertex 1 := by
  intro r hr
  rw [Row.gap, ht.value_of_support hr fun j hj => vertex_of_not_mem hj, vertex,
    ht.atBasis_basic hr, one_mul, sub_self]

/-- At the vertex the gap of the objective row is minus its corner. -/
theorem Priced.gap_vertex (hp : t.Priced) : t.objective.gap t.vertex 1 = -t.corner := by
  rw [Row.gap, hp.value_of_support fun j hj => vertex_of_not_mem hj, one_mul, zero_sub]
  rfl

theorem Feasible.vertex_nonneg (hf : t.Feasible) (j : ℕ) : 0 ≤ t.vertex j :=
  atBasis_nonneg hf j

/-- **The vertex is the only solution on the basis.** -/
theorem Canonical.eq_vertex (ht : t.Canonical) {x : ℕ → ℚ} (hsol : t.Solves x 1)
    (hx : ∀ j ∉ t.basis, x j = 0) : x = t.vertex := by
  funext j
  by_cases hj : j ∈ t.basis
  · obtain ⟨r, hr, rfl⟩ := mem_basis.1 hj
    have hgap := hsol r hr
    rw [Row.gap, ht.value_of_support hr hx, one_mul, sub_eq_zero] at hgap
    rw [hgap, vertex, ht.atBasis_basic hr]
  · rw [hx j hj, vertex, atBasis_of_not_mem _ hj]

/-! ## Rays -/

/-- A row meets the assignment of one column in its entry there. -/
theorem value_single (q : Row ℚ) (col : ℕ) :
    q.value (fun j => if j = col then 1 else 0) = q.entry col := by
  rcases Nat.lt_or_ge col q.coefficients.length with h | h
  · rw [Row.value, dot_eq_single h, if_pos rfl, mul_one]
    · rfl
    · intro j _ hj
      rw [if_neg hj, mul_zero]
  · rw [Row.entry_of_length_le h, Row.value, dot_eq_sum]
    refine Finset.sum_eq_zero fun j hj => ?_
    rw [if_neg (by have := Finset.mem_range.1 hj; omega), mul_zero]

theorem value_ray (q : Row ℚ) (col : ℕ) :
    q.value (t.ray col) = q.entry col + q.value (t.atBasis fun r => -r.entry col) := by
  rw [← value_single q col]
  exact dot_add _ _ _

/-- **A ray is a direction of the rows.** -/
theorem Canonical.solves_ray (ht : t.Canonical) (col : ℕ) : t.Solves (t.ray col) 0 := by
  intro r hr
  rw [Row.gap, zero_mul, sub_zero, value_ray, ht.value_of_support hr fun j => atBasis_of_not_mem _,
    ht.atBasis_basic hr, add_neg_cancel]

/-- Along a ray the objective row changes by its entry in the column. -/
theorem Priced.value_ray (hp : t.Priced) (col : ℕ) :
    t.objective.value (t.ray col) = t.objective.entry col := by
  rw [Tableau.value_ray, hp.value_of_support fun j => atBasis_of_not_mem _, add_zero]

theorem ray_self (hcol : col ∉ t.basis) : t.ray col col = 1 := by
  rw [ray, if_pos rfl, atBasis_of_not_mem _ hcol, add_zero]

theorem Canonical.ray_basic (ht : t.Canonical) (hr : r ∈ t.rows) (hne : r.basic ≠ col) :
    t.ray col r.basic = -r.entry col := by
  rw [ray, if_neg hne, ht.atBasis_basic hr, zero_add]

theorem ray_of_not_mem {j : ℕ} (hne : j ≠ col) (hj : j ∉ t.basis) : t.ray col j = 0 := by
  rw [ray, if_neg hne, atBasis_of_not_mem _ hj, add_zero]

/-- A column without positive entries has a ray without negative values. -/
theorem ray_nonneg (h : ∀ r ∈ t.rows, r.entry col ≤ 0) (j : ℕ) : 0 ≤ t.ray col j := by
  have hb : 0 ≤ t.atBasis (fun r => -r.entry col) j :=
    atBasis_nonneg (fun r hr => neg_nonneg.2 (h r hr)) j
  unfold ray
  split <;> linarith

end Tableau

end Milp
