import Mathlib.Data.Set.Finite.List
import Milp.Proofs.Simplex.Optimize
/-!
# The forms of a tableau

Pivots on entries other than zero rewrite a tableau and do not change what it
says. What they can make of it are its forms: the canonical and priced
tableaus that are equivalent to it. The vertex and the rays of one form solve
all others, so a form is known by its basis (`Form.eq_of_basis_eq`), and a
tableau has finitely many of them (`finite_forms`) by whatever rule the pivots
are chosen.
-/

namespace Milp

namespace Simplex

variable {s t u : Tableau ℚ} {r q : BasicRow ℚ} {i row col : ℕ}

/-- **A form of a tableau**: canonical, priced, and saying the same. -/
structure Form (t s : Tableau ℚ) : Prop extends s.Canonical where
  /-- The objective row is zero in the basic columns. -/
  priced : s.Priced
  /-- It says what the tableau says. -/
  equivalent : Equivalent t s

namespace Form

theorem refl (hc : t.Canonical) (hp : t.Priced) : Form t t :=
  { hc with priced := hp, equivalent := .refl t }

/-- **Pivots lead from form to form**, on any entry but zero. -/
theorem pivot (hs : Form t s) (hr : s.rows[row]? = some r) (hcol : col < s.width)
    (hne : r.entry col ≠ 0) : Form t (s.pivot row col) where
  toCanonical := Tableau.canonical_pivot hs.toCanonical hr hcol hne
  priced := Tableau.priced_pivot hs.toCanonical hs.priced hr hne
  equivalent := hs.equivalent.trans (.pivot hs.toShaped hr hne)

end Form

/-! ## Forms with the same basis -/

section SameBasis

variable (hs : s.Canonical) (hu : u.Canonical) (hbasis : s.basis = u.basis)

include hbasis

theorem basic_eq_of_basis_eq (hr : s.rows[i]? = some r) (hq : u.rows[i]? = some q) :
    r.basic = q.basic := by
  have hi : s.basis[i]? = u.basis[i]? := by rw [hbasis]
  rw [Tableau.basis, Tableau.basis, List.getElem?_map, List.getElem?_map, hr, hq] at hi
  exact Option.some.inj hi

include hs hu

/-- A row meets an assignment on the common basis in the number that the row
of the other form at its place has. -/
theorem value_atBasis_of_basis_eq (hr : s.rows[i]? = some r) (hq : u.rows[i]? = some q)
    (f : BasicRow ℚ → ℚ) : q.value (s.atBasis f) = f r := by
  have hoff : ∀ j ∉ u.basis, s.atBasis f j = 0 :=
    fun j hj => Tableau.atBasis_of_not_mem f (hbasis ▸ hj)
  rw [hu.value_of_support (List.mem_of_getElem? hq) hoff, ← basic_eq_of_basis_eq hbasis hr hq,
    hs.atBasis_basic (List.mem_of_getElem? hr)]

variable (heq : Equivalent s u)

include heq

/-- **Rows at one place are the same row**: the vertex of one tableau solves
the other, and so do its rays. -/
theorem row_eq_of_basis_eq (hr : s.rows[i]? = some r) (hq : u.rows[i]? = some q) : r = q := by
  have hmem := List.mem_of_getElem? hr
  have hmem' := List.mem_of_getElem? hq
  have hvalue := value_atBasis_of_basis_eq hs hu hbasis hr hq
  have hrhs : r.rhs = q.rhs := by
    have hgap := (heq.solves_iff _ _).2 hs.solves_vertex q hmem'
    rw [Row.gap, one_mul, Tableau.vertex, hvalue, sub_eq_zero] at hgap
    exact hgap
  have hentry : ∀ j, r.entry j = q.entry j := by
    intro j
    have hgap := (heq.solves_iff _ _).2 (hs.solves_ray j) q hmem'
    rw [Row.gap, zero_mul, sub_zero, Tableau.value_ray, hvalue, ← sub_eq_add_neg, sub_eq_zero]
      at hgap
    exact hgap.symm
  have hlen : r.coefficients.length = q.coefficients.length := by
    rw [hs.length_coefficients r hmem, hu.length_coefficients q hmem', heq.width_eq]
  calc r = ⟨⟨r.coefficients, r.rhs⟩, r.basic⟩ := rfl
    _ = ⟨⟨q.coefficients, q.rhs⟩, q.basic⟩ := by
      rw [Row.coefficients_ext hlen hentry, hrhs, basic_eq_of_basis_eq hbasis hr hq]
    _ = q := rfl

/-- **So are the objective rows.** -/
theorem objective_eq_of_basis_eq (hsp : s.Priced) (hup : u.Priced) :
    s.objective = u.objective := by
  have hvalue : ∀ f : BasicRow ℚ → ℚ, u.objective.value (s.atBasis f) = 0 :=
    fun f => hup.value_of_support fun j hj => Tableau.atBasis_of_not_mem f (hbasis ▸ hj)
  have hrhs : s.objective.rhs = u.objective.rhs := by
    have hgap := heq.gap_objective _ _ hs.solves_vertex
    rw [hsp.gap_vertex, Row.gap, Tableau.vertex, hvalue, one_mul, zero_sub] at hgap
    exact neg_inj.1 hgap.symm
  have hentry : ∀ j, s.objective.entry j = u.objective.entry j := by
    intro j
    have hgap := heq.gap_objective _ _ (hs.solves_ray j)
    simp only [Row.gap, zero_mul, sub_zero] at hgap
    rw [hsp.value_ray, Tableau.value_ray, hvalue, add_zero] at hgap
    exact hgap.symm
  have hlen : s.objective.coefficients.length = u.objective.coefficients.length := by
    rw [hs.length_objective, hu.length_objective, heq.width_eq]
  calc s.objective = ⟨s.objective.coefficients, s.objective.rhs⟩ := rfl
    _ = ⟨u.objective.coefficients, u.objective.rhs⟩ := by
      rw [Row.coefficients_ext hlen hentry, hrhs]
    _ = u.objective := rfl

end SameBasis

/-- **A form is known by its basis.** -/
theorem Form.eq_of_basis_eq (hs : Form t s) (hu : Form t u) (hbasis : s.basis = u.basis) :
    s = u := by
  have heq : Equivalent s u := hs.equivalent.symm.trans hu.equivalent
  have hrows : s.rows = u.rows := by
    refine List.ext_getElem heq.length_rows_eq.symm fun i hi hi' => ?_
    exact row_eq_of_basis_eq hs.toCanonical hu.toCanonical hbasis heq
      (List.getElem?_eq_getElem hi) (List.getElem?_eq_getElem hi')
  have hobj : s.objective = u.objective :=
    objective_eq_of_basis_eq hs.toCanonical hu.toCanonical hbasis heq hs.priced hu.priced
  calc s = ⟨s.rows, s.objective, s.structural, s.artificials⟩ := rfl
    _ = ⟨u.rows, u.objective, u.structural, u.artificials⟩ := by
      rw [hrows, hobj, heq.structural_eq, heq.artificials_eq]
    _ = u := rfl

/-! ## How many forms there are -/

/-- There are finitely many lists of one length of numbers below a bound. -/
theorem finite_lists_lt (n w : ℕ) : {l : List ℕ | l.length = n ∧ ∀ j ∈ l, j < w}.Finite := by
  refine ((List.finite_length_eq (Fin w) n).image (List.map Fin.val)).subset ?_
  rintro l ⟨hlen, hlt⟩
  lift l to List (Fin w) using hlt
  exact ⟨l, by simpa using hlen, rfl⟩

/-- **A tableau has finitely many forms.** -/
theorem finite_forms (t : Tableau ℚ) : {s | Form t s}.Finite := by
  refine Set.Finite.of_injOn (f := Tableau.basis) (fun s hs => ?_)
    (fun s hs u hu hbasis => hs.eq_of_basis_eq hu hbasis) (finite_lists_lt t.rows.length t.width)
  refine ⟨?_, fun j hj => ?_⟩
  · rw [Tableau.basis, List.length_map, hs.equivalent.length_rows_eq]
  · obtain ⟨r, hr, rfl⟩ := Tableau.mem_basis.1 hj
    rw [← hs.equivalent.width_eq]
    exact hs.basic_lt r hr

end Simplex

end Milp
