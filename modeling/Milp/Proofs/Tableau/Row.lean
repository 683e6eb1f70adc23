import Milp.Proofs.Number.Exact
import Milp.Tableau.Basic
/-!
# Rows as equations

A row over exact numbers is the equation `value x = rhs` of its linear form.
`gap` is how far an assignment is from satisfying it. The right-hand side is
weighted with a number `h`, so that one notion serves two purposes: with
`h = 1` an assignment of gap zero is a solution, with `h = 0` it is a
direction in which solutions stay solutions. Every operation of a tableau on
rows is linear, in the entries and in the gap.
-/

namespace Milp

namespace Row

/-- The left-hand side of the equation at an assignment. -/
def value (r : Row ℚ) (x : ℕ → ℚ) : ℚ := dot r.coefficients x

/-- The left-hand side minus `h` times the right-hand side. -/
def gap (r : Row ℚ) (x : ℕ → ℚ) (h : ℚ) : ℚ := r.value x - h * r.rhs

/-- The left-hand side at a list of values. -/
theorem lhs_eq_value (r : Row ℚ) (values : List ℚ) :
    r.lhs values = r.value fun j => values.getD j 0 :=
  Scalar.sumProducts_rat _ _

/-- Past its end a row has no entries. -/
theorem entry_of_length_le {r : Row ℚ} {j : ℕ} (h : r.coefficients.length ≤ j) :
    r.entry j = 0 := by
  rw [entry, List.getD_eq_default _ _ h]

/-! ## Lengths

These hold of every scalar: no law of arithmetic is used. -/

section Length

variable {α : Type} [Scalar α]

@[simp] theorem length_divide (r : Row α) (c : α) :
    (r.divide c).coefficients.length = r.coefficients.length := List.length_map _

theorem length_eliminate {r s : Row α} (col : ℕ)
    (h : r.coefficients.length = s.coefficients.length) :
    (r.eliminate col s).coefficients.length = r.coefficients.length := by
  rw [eliminate]
  split
  · rfl
  · rw [minusTimes, List.length_zipWith, h, Nat.min_self]

end Length

/-! ## Entries -/

/-- Rows of one length with the same entries have the same coefficients. -/
theorem coefficients_ext {q r : Row ℚ} (hlen : q.coefficients.length = r.coefficients.length)
    (h : ∀ j, q.entry j = r.entry j) : q.coefficients = r.coefficients := by
  refine List.ext_getElem hlen fun j hq hr => ?_
  rw [← List.getD_eq_getElem _ 0 hq, ← List.getD_eq_getElem _ 0 hr]
  exact h j

theorem entry_divide (r : Row ℚ) (c : ℚ) (j : ℕ) : (r.divide c).entry j = r.entry j / c := by
  show (r.coefficients.map (· / c)).getD j 0 = r.coefficients.getD j 0 / c
  rw [← zero_div c, List.getD_map]
  simp

/-- Entries of one list less a multiple of those of another one as long. -/
theorem entry_minusTimes {r s : Row ℚ} (c : ℚ)
    (h : r.coefficients.length = s.coefficients.length) (j : ℕ) :
    (r.minusTimes c s).entry j = r.entry j - c * s.entry j :=
  getD_zipWith (f := fun a b => a - c * b) (by ring) h j

/-- Subtracting a row is subtracting it once. -/
theorem minus_eq_minusTimes (r s : Row ℚ) : r.minus s = r.minusTimes 1 s := by
  simp [minus, minusTimes]

/-- **Elimination without the shortcut**: where the entry is zero already,
nothing is subtracted. -/
theorem eliminate_eq {r s : Row ℚ} (col : ℕ)
    (h : r.coefficients.length = s.coefficients.length) :
    r.eliminate col s = r.minusTimes (r.entry col) s := by
  rw [eliminate]
  split
  · rename_i h0
    have h0 : r.entry col = 0 := of_decide_eq_true h0
    rw [h0, minusTimes]
    have hc : List.zipWith (fun a b => a - 0 * b) r.coefficients s.coefficients
        = r.coefficients := by
      refine List.ext_getElem (by rw [List.length_zipWith]; omega) fun j _ _ => ?_
      rw [List.getElem_zipWith, zero_mul, sub_zero]
    rw [hc, zero_mul, sub_zero]
  · rfl

theorem entry_eliminate {r s : Row ℚ} (col : ℕ)
    (h : r.coefficients.length = s.coefficients.length) (j : ℕ) :
    (r.eliminate col s).entry j = r.entry j - r.entry col * s.entry j := by
  rw [eliminate_eq col h, entry_minusTimes _ h]

theorem rhs_eliminate {r s : Row ℚ} (col : ℕ)
    (h : r.coefficients.length = s.coefficients.length) :
    (r.eliminate col s).rhs = r.rhs - r.entry col * s.rhs := by
  rw [eliminate_eq col h]
  rfl

/-! ## Gaps -/

theorem gap_divide (r : Row ℚ) (c : ℚ) (x : ℕ → ℚ) (h : ℚ) :
    (r.divide c).gap x h = r.gap x h / c := by
  show dot (r.coefficients.map (· / c)) x - h * (r.rhs / c) = (dot r.coefficients x - h * r.rhs) / c
  rw [dot_map_div]
  ring

theorem gap_minusTimes {r s : Row ℚ} (c : ℚ)
    (hlen : r.coefficients.length = s.coefficients.length) (x : ℕ → ℚ) (h : ℚ) :
    (r.minusTimes c s).gap x h = r.gap x h - c * s.gap x h := by
  show dot (List.zipWith (fun a b => a - c * b) r.coefficients s.coefficients) x
    - h * (r.rhs - c * s.rhs) = (dot r.coefficients x - h * r.rhs)
      - c * (dot s.coefficients x - h * s.rhs)
  rw [dot_zipWith_sub_mul c x hlen]
  ring

theorem gap_eliminate {r s : Row ℚ} (col : ℕ)
    (hlen : r.coefficients.length = s.coefficients.length) (x : ℕ → ℚ) (h : ℚ) :
    (r.eliminate col s).gap x h = r.gap x h - r.entry col * s.gap x h := by
  rw [eliminate_eq col hlen, gap_minusTimes _ hlen]

end Row

end Milp
