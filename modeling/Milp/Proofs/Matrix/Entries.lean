import Mathlib.Data.List.GetD
import Milp.Matrix.Lines
/-!
# Matrices by their entries

A matrix is its shape and its entries (`ext_entries`). What changes the shape is
known by the shape and the entries of what it gives: the transpose has the
entries with their two places exchanged (`entry_transpose`).
-/

namespace Milp

namespace Matrix

variable {α : Type} [Scalar α] {m n : Matrix α} {i j : ℕ}

/-- The entry at a place, zero where there is none. -/
def entry (m : Matrix α) (i j : ℕ) : α := (m.rows.getD i []).getD j 0

omit [Scalar α] in
theorem getD_rows (hi : i < m.height) : m.rows.getD i [] = m.rows[i] :=
  List.getD_eq_getElem _ _ hi

/-- An entry that exists. -/
theorem getElem?_rows_eq_entry (hi : i < m.height) (hj : j < m.cols) :
    m.rows[i]?.bind (·[j]?) = some (m.entry i j) := by
  have hrow : j < m.rows[i].length := (m.length_of_mem _ (List.getElem_mem hi)).symm ▸ hj
  rw [entry, getD_rows hi, List.getD_eq_getElem _ _ hrow, List.getElem?_eq_getElem hi,
    Option.bind_some, List.getElem?_eq_getElem hrow]

theorem get_eq_entry (hi : i < m.height) (hj : j < m.cols) : m.get i j = .ok (m.entry i j) := by
  rw [get, getElem?_rows_eq_entry hi hj]

/-- A row is its entries. -/
theorem getElem_rows_eq (hi : i < m.height) :
    m.rows[i] = (List.range m.cols).map (m.entry i) := by
  have hlength : m.rows[i].length = m.cols := m.length_of_mem _ (List.getElem_mem hi)
  refine List.ext_getElem (by simpa using hlength) fun j hj _ => ?_
  rw [List.getElem_map, List.getElem_range, entry, getD_rows hi, List.getD_eq_getElem _ _ hj]

/-- **The rows are the entries.** -/
theorem rows_eq (m : Matrix α) :
    m.rows = (List.range m.height).map fun i => (List.range m.cols).map (m.entry i) := by
  refine List.ext_getElem (by simp [height]) fun i hi _ => ?_
  rw [List.getElem_map, List.getElem_range, getElem_rows_eq hi]

/-- **A matrix is its shape and its entries.** -/
theorem ext_entries (hheight : m.height = n.height) (hcols : m.cols = n.cols)
    (h : ∀ i < m.height, ∀ j < m.cols, m.entry i j = n.entry i j) : m = n := by
  refine ext_rows ?_
  rw [rows_eq m, rows_eq n, ← hheight, ← hcols]
  refine List.map_congr_left fun i hi => List.map_congr_left fun j hj => ?_
  exact h i (List.mem_range.1 hi) j (List.mem_range.1 hj)

/-- The entries of a matrix whose rows are given by a function. -/
theorem entry_of_rows {f : ℕ → ℕ → α} {h w : ℕ}
    (hrows : m.rows = (List.range h).map fun i => (List.range w).map (f i)) (hi : i < h)
    (hj : j < w) : m.entry i j = f i j := by
  have hrow : i < ((List.range h).map fun i => (List.range w).map (f i)).length := by simpa using hi
  have hentry : j < ((List.range w).map (f i)).length := by simpa using hj
  rw [entry, hrows, List.getD_eq_getElem _ _ hrow, List.getElem_map, List.getElem_range,
    List.getD_eq_getElem _ _ hentry, List.getElem_map, List.getElem_range]

/-! ## Columns and the transpose -/

/-- A column is its entries. -/
theorem columnAt_eq (m : Matrix α) (j : ℕ) :
    m.columnAt j = (List.range m.height).map fun i => m.entry i j := by
  refine List.ext_getElem (by simp) fun i hi _ => ?_
  have hi : i < m.height := by simpa using hi
  rw [List.getElem_map, List.getElem_range, entry, getD_rows hi]
  exact List.getElem_map _

@[simp] theorem height_transpose (m : Matrix α) : m.transpose.height = m.cols := by
  simp [transpose, height]

@[simp] theorem cols_transpose (m : Matrix α) : m.transpose.cols = m.height := rfl

/-- The rows of the transpose are the columns. -/
theorem rows_transpose (m : Matrix α) :
    m.transpose.rows = (List.range m.cols).map fun j =>
      (List.range m.height).map fun i => m.entry i j :=
  List.map_congr_left fun j _ => m.columnAt_eq j

/-- **The entries of the transpose.** -/
theorem entry_transpose (hi : i < m.height) (hj : j < m.cols) :
    m.transpose.entry j i = m.entry i j :=
  entry_of_rows m.rows_transpose hj hi

/-- **The transpose of the transpose.** -/
theorem transpose_transpose (m : Matrix α) : m.transpose.transpose = m := by
  refine ext_entries (by simp) (by simp) fun i hi j hj => ?_
  have hi : i < m.height := by simpa using hi
  have hj : j < m.cols := by simpa using hj
  rw [entry_transpose (m := m.transpose) (by simpa using hj) (by simpa using hi),
    entry_transpose hi hj]

/-- Matrices with one transpose are the same. -/
theorem transpose_inj : m.transpose = n.transpose ↔ m = n :=
  ⟨fun h => by rw [← m.transpose_transpose, h, n.transpose_transpose], congrArg _⟩

end Matrix

end Milp
