import Milp.Number.Double
import Milp.Proofs.Matrix.Entries
import Milp.Proofs.Problem.Drafts
import Milp.Proofs.Storage.Problems
/-!
# Rows and columns are dual

A column is read, added and looked for as a row of the transpose is
(`column_eq_ok_iff_row_transpose`, `addColumn_eq_ok_iff_addRow_transpose`,
`findColumn_eq_findRow_transpose`). So what holds of rows holds of columns: the
place that is found is the first one (`findRow_eq_ok_iff`), and a line that was
added is found at the end, or where it was before (`findRow_addRow`,
`findColumn_addColumn`).

The rows of a stored matrix are cut out of one vector, its columns are read by
stepping through the vector, and the vector is written anew where a column is
added or the matrix is transposed. `LinesKept` says that all of this is done to
the matrix that is kept.
-/

namespace Milp

open Storage

/-! ## First places -/

/-- **The first place** with a property, if there is one. -/
def IsFirst (p : ℕ → Prop) : Option ℕ → Prop
  | some i => p i ∧ ∀ k < i, ¬ p k
  | none => ∀ i, ¬ p i

/-- There is one first place. -/
theorem IsFirst.unique {p : ℕ → Prop} :
    ∀ {place place' : Option ℕ}, IsFirst p place → IsFirst p place' → place = place'
  | none, none, _, _ => rfl
  | none, some i, h, h' => absurd h'.1 (h i)
  | some i, none, h, h' => absurd h.1 (h' i)
  | some i, some i', h, h' => by
    rcases Nat.lt_trichotomy i i' with hlt | heq | hgt
    · exact absurd h.1 (h'.2 i hlt)
    · rw [heq]
    · exact absurd h'.1 (h.2 i' hgt)

/-- **A search from the front** finds the first place. -/
theorem isFirst_findIdx? {β : Type} {xs : List β} {q : β → Bool} {p : ℕ → Prop}
    (h : ∀ i, p i ↔ ∃ x, xs[i]? = some x ∧ q x = true) : IsFirst p (xs.findIdx? q) := by
  cases hfind : xs.findIdx? q with
  | none =>
    intro i hi
    obtain ⟨x, hx, hq⟩ := (h i).1 hi
    have hnone := List.findIdx?_eq_none_iff.1 hfind x (List.mem_of_getElem? hx)
    rw [hq] at hnone
    cases hnone
  | some i =>
    obtain ⟨hi, hq, hbefore⟩ := List.findIdx?_eq_some_iff_getElem.1 hfind
    refine ⟨(h i).2 ⟨_, List.getElem?_eq_getElem hi, hq⟩, fun k hk hpk => ?_⟩
    obtain ⟨x, hx, hqx⟩ := (h k).1 hpk
    obtain ⟨hlt, rfl⟩ := List.getElem?_eq_some_iff.1 hx
    exact hbefore k hk hqx

namespace Matrix

variable {α : Type} {m n : Matrix α} {values : List α} {i j : ℕ}

/-! ## Rows -/

theorem row_eq_ok_iff_getElem? : m.row i = .ok values ↔ m.rows[i]? = some values := by
  rw [row]
  cases m.rows[i]? <;> simp

theorem addRow_eq_ok_iff :
    m.addRow values = .ok n ↔ values.length = m.cols ∧ n.rows = m.rows ++ [values] := by
  rw [addRow]
  split
  · rename_i hlength
    rw [Except.ok.injEq]
    exact ⟨fun h => h ▸ ⟨hlength, rfl⟩, fun h => ext_rows h.2.symm⟩
  · rename_i hlength
    simp [hlength]

theorem addColumn_eq_ok_iff :
    m.addColumn values = .ok n ↔ values.length = m.height ∧
      n.rows = List.zipWith (fun r v => r ++ [v]) m.rows values := by
  rw [addColumn]
  split
  · rename_i hlength
    rw [Except.ok.injEq]
    exact ⟨fun h => h ▸ ⟨hlength, rfl⟩, fun h => ext_rows h.2.symm⟩
  · rename_i hlength
    simp [hlength]

/-- The shape of a matrix with a column added. -/
theorem shape_of_addColumn (h : m.addColumn values = .ok n) :
    n.height = m.height ∧ n.cols = m.cols + 1 := by
  rw [addColumn] at h
  split at h
  · rename_i hlength
    cases h
    refine ⟨?_, rfl⟩
    rw [height, height, List.length_zipWith, hlength]
    exact Nat.min_self _
  · cases h

variable [Scalar α]

/-- **The row that is found** is the first one that is these values. -/
theorem findRow_eq_ok_iff {place : Option ℕ} :
    m.findRow values = .ok place ↔
      values.length = m.cols ∧ IsFirst (fun i => m.row i = .ok values) place := by
  have hfirst : IsFirst (fun i => m.row i = .ok values)
      (m.rows.findIdx? (Scalar.sameList · values)) :=
    isFirst_findIdx? fun i => by
      simp only [row_eq_ok_iff_getElem?, Scalar.sameList_iff, exists_eq_right]
  rw [findRow]
  split
  · rename_i hlength
    rw [Except.ok.injEq]
    exact ⟨fun h => ⟨hlength, h ▸ hfirst⟩, fun h => hfirst.unique h.2⟩
  · rename_i hlength
    simp [hlength]

/-- **A row that was added** is found where it was before, or at the end. -/
theorem findRow_addRow (m : Matrix α) (values : List α) :
    (m.addRow values >>= (·.findRow values)) =
      (m.findRow values).map fun place => some (place.getD m.height) := by
  by_cases hlength : values.length = m.cols
  · have hself : Scalar.sameList values values = true := (Scalar.sameList_iff _ _).2 rfl
    have hfind : (m.rows ++ [values]).findIdx? (Scalar.sameList · values) =
        some ((m.rows.findIdx? (Scalar.sameList · values)).getD m.height) := by
      rw [List.findIdx?_append, List.findIdx?_singleton, if_pos hself]
      cases m.rows.findIdx? (Scalar.sameList · values) with
      | none => exact congrArg some (Nat.zero_add _)
      | some i => rfl
    rw [addRow, dif_pos hlength, findRow, if_pos hlength]
    exact (if_pos hlength).trans (congrArg Except.ok hfind)
  · rw [addRow, dif_neg hlength, findRow, if_neg hlength]
    rfl

/-! ## Columns are rows of the transpose -/

theorem getElem?_rows_transpose (hj : j < m.cols) :
    m.transpose.rows[j]? = some (m.columnAt j) := by
  rw [transpose, List.getElem?_map, List.getElem?_range hj, Option.map_some]

/-- **A column is read** as a row of the transpose. -/
theorem column_eq_ok_iff_row_transpose :
    m.column j = .ok values ↔ m.transpose.row j = .ok values := by
  rw [row_eq_ok_iff_getElem?, column]
  by_cases hj : j < m.cols
  · rw [if_pos hj, getElem?_rows_transpose hj, Except.ok.injEq, Option.some.injEq]
  · have hnone : m.transpose.rows[j]? = none :=
      List.getElem?_eq_none (Nat.le_trans (Nat.le_of_eq m.height_transpose) (Nat.le_of_not_lt hj))
    simp [if_neg hj, hnone]

/-- The columns before an added one. -/
theorem columnAt_addColumn_of_lt (h : m.addColumn values = .ok n) (hj : j < m.cols) :
    n.columnAt j = m.columnAt j := by
  obtain ⟨hlength, hrows⟩ := addColumn_eq_ok_iff.1 h
  rw [columnAt, hrows]
  refine List.ext_getElem (by simp [hlength, height]) fun i _ hi => ?_
  have hi : i < m.height := by simpa using hi
  have hrow : j < m.rows[i].length := (m.length_of_mem _ (List.getElem_mem hi)).symm ▸ hj
  rw [List.getElem_map, List.getElem_zipWith]
  refine (List.getD_append _ _ _ _ hrow).trans ?_
  simp only [columnAt, List.getElem_map]
  rfl

/-- An added column. -/
theorem columnAt_addColumn (h : m.addColumn values = .ok n) : n.columnAt m.cols = values := by
  obtain ⟨hlength, hrows⟩ := addColumn_eq_ok_iff.1 h
  rw [columnAt, hrows]
  refine List.ext_getElem (by simp [hlength, height]) fun i _ hi => ?_
  have hi : i < m.height := hlength ▸ hi
  have hrow : m.rows[i].length = m.cols := m.length_of_mem _ (List.getElem_mem hi)
  rw [List.getElem_map, List.getElem_zipWith]
  refine (List.getD_append_right _ _ _ _ (Nat.le_of_eq hrow)).trans ?_
  rw [hrow, Nat.sub_self]
  rfl

/-- The columns of a matrix with a column added. -/
theorem rows_transpose_of_addColumn (h : m.addColumn values = .ok n) :
    n.transpose.rows = m.transpose.rows ++ [values] := by
  have hold : ∀ j ∈ List.range m.cols, n.columnAt j = m.columnAt j := fun j hj =>
    columnAt_addColumn_of_lt h (List.mem_range.1 hj)
  calc n.transpose.rows = (List.range (m.cols + 1)).map n.columnAt :=
        congrArg (fun c => (List.range c).map n.columnAt) (shape_of_addColumn h).2
    _ = (List.range m.cols).map n.columnAt ++ [n.columnAt m.cols] := by
        rw [List.range_succ, List.map_append, List.map_singleton]
    _ = m.transpose.rows ++ [values] := by
        rw [List.map_congr_left hold, columnAt_addColumn h]
        rfl

/-- **A column is added** as a row is to the transpose. -/
theorem addColumn_eq_ok_iff_addRow_transpose :
    m.addColumn values = .ok n ↔ m.transpose.addRow values = .ok n.transpose := by
  constructor
  · intro h
    exact addRow_eq_ok_iff.2 ⟨(addColumn_eq_ok_iff.1 h).1, rows_transpose_of_addColumn h⟩
  · intro h
    obtain ⟨hlength, hrows⟩ := addRow_eq_ok_iff.1 h
    obtain ⟨n', hn'⟩ : ∃ n', m.addColumn values = .ok n' := ⟨_, dif_pos hlength⟩
    have heq : n'.transpose = n.transpose :=
      ext_rows ((rows_transpose_of_addColumn hn').trans hrows.symm)
    rw [hn', transpose_inj.1 heq]

/-- **A column is looked for** as a row of the transpose is. -/
theorem findColumn_eq_findRow_transpose (hlength : values.length = m.height) :
    m.findColumn values = m.transpose.findRow values := by
  have hcount : m.transpose.rows.length = m.cols := m.height_transpose
  rw [findColumn, if_pos hlength, findRow, if_pos (by exact hlength), ← hcount]
  refine congrArg _ (find?_range_eq_findIdx? fun j hj => ?_)
  have hget := (List.getElem?_eq_getElem hj).symm.trans (getElem?_rows_transpose (hcount ▸ hj))
  rw [Option.some.inj hget]

theorem findColumn_eq_ok_iff_findRow_transpose {place : Option ℕ} :
    m.findColumn values = .ok place ↔ m.transpose.findRow values = .ok place := by
  by_cases hlength : values.length = m.height
  · rw [findColumn_eq_findRow_transpose hlength]
  · simp [findColumn, findRow, hlength]

/-- **A column that was added** is found where it was before, or at the end. -/
theorem findColumn_addColumn (m : Matrix α) (values : List α) :
    (m.addColumn values >>= (·.findColumn values)) =
      (m.findColumn values).map fun place => some (place.getD m.cols) := by
  by_cases hlength : values.length = m.height
  · obtain ⟨n, hn⟩ : ∃ n, m.addColumn values = .ok n := ⟨_, dif_pos hlength⟩
    have hrow := addColumn_eq_ok_iff_addRow_transpose.1 hn
    have hfind := findRow_addRow m.transpose values
    have hheight : values.length = n.height := hlength.trans (shape_of_addColumn hn).1.symm
    rw [hrow, height_transpose] at hfind
    rw [hn, findColumn_eq_findRow_transpose hlength]
    exact (findColumn_eq_findRow_transpose hheight).trans hfind
  · rw [addColumn, dif_neg hlength, findColumn, if_neg hlength]
    rfl

/-! ## Lines of stored matrices -/

/-- **A row is looked for** without a fault. -/
theorem findRow_store {b : Build} (h : m.Fits) (values : List α) :
    m.store.findRow b values = .ok (m.findRow values) := by
  rw [Store.findRow, findRow, cols_store]
  by_cases hlength : values.length = m.cols
  · rw [if_neg (not_not.2 hlength), if_pos hlength, positionOfRow_store h hlength]
    rfl
  · rw [if_pos hlength, if_neg hlength]
    rfl

/-- **A column is looked for** without a fault. -/
theorem findColumn_store (m : Matrix α) (values : List α) :
    m.store.findColumn values = .ok (m.findColumn values) := by
  rw [Store.findColumn, findColumn, rows_store]
  by_cases hlength : values.length = m.height
  · have hturn : ∀ j ∈ List.range m.cols, (do
        let column ← m.store.columnAt j
        pure (Store.samePrefix column values)) = .ok (Scalar.sameList (m.columnAt j) values) := by
      intro j hj
      rw [columnAt_store (List.mem_range.1 hj), ok_bind,
        Store.samePrefix_eq ((m.length_columnAt j).trans hlength.symm)]
      rfl
    rw [if_neg (not_not.2 hlength), if_pos hlength, cols_store, findM?_eq hturn]
    rfl
  · rw [if_pos hlength, if_neg hlength]
    rfl

/-- **What a build does with the lines** of a matrix that is kept is done to the
matrix. -/
structure LinesKept (b : Build) (m : Matrix α) : Prop where
  /-- The rows are read. -/
  toRows : m.store.toRows = .ok m.rows
  /-- The rows make the matrix. -/
  ofRows : Store.ofRows b m.rows = .ok (.ok m.store)
  /-- A row is read. -/
  row : ∀ i, m.store.row b i = .ok (m.row i)
  /-- A column is read. -/
  column : ∀ j, m.store.column b j = .ok (m.column j)
  /-- The matrix is transposed. -/
  transpose : m.store.transpose = .ok m.transpose.store
  /-- A row is added that memory has room for. -/
  addRow : (m.height + 1) * m.cols ≤ capacity → ∀ values,
    m.store.addRow b values = .ok ((m.addRow values).map store)
  /-- A column is added that memory has room for. -/
  addColumn : m.height * (m.cols + 1) ≤ capacity → ∀ values,
    m.store.addColumn b values = .ok ((m.addColumn values).map store)
  /-- A row is looked for. -/
  findRow : ∀ values, m.store.findRow b values = .ok (m.findRow values)
  /-- A column is looked for. -/
  findColumn : ∀ values, m.store.findColumn values = .ok (m.findColumn values)

theorem linesKept (b : Build) (h : m.Fits) : m.LinesKept b where
  toRows := m.toRows_store
  ofRows := ofRows_store h
  row := row_store h
  column := column_store
  transpose := transpose_store h
  addRow := addRow_store
  addColumn := addColumn_store
  findRow := findRow_store h
  findColumn := m.findColumn_store

/-! ## Rows and columns -/

/-- **Rows and columns are dual**, value by value and bit by bit. A row that is
found is the first one, and a line that was added is found where it was before
or at the end. -/
theorem lines_dual (m : Matrix α) :
    m.transpose.transpose = m ∧
    (∀ j values, m.column j = .ok values ↔ m.transpose.row j = .ok values) ∧
    (∀ values n, m.addColumn values = .ok n ↔ m.transpose.addRow values = .ok n.transpose) ∧
    (∀ values place, m.findColumn values = .ok place ↔
      m.transpose.findRow values = .ok place) ∧
    (∀ values place, m.findRow values = .ok place ↔
      values.length = m.cols ∧ IsFirst (fun i => m.row i = .ok values) place) ∧
    (∀ values, (m.addRow values >>= (·.findRow values)) =
      (m.findRow values).map fun place => some (place.getD m.height)) ∧
    (∀ values, (m.addColumn values >>= (·.findColumn values)) =
      (m.findColumn values).map fun place => some (place.getD m.cols)) ∧
    ofRows m.rows = .ok m ∧
    ∀ b, m.Fits → m.LinesKept b :=
  ⟨m.transpose_transpose, fun _ _ => column_eq_ok_iff_row_transpose,
    fun _ _ => addColumn_eq_ok_iff_addRow_transpose,
    fun _ _ => findColumn_eq_ok_iff_findRow_transpose, fun _ _ => findRow_eq_ok_iff,
    m.findRow_addRow, m.findColumn_addColumn, ofRows_eq_ok_iff.2 rfl,
    fun b h => linesKept b h⟩

/-- Two rows that differ in the sign of a zero, and a value that is no number. -/
def signedZeros : Matrix Double where
  rows := [[⟨0⟩, ⟨0x7ff8000000000001⟩], [⟨0x8000000000000000⟩, ⟨0x7ff8000000000001⟩]]
  cols := 2
  rows_ne_nil := nofun
  cols_pos := Nat.two_pos
  length_of_mem := by decide

theorem lines_dual_signedZeros :
    signedZeros.Fits ∧
    signedZeros.store.findRow .checked [⟨0x8000000000000000⟩, ⟨0x7ff8000000000001⟩] =
      .ok (.ok (some 1)) ∧
    signedZeros.store.findColumn [⟨0x8000000000000000⟩, ⟨0⟩] = .ok (.ok none) ∧
    signedZeros.transpose.findRow [⟨0x8000000000000000⟩, ⟨0⟩] = .ok none := by
  have hfits : 2 * 2 ≤ capacity := by decide
  obtain ⟨-, -, -, hcolumn, -, -, -, -, hkept⟩ := signedZeros.lines_dual
  have hnone : signedZeros.findColumn [⟨0x8000000000000000⟩, ⟨0⟩] = .ok none := rfl
  exact ⟨hfits, (hkept .checked hfits).findRow _,
    ((hkept .checked hfits).findColumn _).trans (congrArg _ hnone), (hcolumn _ _).1 hnone⟩

end Matrix

end Milp
