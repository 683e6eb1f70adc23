import Milp.Number.Scalar
import Milp.Refusal
/-!
# Matrices

A `Matrix` is a non-empty list of rows that all have the same positive
length. Both facts are part of the type, so a matrix is never empty or
ragged, whatever it was made from.

Every operation gives a new matrix. Indices are natural numbers of any size;
one that is out of range is refused.
-/

namespace Milp

/-- A dense matrix, by rows. -/
structure Matrix (α : Type) where
  /-- The rows, from the first to the last. -/
  rows : List (List α)
  /-- The number of columns. -/
  cols : Nat
  /-- There is a row. -/
  rows_ne_nil : rows ≠ []
  /-- There is a column. -/
  cols_pos : 0 < cols
  /-- Every row has one element per column. -/
  length_of_mem : ∀ r ∈ rows, r.length = cols

namespace Matrix

variable {α : Type}

/-- The number of rows. -/
def height (m : Matrix α) : Nat := m.rows.length

theorem height_pos (m : Matrix α) : 0 < m.height :=
  List.length_pos_iff.2 m.rows_ne_nil

/-- Matrices with the same rows are the same. -/
theorem ext_rows {m n : Matrix α} (h : m.rows = n.rows) : m = n := by
  obtain ⟨rs, c, hne, hpos, hlen⟩ := m
  obtain ⟨rs', c', hne', hpos', hlen'⟩ := n
  simp only at h
  subst h
  obtain ⟨r, hr⟩ := List.exists_mem_of_ne_nil rs hne
  have : c = c' := (hlen r hr).symm.trans (hlen' r hr)
  subst this
  rfl

/-- A matrix is a vector when it has one row or one column. -/
def isVector (m : Matrix α) : Bool := m.height == 1 || m.cols == 1

/-! ## Making a matrix -/

/-- The number of entries a matrix may have is below this. -/
def entryLimit : Nat := Nat.pow 2 64

/-- A matrix of zeros. -/
def zeros [Zero α] (rows cols : Nat) : Except Refusal (Matrix α) :=
  if h : rows = 0 ∨ cols = 0 then .error (.emptyShape rows cols)
  else if entryLimit ≤ rows * cols then .error (.hugeShape rows cols)
  else .ok {
    rows := List.replicate rows (List.replicate cols 0)
    cols
    rows_ne_nil := by simp; omega
    cols_pos := by omega
    length_of_mem := by intro r hr; simp [List.eq_of_mem_replicate hr] }

/-- A matrix with one row. -/
def ofVector (values : List α) : Except Refusal (Matrix α) :=
  if h : values = [] then .error .emptyVector
  else .ok {
    rows := [values]
    cols := values.length
    rows_ne_nil := by simp
    cols_pos := List.length_pos_iff.2 h
    length_of_mem := by simp }

/-- A matrix from its rows, which all have to be as long as the first. -/
def ofRows (rows : List (List α)) : Except Refusal (Matrix α) :=
  match rows with
  | [] => .error .noRows
  | first :: rest =>
    if hc : first.length = 0 then .error .noColumns
    else
      if h : ∀ r ∈ first :: rest, r.length = first.length then .ok {
        rows := first :: rest
        cols := first.length
        rows_ne_nil := by simp
        cols_pos := by omega
        length_of_mem := h }
      else
        let ragged := (first :: rest).findIdx (·.length != first.length)
        let size := ((first :: rest)[ragged]?.map List.length).getD 0
        .error (.raggedRow ragged size first.length)

/-! ## Reading and changing entries -/

/-- The elements of a vector. -/
def toVector (m : Matrix α) : Except Refusal (List α) :=
  if m.isVector then .ok m.rows.flatten else .error (.notVector m.height m.cols)

/-- Refuses an entry that does not exist. -/
def refuseEntry (m : Matrix α) (row col : Nat) : Refusal :=
  .entryIndex row col (m.height - 1) (m.cols - 1)

/-- One entry. -/
def get (m : Matrix α) (row col : Nat) : Except Refusal α :=
  match m.rows[row]?.bind (·[col]?) with
  | some v => .ok v
  | none => .error (m.refuseEntry row col)

/-- The matrix with one entry replaced. -/
def set (m : Matrix α) (row col : Nat) (value : α) : Except Refusal (Matrix α) :=
  if row < m.height ∧ col < m.cols then .ok {
    rows := m.rows.modify row (·.set col value)
    cols := m.cols
    rows_ne_nil := by simpa [List.modify_eq_nil_iff] using m.rows_ne_nil
    cols_pos := m.cols_pos
    length_of_mem := by
      intro r hr
      obtain ⟨i, hi, rfl⟩ := List.mem_iff_getElem.1 hr
      rw [List.getElem_modify]
      have hi' : i < m.rows.length := by simpa using hi
      have := m.length_of_mem _ (List.getElem_mem hi')
      split <;> simp [this] }
  else .error (m.refuseEntry row col)

/-- One row. -/
def row (m : Matrix α) (i : Nat) : Except Refusal (List α) :=
  match m.rows[i]? with
  | some r => .ok r
  | none => .error (.rowIndex i (m.height - 1))

variable [Scalar α]

/-- The elements of a column that exists. -/
def columnAt (m : Matrix α) (j : Nat) : List α := m.rows.map (·.getD j 0)

@[simp] theorem length_columnAt (m : Matrix α) (j : Nat) : (m.columnAt j).length = m.height := by
  simp [columnAt, height]

/-- One column. -/
def column (m : Matrix α) (j : Nat) : Except Refusal (List α) :=
  if j < m.cols then .ok (m.columnAt j) else .error (.columnIndex j (m.cols - 1))

/-- Numeric equality of all entries, in the same shape. -/
instance : BEq (Matrix α) := ⟨fun m n => m.rows == n.rows⟩

end Matrix

end Milp
