import Milp.Matrix.Basic
/-!
# Rows and columns

A line, that is a row or a column, can be added at the end and looked for.
Looking for a line compares its values by identity: the two zeros of doubles
are different values.
-/

namespace Milp

namespace Matrix

variable {α : Type} [Scalar α]

/-- The matrix with its rows as columns. -/
def transpose (m : Matrix α) : Matrix α where
  rows := (List.range m.cols).map m.columnAt
  cols := m.height
  rows_ne_nil := by
    have := m.cols_pos
    simp
    omega
  cols_pos := m.height_pos
  length_of_mem := by simp

/-- The matrix with a row added at the end. -/
def addRow (m : Matrix α) (values : List α) : Except Refusal (Matrix α) :=
  if h : values.length = m.cols then .ok {
    rows := m.rows ++ [values]
    cols := m.cols
    rows_ne_nil := by simp
    cols_pos := m.cols_pos
    length_of_mem := by
      intro r hr
      rcases List.mem_append.1 hr with hr | hr
      · exact m.length_of_mem r hr
      · simp_all }
  else .error (.rowSize values.length m.cols)

omit [Scalar α] in
/-- With a column of the right size added there is still a row. -/
theorem rows_ne_nil_of_addColumn (m : Matrix α) {values : List α}
    (h : values.length = m.height) :
    List.zipWith (fun r v => r ++ [v]) m.rows values ≠ [] := by
  have hpos := m.height_pos
  intro hnil
  have hlen := congrArg List.length hnil
  rw [List.length_zipWith, List.length_nil] at hlen
  unfold height at h hpos
  omega

omit [Scalar α] in
/-- With a column added every row is longer by one. -/
theorem length_of_mem_addColumn (m : Matrix α) {values r : List α}
    (hr : r ∈ List.zipWith (fun r v => r ++ [v]) m.rows values) : r.length = m.cols + 1 := by
  obtain ⟨i, hi, rfl⟩ := List.mem_iff_getElem.1 hr
  rw [List.length_zipWith] at hi
  rw [List.getElem_zipWith, List.length_append, List.length_singleton,
    m.length_of_mem _ (List.getElem_mem (by omega))]

/-- The matrix with a column added at the end. -/
def addColumn (m : Matrix α) (values : List α) : Except Refusal (Matrix α) :=
  if h : values.length = m.height then .ok {
    rows := List.zipWith (fun r v => r ++ [v]) m.rows values
    cols := m.cols + 1
    rows_ne_nil := m.rows_ne_nil_of_addColumn h
    cols_pos := Nat.succ_pos _
    length_of_mem := fun _ => m.length_of_mem_addColumn }
  else .error (.columnSize values.length m.height)

/-- The place of the first row with exactly these values. -/
def findRow (m : Matrix α) (values : List α) : Except Refusal (Option Nat) :=
  if values.length = m.cols then .ok (m.rows.findIdx? (Scalar.sameList · values))
  else .error (.rowSize values.length m.cols)

/-- The place of the first column with exactly these values. -/
def findColumn (m : Matrix α) (values : List α) : Except Refusal (Option Nat) :=
  if values.length = m.height then
    .ok ((List.range m.cols).find? fun j => Scalar.sameList (m.columnAt j) values)
  else .error (.columnSize values.length m.height)

/-- Whether a row has exactly these values. -/
def containsRow (m : Matrix α) (values : List α) : Except Refusal Bool :=
  (m.findRow values).map Option.isSome

/-- Whether a column has exactly these values. -/
def containsColumn (m : Matrix α) (values : List α) : Except Refusal Bool :=
  (m.findColumn values).map Option.isSome

end Matrix

end Milp
