import Milp.Matrix.Basic
import Milp.Storage.Machine
/-!
# Stored matrices

A `Store` is a matrix as it is kept: the number of rows, the number of columns,
and the entries row after row in one vector. Nothing in the type keeps the
three together. The operations rely on it nevertheless: they count on from one
row to the next, and take one from a size to name the last index.
-/

namespace Milp

open Storage

/-- A matrix as it is kept. -/
structure Store (α : Type) where
  /-- The number of rows. -/
  rows : Nat
  /-- The number of columns. -/
  cols : Nat
  /-- The entries, row after row. -/
  data : List α

namespace Store

variable {α : Type} (b : Build)

/-- Whether there is one row or one column. -/
def isVector (s : Store α) : Bool := s.rows == 1 || s.cols == 1

/-! ## Making a matrix -/

/-- A matrix of zeros. -/
def zeros [Zero α] (rows cols : Nat) : Run (Except Refusal (Store α)) :=
  if rows = 0 ∨ cols = 0 then pure (.error (.emptyShape rows cols))
  else if wordSize ≤ rows * cols then pure (.error (.hugeShape rows cols))
  else do
    reserve (rows * cols)
    pure (.ok ⟨rows, cols, List.replicate (rows * cols) 0⟩)

/-- A matrix with one row. -/
def ofVector (values : List α) : Run (Except Refusal (Store α)) :=
  if values = [] then pure (.error .emptyVector)
  else do
    let data ← extend [] values
    pure (.ok ⟨1, values.length, data⟩)

/-- Adds rows from the `i`-th on to the entries before them. -/
def extendRows (cols : Nat) : (i : Nat) → (data : List α) → List (List α) →
    Run (Except Refusal (List α))
  | _, data, [] => pure (.ok data)
  | i, data, row :: rest =>
    if row.length ≠ cols then pure (.error (.raggedRow i row.length cols))
    else do
      let data ← extend data row
      extendRows cols (i + 1) data rest

/-- A matrix from its rows. -/
def ofRows (rows : List (List α)) : Run (Except Refusal (Store α)) :=
  match rows with
  | [] => pure (.error .noRows)
  | first :: rest =>
    if first.length = 0 then pure (.error .noColumns)
    else do
      reserve (← word b ((first :: rest).length * first.length))
      andThen (extendRows first.length 0 [] (first :: rest)) fun data =>
        pure (.ok ⟨(first :: rest).length, first.length, data⟩)

/-- A matrix of sizes and entries that are known to fit. -/
def ofRaw (rows cols : Nat) (data : List α) : Run (Store α) := do
  assert b (0 < rows ∧ 0 < cols ∧ data.length = rows * cols)
  pure ⟨rows, cols, data⟩

/-! ## Reading and changing entries -/

/-- The rows. -/
def toRows (s : Store α) : Run (List (List α)) := chunks s.cols s.data

/-- Refuses an entry that does not exist. -/
def checkIndex (s : Store α) (row col : Nat) : Run (Except Refusal Unit) :=
  if s.rows ≤ row ∨ s.cols ≤ col then do
    let lastRow ← difference b s.rows 1
    let lastCol ← difference b s.cols 1
    pure (.error (.entryIndex row col lastRow lastCol))
  else pure (.ok ())

/-- Where an entry is kept. -/
def place (s : Store α) (row col : Nat) : Run Nat := do
  let start ← word b (row * s.cols)
  word b (start + col)

/-- One entry. -/
def get (s : Store α) (row col : Nat) : Run (Except Refusal α) :=
  andThen (s.checkIndex b row col) fun () => do
    let v ← read s.data (← s.place b row col)
    pure (.ok v)

/-- The matrix with one entry replaced. -/
def set (s : Store α) (row col : Nat) (value : α) : Run (Except Refusal (Store α)) :=
  andThen (s.checkIndex b row col) fun () => do
    let data ← write s.data (← s.place b row col) value
    pure (.ok { s with data })

/-- The entries of a row that exists. -/
def rowAt (s : Store α) (i : Nat) : Run (List α) := do
  let start ← word b (i * s.cols)
  let next ← word b (i + 1)
  let stop ← word b (next * s.cols)
  slice s.data start stop

/-- One row. -/
def row (s : Store α) (i : Nat) : Run (Except Refusal (List α)) :=
  if s.rows ≤ i then do
    let last ← difference b s.rows 1
    pure (.error (.rowIndex i last))
  else do
    let values ← s.rowAt b i
    pure (.ok values)

/-- The entries of a column that exists. -/
def columnAt (s : Store α) (j : Nat) : Run (List α) := stepBy s.cols (s.data.drop j)

/-- One column. -/
def column (s : Store α) (j : Nat) : Run (Except Refusal (List α)) :=
  if s.cols ≤ j then do
    let last ← difference b s.cols 1
    pure (.error (.columnIndex j last))
  else do
    let values ← s.columnAt j
    pure (.ok values)

/-! ## Rows and columns -/

/-- The matrix with a row of the right length added at the end. -/
def appendRow (s : Store α) (values : List α) : Run (Store α) := do
  assert b (values.length = s.cols)
  reserve (← word b (s.data.length + s.cols))
  let data ← extend s.data values
  let rows ← word b (s.rows + 1)
  pure { s with rows, data }

/-- The matrix with a row added at the end. -/
def addRow (s : Store α) (values : List α) : Run (Except Refusal (Store α)) :=
  if values.length ≠ s.cols then pure (.error (.rowSize values.length s.cols))
  else do
    let t ← s.appendRow b values
    pure (.ok t)

/-- The matrix with a column added at the end. -/
def addColumn (s : Store α) (values : List α) : Run (Except Refusal (Store α)) :=
  if values.length ≠ s.rows then pure (.error (.columnSize values.length s.rows))
  else do
    let cols ← word b (s.cols + 1)
    reserve (← word b (s.rows * cols))
    let rows ← chunks s.cols s.data
    let data ← (rows.zip values).foldlM (fun data (row, v) => do
      let data ← extend data row
      extend data [v]) []
    pure (.ok { s with cols, data })

/-- The matrix with its rows as columns. -/
def transpose (s : Store α) : Run (Store α) := do
  reserve s.data.length
  let data ← (List.range s.cols).foldlM (fun data j => do
    let values ← s.columnAt j
    extend data values) []
  pure ⟨s.cols, s.rows, data⟩

/-- A vector as one row. -/
def asRow (s : Store α) : Run (Store α) := if s.rows = 1 then pure s else s.transpose

/-! ## Arithmetic -/

/-- Refuses two matrices that do not fit together. -/
def refuseSizes (s t : Store α) : Refusal := .sizeMismatch s.rows s.cols t.rows t.cols

/-- Combines two matrices of one shape entry by entry. -/
def zipWith (f : α → α → α) (s t : Store α) : Run (Except Refusal (Store α)) :=
  if s.rows ≠ t.rows ∨ s.cols ≠ t.cols then pure (.error (s.refuseSizes t))
  else do
    let data ← extend [] (List.zipWith f s.data t.data)
    pure (.ok { s with data })

variable [Scalar α]

/-- The sum. -/
def plus (s t : Store α) : Run (Except Refusal (Store α)) := zipWith (· + ·) s t

/-- The difference. -/
def minus (s t : Store α) : Run (Except Refusal (Store α)) := zipWith (· - ·) s t

/-- The product of corresponding entries. -/
def timesEntrywise (s t : Store α) : Run (Except Refusal (Store α)) := zipWith (· * ·) s t

/-- The inner product of an `r × c` and a `c × r` matrix, as a matrix with one
entry. -/
def dot (s t : Store α) : Run (Except Refusal (Store α)) :=
  if s.cols ≠ t.rows ∨ s.rows ≠ t.cols then pure (.error (s.refuseSizes t))
  else do
    let value ← (List.range s.rows).foldlM (fun value i =>
      (List.range s.cols).foldlM (fun value j => do
        let v ← read s.data (← s.place b i j)
        let w ← read t.data (← t.place b j i)
        pure (value + v * w)) value) 0
    ofVector [value]

/-- Adds `v` times row `k` of a matrix to the sums at row `i` of the product. -/
def addMultiple (t : Store α) (i k : Nat) (v : α) (sums : List α) : Run (List α) :=
  (List.range t.cols).foldlM (fun sums j => do
    let place ← t.place b i j
    let w ← read t.data (← t.place b k j)
    let sum ← read sums place
    write sums place (sum + v * w)) sums

/-- The matrix product. -/
def multiply (s t : Store α) : Run (Except Refusal (Store α)) :=
  if s.cols ≠ t.rows then pure (.error (s.refuseSizes t))
  else do
    let size ← word b (s.rows * t.cols)
    reserve size
    let data ← (List.range s.rows).foldlM (fun data i =>
      (List.range s.cols).foldlM (fun data k => do
        let v ← read s.data (← s.place b i k)
        t.addMultiple b i k v data) data) (List.replicate size 0)
    pure (.ok ⟨s.rows, t.cols, data⟩)

/-! ## Finding rows and columns -/

/-- Whether two lists have the same values, as far as the shorter one goes. -/
def samePrefix (vs ws : List α) : Bool := (vs.zip ws).all fun (v, w) => Scalar.same v w

/-- The place of the first row with exactly these values. -/
def positionOfRow (s : Store α) (values : List α) : Run (Option Nat) :=
  (List.range s.rows).findM? fun i => do
    let row ← s.rowAt b i
    pure (samePrefix row values)

/-- The place of the first row with exactly these values, which have to be as
many as there are columns. -/
def findRow (s : Store α) (values : List α) : Run (Except Refusal (Option Nat)) :=
  if values.length ≠ s.cols then pure (.error (.rowSize values.length s.cols))
  else do
    let place ← s.positionOfRow b values
    pure (.ok place)

/-- The place of the first column with exactly these values, which have to be as
many as there are rows. -/
def findColumn (s : Store α) (values : List α) : Run (Except Refusal (Option Nat)) :=
  if values.length ≠ s.rows then pure (.error (.columnSize values.length s.rows))
  else do
    let place ← (List.range s.cols).findM? fun j => do
      let column ← s.columnAt j
      pure (samePrefix column values)
    pure (.ok place)

end Store

end Milp
