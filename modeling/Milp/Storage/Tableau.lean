import Milp.Simplex.TwoPhase
import Milp.Storage.Problem
/-!
# Stored tableaus

A `StoredTableau` is a tableau as it is kept: a vector of rows, of which the
last is the objective and each ends with its right-hand side, the basic column
of each row but the last in a vector of its own, and how many variables there
are of each kind. The columns of the four kinds are found by counting: first the
decision variables, then the slacks, then the artificial variables, and the
right-hand side last. Nothing in the type makes the rows equally long or the
basic columns columns, and every operation goes by indices.
-/

namespace Milp

open Storage

/-! ## Entries of rows -/

namespace Storage

variable {α : Type}

/-- One entry of one row. -/
def readEntry (data : List (List α)) (i j : Nat) : Run α := do
  let row ← read data i
  read row j

/-- The rows with one entry replaced. -/
def writeEntry (data : List (List α)) (i j : Nat) (v : α) : Run (List (List α)) := do
  let row ← read data i
  let row ← write row j v
  write data i row

/-- The rows with the first `cols` entries of one row replaced one after the
other. A new entry may depend on all entries there are by then. -/
def changeRow (i cols : Nat) (f : List (List α) → Nat → Run α) (data : List (List α)) :
    Run (List (List α)) :=
  (List.range cols).foldlM (fun data j => do
    let v ← f data j
    writeEntry data i j v) data

/-- The rows with a row combined with another one, entry by entry. -/
def combineRow (f : α → α → α) (i k cols : Nat) : List (List α) → Run (List (List α)) :=
  changeRow i cols fun data j => do
    let v ← readEntry data i j
    let w ← readEntry data k j
    pure (f v w)

end Storage

/-- A tableau as it is kept. -/
structure StoredTableau (α : Type) where
  /-- The rows, the objective last, each with its right-hand side last. -/
  data : List (List α)
  /-- The basic columns. -/
  basicVars : List Nat
  /-- The number of decision variables. -/
  numVars : Nat
  /-- The number of slack variables. -/
  numSlacks : Nat
  /-- The number of artificial variables. -/
  numArtificials : Nat

namespace StoredTableau

variable {α : Type} (b : Build)

/-! ## Places -/

/-- The place of the objective. -/
def objectiveRow (t : StoredTableau α) : Run Nat := difference b t.data.length 1

/-- The number of columns, that of the right-hand sides included. -/
def width (t : StoredTableau α) : Run Nat := do
  let row ← read t.data 0
  pure row.length

/-- The first column of an artificial variable. -/
def artificialStart (t : StoredTableau α) : Run Nat := word b (t.numVars + t.numSlacks)

/-- The value of the objective. -/
def corner (t : StoredTableau α) : Run α := do
  let last ← t.objectiveRow b
  let width ← t.width
  let col ← difference b width 1
  readEntry t.data last col

/-! ## Rows and columns that go -/

/-- The tableau without a row. -/
def removeRow (t : StoredTableau α) (i : Nat) : Run (StoredTableau α) := do
  let data ← remove t.data i
  let basicVars ← remove t.basicVars i
  pure { t with data, basicVars }

/-- The tableau without the columns of the artificial variables. -/
def dropArtificials (t : StoredTableau α) : Run (StoredTableau α) := do
  let start ← t.artificialStart b
  let data ← t.data.mapM fun row => do
    let last ← difference b row.length 1
    let bound ← read row last
    extend (row.take start) [bound]
  pure { t with data, numArtificials := 0 }

variable [Scalar α]

/-! ## Making a tableau -/

/-- What is made while the rows are filled: the rows, the basic columns, and the
column of the next artificial variable. -/
structure Filling (α : Type) where
  /-- The rows. -/
  data : List (List α)
  /-- The basic columns. -/
  basicVars : List Nat
  /-- The next artificial column. -/
  next : Nat

/-- Writes the `i`-th constraint with its slack to a row, negated if its right-hand
side is negative. -/
def fillEntries (p : StoredProblem α) (cols i : Nat) (bound : α) (row : List α) :
    Run (List α) := do
  let sign : α := if bound < 0 then -1 else 1
  let coefficients ← p.constraints.rowAt b i
  let row ← coefficients.zipIdx.foldlM (fun row (v, j) => write row j (sign * v)) row
  let slack ← word b (p.numVariables + i)
  let row ← write row slack sign
  let last ← difference b cols 1
  write row last (sign * bound)

/-- Fills the `i`-th row. A constraint that is negated has an artificial variable,
which is basic then; otherwise the slack is. -/
def fillRow (p : StoredProblem α) (cols : Nat) (s : Filling α) (i : Nat) : Run (Filling α) := do
  let row ← read s.data i
  let bound ← read p.rhs.data i
  let row ← fillEntries b p cols i bound row
  if bound < 0 then do
    let row ← write row s.next 1
    let data ← write s.data i row
    let basicVars ← write s.basicVars i s.next
    let next ← word b (s.next + 1)
    pure ⟨data, basicVars, next⟩
  else do
    let data ← write s.data i row
    let slack ← word b (p.numVariables + i)
    let basicVars ← write s.basicVars i slack
    pure ⟨data, basicVars, s.next⟩

/-- The tableau that a problem starts from. -/
def build (p : StoredProblem α) : Run (StoredTableau α) := do
  let n := p.numVariables
  let m := p.constraints.rows
  let artificials := p.rhs.data.countP (· < 0)
  let start ← word b (n + m)
  let columns ← word b (start + artificials)
  let cols ← word b (columns + 1)
  let rows ← word b (m + 1)
  -- a row is kept as its address, its length and the room it has
  reserve cols
  reserve (3 * rows)
  reserve m
  let made ← (List.range m).foldlM (fillRow b p cols)
    ⟨List.replicate rows (List.replicate cols 0), List.replicate m 0, start⟩
  pure ⟨made.data, made.basicVars, n, m, artificials⟩

/-! ## Pivots -/

/-- Divides the entries of a row. -/
def divideRow (row cols : Nat) (divisor : α) : List (List α) → Run (List (List α)) :=
  changeRow row cols fun data j => do
    let v ← readEntry data row j
    pure (v / divisor)

/-- Subtracts a multiple of the pivot row from the `i`-th row, unless that is the
pivot row or has a zero in the column. -/
def eliminateRow (row col cols : Nat) (data : List (List α)) (i : Nat) : Run (List (List α)) :=
  if i = row then pure data
  else do
    let factor ← readEntry data i col
    if factor == 0 then pure data
    else combineRow (fun v w => v - factor * w) i row cols data

/-- A pivot. -/
def pivot (t : StoredTableau α) (row col : Nat) : Run (StoredTableau α) := do
  let cols ← t.width
  let basicVars ← write t.basicVars row col
  let divisor ← readEntry t.data row col
  let data ← divideRow row cols divisor t.data
  let data ← (List.range t.data.length).foldlM (eliminateRow row col cols) data
  pure { t with data, basicVars }

/-- The entering column. -/
def entering (t : StoredTableau α) (tolerance : α) (rule : PivotRule) : Run (Option Nat) := do
  let last ← t.objectiveRow b
  let objective ← read t.data last
  let stop ← difference b objective.length 1
  let candidates ← slice objective 0 stop
  match rule with
  | .largestCoefficient => pure (Tableau.lowestPlace 0 (-tolerance) none candidates)
  | .lowestIndex => pure (candidates.findIdx? fun v => decide (v < -tolerance))

/-- The ratio test on one row, with the row that the rows before have left and
its ratio. -/
def testRow (t : StoredTableau α) (tolerance : α) (rule : PivotRule) (col rhsCol : Nat)
    (best : Option (Nat × α)) (i : Nat) : Run (Option (Nat × α)) := do
  let v ← readEntry t.data i col
  if v ≤ tolerance then pure best
  else do
    let bound ← readEntry t.data i rhsCol
    let ratio := Scalar.greater bound 0 / v
    match best with
    | none => pure (some (i, ratio))
    | some (row, least) =>
      if ratio < least - tolerance then pure (some (i, ratio))
      -- basic columns are looked at only where they decide
      else if rule = .lowestIndex ∧ Scalar.abs (ratio - least) ≤ tolerance then do
        let basic ← read t.basicVars i
        let other ← read t.basicVars row
        pure (if basic < other then some (i, ratio) else best)
      else pure best

/-- The leaving row for an entering column. -/
def leaving (t : StoredTableau α) (tolerance : α) (rule : PivotRule) (col : Nat) :
    Run (Option Nat) := do
  let width ← t.width
  let rhsCol ← difference b width 1
  let last ← t.objectiveRow b
  let best ← (List.range last).foldlM (t.testRow tolerance rule col rhsCol) none
  pure (best.map (·.1))

/-- The move that a rule makes. -/
def move (t : StoredTableau α) (tolerance : α) (rule : PivotRule) : Run Simplex.Move := do
  match ← t.entering b tolerance rule with
  | none => pure .stop
  | some col =>
    match ← t.leaving b tolerance rule col with
    | none => pure (.unbounded col)
    | some row => pure (.pivot row col)

/-! ## Objectives -/

/-- Subtracts the `i`-th row from the last one if its basic variable is
artificial. -/
def subtractArtificial (t : StoredTableau α) (start last cols : Nat) (data : List (List α))
    (i : Nat) : Run (List (List α)) := do
  let basic ← read t.basicVars i
  if start ≤ basic then combineRow (fun v w => v - w) last i cols data
  else pure data

/-- The tableau with the objective of the first phase. -/
def priceArtificials (t : StoredTableau α) : Run (StoredTableau α) := do
  let last ← t.objectiveRow b
  let cols ← t.width
  let start ← t.artificialStart b
  reserve cols
  let data ← write t.data last (List.replicate cols 0)
  let stop ← difference b cols 1
  let data ← (List.range' start (stop - start)).foldlM
    (fun data j => writeEntry data last j 1) data
  let data ← (List.range last).foldlM (t.subtractArtificial start last cols) data
  pure { t with data }

/-- Subtracts a multiple of the `i`-th row from the last one, unless that has a
zero in its basic column. -/
def eliminateBasic (t : StoredTableau α) (last cols : Nat) (data : List (List α)) (i : Nat) :
    Run (List (List α)) := do
  let basic ← read t.basicVars i
  let ratio ← readEntry data last basic
  if ratio == 0 then pure data
  else combineRow (fun v w => v - ratio * w) last i cols data

/-- The tableau with the objective of a problem. -/
def priceObjective (t : StoredTableau α) (objective : List α) : Run (StoredTableau α) := do
  let last ← t.objectiveRow b
  let cols ← t.width
  reserve cols
  let data ← write t.data last (List.replicate cols 0)
  let data ← objective.zipIdx.foldlM (fun data (c, j) => writeEntry data last j (-c)) data
  let data ← (List.range last).foldlM (t.eliminateBasic last cols) data
  pure { t with data }

/-! ## Leaving the first phase -/

/-- A column before `start` that can take the place of an artificial variable in
a row. -/
def replacement? (t : StoredTableau α) (tolerance : α) (start row : Nat) : Run (Option Nat) :=
  (List.range start).findM? fun j => do
    let v ← readEntry t.data row j
    pure (decide (tolerance < Scalar.abs v))

/-- Drives an artificial variable out of a row, or adds the row to those that
nothing can be done with. -/
def driveOutRow (tolerance : α) (start : Nat) (acc : StoredTableau α × List Nat) (i : Nat) :
    Run (StoredTableau α × List Nat) := do
  let basic ← read acc.1.basicVars i
  if basic < start then pure acc
  else
    match ← acc.1.replacement? tolerance start i with
    | some col => do
      let t ← acc.1.pivot i col
      pure (t, acc.2)
    | none => pure (acc.1, i :: acc.2)

/-- Drives artificial variables out of all rows. -/
def driveOut (t : StoredTableau α) (tolerance : α) : Run (StoredTableau α × List Nat) := do
  let start ← t.artificialStart b
  let last ← t.objectiveRow b
  (List.range last).foldlM (driveOutRow tolerance start) (t, [])

/-! ## The answer -/

/-- Writes the right-hand side of the `i`-th row to the place of its basic column
if that is one of the first `n`. -/
def writeBasic (t : StoredTableau α) (tolerance : α) (n rhsCol : Nat) (values : List α) :
    Nat × Nat → Run (List α)
  | (basic, i) =>
    if basic < n then do
      let v ← readEntry t.data i rhsCol
      write values basic (Simplex.snap tolerance v)
    else pure values

/-- The values of the first `n` variables at the basis. -/
def basicValues (t : StoredTableau α) (tolerance : α) (n : Nat) : Run (List α) := do
  let width ← t.width
  let rhsCol ← difference b width 1
  reserve n
  t.basicVars.zipIdx.foldlM (t.writeBasic tolerance n rhsCol) (List.replicate n 0)

end StoredTableau

end Milp
