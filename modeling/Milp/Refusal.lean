/-!
# What is refused

Matrices and problems are built from data of any shape, and `Refusal` lists
the ways in which the data may not fit. A refusal carries the sizes that it
is about; `Refusal.message` is the only place where they become text.

An infeasible or an unbounded problem is not refused: it is solved, with
that outcome.
-/

namespace Milp

/-- The three kinds of refusal. -/
inductive Refusal.Kind where
  | invalidArgument
  | outOfRange
  | invalidState
deriving DecidableEq, Repr

/-- Why data does not make a matrix or a problem. -/
inductive Refusal where
  /-- A matrix without rows or without columns was asked for. -/
  | emptyShape (rows cols : Nat)
  /-- A matrix with too many entries to count was asked for. -/
  | hugeShape (rows cols : Nat)
  /-- A vector has no elements. -/
  | emptyVector
  /-- There are no rows. -/
  | noRows
  /-- The first row is empty. -/
  | noColumns
  /-- A row differs in length from the first one. -/
  | raggedRow (row size cols : Nat)
  /-- A row does not have one element per column. -/
  | rowSize (size cols : Nat)
  /-- A column does not have one element per row. -/
  | columnSize (size rows : Nat)
  /-- Two matrices do not fit together. -/
  | sizeMismatch (rows cols otherRows otherCols : Nat)
  /-- The objective has more than one row. -/
  | objectiveShape (rows cols : Nat)
  /-- The constraints and the objective differ in their number of columns. -/
  | constraintWidth (cols numVariables : Nat)
  /-- The right-hand side is no vector. -/
  | boundsShape (rows cols : Nat)
  /-- The right-hand side does not have one entry per constraint. -/
  | boundsSize (size constraints : Nat)
  /-- A constraint does not have one coefficient per variable. -/
  | constraintSize (size numVariables : Nat)
  /-- There is no such row; `last` is the largest index. -/
  | rowIndex (row last : Nat)
  /-- There is no such column; `last` is the largest index. -/
  | columnIndex (col last : Nat)
  /-- There is no such entry. -/
  | entryIndex (row col lastRow lastCol : Nat)
  /-- There is no such variable; `last` is the largest index. -/
  | variableIndex (index last : Nat)
  /-- The elements of a matrix with several rows and columns were asked for. -/
  | notVector (rows cols : Nat)
deriving DecidableEq, Repr

namespace Refusal

/-- The kind of a refusal. -/
def kind : Refusal → Kind
  | rowIndex .. | columnIndex .. | entryIndex .. | variableIndex .. => .outOfRange
  | notVector .. => .invalidState
  | _ => .invalidArgument

/-- How each kind is announced. -/
def Kind.label : Kind → String
  | invalidArgument => "Invalid argument: "
  | outOfRange => "Index out of range: "
  | invalidState => "Invalid state: "

/-- What does not fit, without the kind. -/
def detail : Refusal → String
  | emptyShape r c => s!"Matrix dimensions must be positive: ({r}, {c})"
  | hugeShape r c => s!"Matrix dimensions are too large: ({r}, {c})"
  | emptyVector => "A vector needs at least one element"
  | noRows => "A matrix needs at least one row"
  | noColumns => "A matrix needs at least one column"
  | raggedRow i k c => s!"Row {i} has {k} elements, expected {c}"
  | rowSize k c => s!"A row must have one element per column: {k} is different than {c}"
  | columnSize k r => s!"A column must have one element per row: {k} is different than {r}"
  | sizeMismatch r c s d => s!"Invalid matrix sizes: ({r}, {c}), ({s}, {d})"
  | objectiveShape r c => s!"The objective must be a row vector, got ({r}, {c})"
  | constraintWidth c n =>
    s!"The constraints have {c} columns but the objective has {n} variables"
  | boundsShape r c => s!"The right-hand side must be a vector, got ({r}, {c})"
  | boundsSize k m => s!"The right-hand side has {k} entries but there are {m} constraints"
  | constraintSize k n =>
    s!"A constraint needs one coefficient per variable: {k} is different than {n}"
  | rowIndex i l => s!"Row {i} must be between 0 and {l}"
  | columnIndex j l => s!"Column {j} must be between 0 and {l}"
  | entryIndex i j k l => s!"({i}, {j}) must be between (0, 0) and ({k}, {l})"
  | variableIndex j l => s!"Variable {j} must be between 0 and {l}"
  | notVector r c => s!"The matrix is not a vector: ({r}, {c})"

/-- The text of a refusal: its kind, then what does not fit. -/
def message (e : Refusal) : String := e.kind.label ++ e.detail

end Refusal

end Milp
