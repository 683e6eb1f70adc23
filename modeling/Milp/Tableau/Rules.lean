import Milp.Tableau.Basic
/-!
# Pivot rules

Which column enters the basis and which row leaves it. Two rules are known.
The **largest-coefficient** rule takes the most negative reduced cost and
breaks ties in the ratio test by the order of the rows. The
**lowest-index** rule takes the first negative reduced cost and breaks ties,
up to the tolerance, in favour of the lowest basic column.
-/

namespace Milp

/-- How the entering column is chosen, and ties among the rows broken. -/
inductive PivotRule where
  | largestCoefficient
  | lowestIndex
deriving DecidableEq, Repr

namespace Tableau

variable {α : Type} [Scalar α]

/-- The place of the first value that is below all before it and below the
given one; `best` is the answer so far and `j` the place of the next value. -/
def lowestPlace (j : Nat) (lowest : α) (best : Option Nat) : List α → Option Nat
  | [] => best
  | v :: rest =>
    if v < lowest then lowestPlace (j + 1) v (some j) rest
    else lowestPlace (j + 1) lowest best rest

/-- The entering column: one with a reduced cost below minus the tolerance. -/
def entering (t : Tableau α) (tolerance : α) : PivotRule → Option Nat
  | .largestCoefficient => lowestPlace 0 (-tolerance) none t.objective.coefficients
  | .lowestIndex => t.objective.coefficients.findIdx? fun v => decide (v < -tolerance)

/-- A row that may leave the basis. -/
structure Candidate (α : Type) where
  /-- The place of the row. -/
  row : Nat
  /-- Its basic column. -/
  basic : Nat
  /-- How far the entering variable can grow on account of this row. -/
  ratio : α

/-- Whether a row takes the place of the candidate before it: its ratio is
lower by more than the tolerance or, by the lowest-index rule, equal up to
the tolerance while its basic column is lower. -/
def Candidate.beats (c : Candidate α) (tolerance : α) (rule : PivotRule)
    (best : Candidate α) : Bool :=
  decide (c.ratio < best.ratio - tolerance) ||
    (rule == .lowestIndex && decide (Scalar.abs (c.ratio - best.ratio) ≤ tolerance) &&
      decide (c.basic < best.basic))

/-- The candidate that a row is, if its entry is not too small. -/
def candidate? (tolerance : α) (col i : Nat) (r : BasicRow α) : Option (Candidate α) :=
  if r.entry col ≤ tolerance then none
  else some ⟨i, r.basic, Scalar.greater r.rhs 0 / r.entry col⟩

/-- The ratio test over the rows from the `i`-th on, with the candidate that
the rows before have left. -/
def ratioTest (tolerance : α) (rule : PivotRule) (col : Nat) :
    (i : Nat) → Option (Candidate α) → List (BasicRow α) → Option (Candidate α)
  | _, best, [] => best
  | i, best, r :: rest =>
    match candidate? tolerance col i r, best with
    | none, _ => ratioTest tolerance rule col (i + 1) best rest
    | some c, none => ratioTest tolerance rule col (i + 1) (some c) rest
    | some c, some b =>
      ratioTest tolerance rule col (i + 1) (some (if c.beats tolerance rule b then c else b)) rest

/-- The leaving row for an entering column. -/
def leaving (t : Tableau α) (tolerance : α) (rule : PivotRule) (col : Nat) : Option Nat :=
  (ratioTest tolerance rule col 0 none t.rows).map (·.row)

end Tableau

end Milp
