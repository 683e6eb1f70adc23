import Milp.Search.Branching
import Milp.Storage.Problem
/-!
# Splitting a stored problem

The values of an answer are scanned for the variable to branch on, and the two
problems that it is split into are made of one row, in which the entry of the
variable is written twice. The list of values may be shorter or longer than the
row: nothing in the types says that the variable is a place of both.
-/

namespace Milp

open Storage

namespace StoredProblem

variable {α : Type} [Scalar α] (b : Build)

/-- One turn of the scan, which keeps a variable and how far its value is from a
half. -/
def scanValue (p : StoredProblem α) (epsilon : α) (best : Option (Nat × α)) (v : α) (j : Nat) :
    Option (Nat × α) :=
  if !p.isInteger j || decide (Scalar.abs (v - Scalar.round v) ≤ epsilon) then best
  else
    let distance := Scalar.abs (v - Scalar.floor v - Scalar.half)
    match best with
    | none => some (j, distance)
    | some (_, least) => if distance < least then some (j, distance) else best

/-- The variable to branch on. -/
def branchingVariable (p : StoredProblem α) (epsilon : α) (values : List α) : Option Nat :=
  (values.zipIdx.foldl (fun best (v, j) => p.scanValue epsilon best v j) none).map (·.1)

/-- The two problems that a split at a variable makes: at most the floor of its
value, and at least the ceiling. -/
def children (p : StoredProblem α) (values : List α) (j : Nat) :
    Run (StoredProblem α × StoredProblem α) := do
  let value ← read values j
  reserve p.numVariables
  let row ← write (List.replicate p.numVariables 0) j 1
  let down ← p.pushConstraint b row (Scalar.floor value)
  let row ← write row j (-1)
  let up ← p.pushConstraint b row (-Scalar.ceil value)
  pure (down, up)

/-- The two problems that an answer splits a problem into, if it does. -/
def split (p : StoredProblem α) (epsilon : α) (values : List α) :
    Run (Option (StoredProblem α × StoredProblem α)) :=
  match p.branchingVariable epsilon values with
  | none => pure none
  | some j => do
    let both ← p.children b values j
    pure (some both)

end StoredProblem

end Milp
