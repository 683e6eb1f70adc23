import Milp.Problem.Draft
import Milp.Storage.Matrix
/-!
# Stored problems

A `StoredProblem` is a problem as it is kept: an objective and right-hand sides
with one row each, a matrix of constraints, and one flag per variable. Again
nothing in the type makes their sizes fit.
-/

namespace Milp

open Storage

/-- A problem as it is kept. -/
structure StoredProblem (α : Type) where
  /-- One coefficient per variable. -/
  objective : Store α
  /-- The coefficients of the constraints. -/
  constraints : Store α
  /-- One right-hand side per constraint. -/
  rhs : Store α
  /-- One flag per variable. -/
  integer : List Bool

namespace StoredProblem

variable {α : Type} (b : Build)

/-- The number of variables. -/
def numVariables (p : StoredProblem α) : Nat := p.objective.cols

/-- Whether a variable has to be an integer. -/
def isInteger (p : StoredProblem α) (j : Nat) : Bool := p.integer.getD j false

/-! ## Making a problem -/

/-- The problem with all variables integer that three matrices describe. -/
def new (objective constraints rhs : Store α) : Run (Except Refusal (StoredProblem α)) :=
  if objective.rows ≠ 1 then pure (.error (.objectiveShape objective.rows objective.cols))
  else if constraints.cols ≠ objective.cols then
    pure (.error (.constraintWidth constraints.cols objective.cols))
  else if ¬ rhs.isVector then pure (.error (.boundsShape rhs.rows rhs.cols))
  else do
    let rhs ← rhs.asRow
    if rhs.cols ≠ constraints.rows then pure (.error (.boundsSize rhs.cols constraints.rows))
    else pure (.ok ⟨objective, constraints, rhs, List.replicate objective.cols true⟩)

/-- Refuses a variable that does not exist. -/
def refuseVariable (p : StoredProblem α) (j : Nat) : Run Refusal := do
  let last ← difference b p.numVariables 1
  pure (.variableIndex j last)

/-- Sets the flags of the given variables. -/
def setFlags (p : StoredProblem α) :
    (flags : List Bool) → List Nat → Run (Except Refusal (List Bool))
  | flags, [] => pure (.ok flags)
  | flags, j :: js =>
    if p.numVariables ≤ j then do
      let refusal ← p.refuseVariable b j
      pure (.error refusal)
    else do
      let flags ← write flags j true
      setFlags p flags js

/-- The problem with exactly the given integer variables. -/
def restrictTo (p : StoredProblem α) (js : List Nat) : Run (Except Refusal (StoredProblem α)) :=
  andThen (p.setFlags b (List.replicate p.numVariables false) js) fun integer =>
    pure (.ok { p with integer })

/-- The problem that a draft describes. -/
def ofDraft (d : Draft α) : Run (Except Refusal (StoredProblem α)) :=
  andThen (Store.ofVector d.objective) fun objective =>
    andThen (Store.ofRows b d.constraints) fun constraints =>
      andThen (Store.ofVector d.rhs) fun rhs =>
        andThen (new objective constraints rhs) fun p =>
          match d.integerVariables with
          | none => pure (.ok p)
          | some js => p.restrictTo b js

/-! ## Taking a problem apart -/

/-- The places of the flags that are set. -/
def integerVariables (p : StoredProblem α) : List Nat :=
  p.integer.zipIdx.filterMap fun (flag, j) => if flag then some j else none

/-- The draft of a problem. -/
def toDraft (p : StoredProblem α) : Run (Draft α) := do
  let constraints ← p.constraints.toRows
  pure {
    objective := p.objective.data
    constraints
    rhs := p.rhs.data
    integerVariables := if p.integer.all id then none else some p.integerVariables }

/-! ## Adding rows -/

variable [Scalar α]

/-- The problem with a row of the right length added. -/
def pushConstraint (p : StoredProblem α) (coefficients : List α) (rhs : α) :
    Run (StoredProblem α) := do
  match ← p.constraints.positionOfRow b coefficients with
  | some i =>
    let old ← read p.rhs.data i
    let values ← write p.rhs.data i (Scalar.lesser old rhs)
    let rhs ← Store.ofRaw b 1 values.length values
    pure { p with rhs }
  | none =>
    let values ← extend p.rhs.data [rhs]
    let constraints ← p.constraints.appendRow b coefficients
    let rhs ← Store.ofRaw b 1 values.length values
    pure { p with constraints, rhs }

/-- The problem with a row added. -/
def withConstraint (p : StoredProblem α) (coefficients : List α) (rhs : α) :
    Run (Except Refusal (StoredProblem α)) :=
  if coefficients.length ≠ p.numVariables then
    pure (.error (.constraintSize coefficients.length p.numVariables))
  else do
    let q ← p.pushConstraint b coefficients rhs
    pure (.ok q)

/-- The coefficients of a bound on one variable. -/
def unitRow (p : StoredProblem α) (j : Nat) (c : α) : Run (Except Refusal (List α)) :=
  if p.numVariables ≤ j then do
    let refusal ← p.refuseVariable b j
    pure (.error refusal)
  else do
    reserve p.numVariables
    let row ← write (List.replicate p.numVariables 0) j c
    pure (.ok row)

/-- The problem with the bound `x j ≤ value`. -/
def withUpperBound (p : StoredProblem α) (j : Nat) (value : α) :
    Run (Except Refusal (StoredProblem α)) :=
  andThen (p.unitRow b j 1) fun row => p.withConstraint b row value

/-- The problem with the bound `x j ≥ value`, kept as `-x j ≤ -value`. -/
def withLowerBound (p : StoredProblem α) (j : Nat) (value : α) :
    Run (Except Refusal (StoredProblem α)) :=
  andThen (p.unitRow b j (-1)) fun row => p.withConstraint b row (-value)

end StoredProblem

end Milp
