import Milp.Number.Level
/-!
# Events

What the solvers report while they work. An event carries values only; its
severity, its message and its named fields are read off it.
-/

namespace Milp

/-- How much detail an event is. -/
inductive Severity where
  /-- Milestones of a run. -/
  | debug
  /-- Every single step. -/
  | trace
deriving DecidableEq, Repr

/-- The name of a severity. -/
def Severity.name : Severity → String
  | debug => "debug"
  | trace => "trace"

/-- A value in a field of an event. -/
inductive FieldValue (α : Type) where
  | count (n : Nat)
  | flag (b : Bool)
  | scalar (v : α)
  | level (l : Level α)

/-- One thing that happened during a run. -/
inductive Event (α : Type) where
  /-- The simplex method starts on a problem. -/
  | solvingRelaxation (numVariables numRows artificials : Nat)
  /-- The first phase ends with artificial variables above zero. -/
  | artificialsRemain (infeasibility : α)
  /-- A row that depends on the others is removed. -/
  | droppingRow (row : Nat)
  /-- The lowest-index rule takes over. -/
  | switchingRule (pivots : Nat)
  /-- A column can grow without end. -/
  | noLeavingRow (column : Nat)
  /-- A pivot is about to be done. -/
  | pivot (row column : Nat)
  /-- A search starts. -/
  | searchStarted (epsilon : α) (depthFirst : Bool) (integerVariables : Nat)
  /-- A search ends at its root. -/
  | rootInfeasible
  /-- A pending node cannot beat the incumbent. -/
  | skippingNode (bound : Level α)
  /-- A node has been solved and is looked at. -/
  | visitingNode (constraints : Nat) (bound : Level α)
  /-- A solution is accepted. -/
  | newIncumbent (objective : Level α)
  /-- A node is split at a variable. -/
  | branching (index : Nat) (value : α)
  /-- A search ends. -/
  | searchFinished (objective : Level α) (solved pruned : Nat)

namespace Event

variable {α : Type}

/-- The severity of an event. -/
def severity : Event α → Severity
  | droppingRow .. | noLeavingRow .. | pivot .. | skippingNode .. | visitingNode ..
  | branching .. => .trace
  | _ => .debug

/-- The message of an event. -/
def message : Event α → String
  | solvingRelaxation .. => "solving relaxation"
  | artificialsRemain .. => "phase 1 could not eliminate the artificial variables"
  | droppingRow .. => "dropping redundant constraint row"
  | switchingRule .. => "switching to Bland's rule"
  | noLeavingRow .. => "no leaving row, objective is unbounded"
  | pivot .. => "pivot"
  | searchStarted .. => "starting branch and bound"
  | rootInfeasible => "root relaxation is infeasible"
  | skippingNode .. => "skipping node bounded by incumbent"
  | visitingNode .. => "visiting node"
  | newIncumbent .. => "new incumbent"
  | branching .. => "branching"
  | searchFinished .. => "branch and bound finished"

/-- The named fields of an event. -/
def fields : Event α → List (String × FieldValue α)
  | solvingRelaxation n m k =>
    [("variables", .count n), ("constraints", .count m), ("artificials", .count k)]
  | artificialsRemain v => [("infeasibility", .scalar v)]
  | droppingRow i => [("row", .count i)]
  | switchingRule k => [("iterations", .count k)]
  | noLeavingRow j => [("column", .count j)]
  | pivot i j => [("row", .count i), ("column", .count j)]
  | searchStarted e d k =>
    [("epsilon", .scalar e), ("depth_first", .flag d), ("integer_variables", .count k)]
  | rootInfeasible => []
  | skippingNode b => [("bound", .level b)]
  | visitingNode m b => [("constraints", .count m), ("bound", .level b)]
  | newIncumbent z => [("objective", .level z)]
  | branching j v => [("variable", .count j), ("value", .scalar v)]
  | searchFinished z s p =>
    [("objective", .level z), ("nodes_solved", .count s), ("nodes_pruned", .count p)]

/-- Whether an event is kept by a log of the given severity. -/
def keptBy (e : Event α) : Severity → Bool
  | .trace => true
  | .debug => e.severity == .debug

end Event

end Milp
