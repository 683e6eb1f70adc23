import Milp.Event
import Milp.Tableau.Rules
/-!
# Pivoting to the end

From a tableau, pivots are done until no column can enter or no row can
leave. The largest-coefficient rule is used for a number of pivots, and the
lowest-index rule after that.

The number of pivots is limited. A run that meets the limit gives nothing;
no larger limit changes a run that has ended.
-/

namespace Milp

namespace Simplex

/-- The settings of the simplex method. -/
structure Config (α : Type) where
  /-- How many pivots of a phase use the largest-coefficient rule. -/
  maxIterations : Nat
  /-- What counts as zero in comparisons. -/
  tolerance : α
deriving Repr

/-- How pivoting ends. -/
inductive Ending where
  /-- No column can enter. -/
  | optimal
  /-- A column can enter and no row can leave. -/
  | unbounded
deriving DecidableEq, Repr

/-- The end of a sequence of pivots. -/
structure Optimized (α : Type) where
  /-- How it ended. -/
  ending : Ending
  /-- The last tableau. -/
  tableau : Tableau α
  /-- What happened, the oldest first. -/
  events : List (Event α)

variable {α : Type} [Scalar α]

/-- What is to be done with a tableau. -/
inductive Move where
  | stop
  | unbounded (col : Nat)
  | pivot (row col : Nat)
deriving DecidableEq, Repr

/-- The rule for the next pivot after some pivots. -/
def ruleAfter (cfg : Config α) (pivots : Nat) : PivotRule :=
  if cfg.maxIterations ≤ pivots then .lowestIndex else .largestCoefficient

/-- The move that a rule makes. -/
def move (tolerance : α) (rule : PivotRule) (t : Tableau α) : Move :=
  match t.entering tolerance rule with
  | none => .stop
  | some col =>
    match t.leaving tolerance rule col with
    | none => .unbounded col
    | some row => .pivot row col

/-- The events of a move after some pivots. -/
def moveEvents (cfg : Config α) (pivots : Nat) (m : Move) : List (Event α) :=
  let switch := if pivots = cfg.maxIterations then [.switchingRule pivots] else []
  switch ++ match m with
    | .stop => []
    | .unbounded col => [.noLeavingRow col]
    | .pivot row col => [.pivot row col]

/-- **Pivoting to the end**, with at most `limit` more pivots. -/
def optimize (cfg : Config α) : (limit pivots : Nat) → Tableau α → Option (Optimized α)
  | limit, pivots, t =>
    let m := move cfg.tolerance (ruleAfter cfg pivots) t
    let events := moveEvents cfg pivots m
    match m, limit with
    | .stop, _ => some ⟨.optimal, t, events⟩
    | .unbounded _, _ => some ⟨.unbounded, t, events⟩
    | .pivot _ _, 0 => none
    | .pivot row col, limit + 1 =>
      (optimize cfg limit (pivots + 1) (t.pivot row col)).map fun o =>
        { o with events := events ++ o.events }

end Simplex

end Milp
