import Milp.Matrix.Basic
/-!
# Solutions

A solution is a level of the objective with a value for each variable. The
level alone says how the problem was solved. The values of an infeasible
solution mean nothing; those of an unbounded one are a point from which the
objective grows without end.
-/

namespace Milp

/-- How a problem was solved. -/
inductive Status where
  | optimal
  | infeasible
  | unbounded
deriving DecidableEq, Repr

/-- The name of a status. -/
def Status.name : Status → String
  | optimal => "Optimal"
  | infeasible => "Infeasible"
  | unbounded => "Unbounded"

/-- All statuses, in the order in which they are listed. -/
def Status.all : List Status := [.optimal, .infeasible, .unbounded]

/-- A level of the objective and a value for each variable. -/
structure Solution (α : Type) where
  /-- The level of the objective. -/
  objective : Level α
  /-- One value per variable. -/
  values : List α
deriving Repr

namespace Solution

variable {α : Type}

/-- The status is read off the level. -/
def status (s : Solution α) : Status :=
  match s.objective with
  | .bottom => .infeasible
  | .number _ => .optimal
  | .top => .unbounded

/-- Whether nothing is feasible. -/
def isInfeasible (s : Solution α) : Bool := s.objective.isBottom

/-- The elements of a solution as a matrix with one row, if there are any. -/
def toMatrix (s : Solution α) : Option (Matrix α) := (Matrix.ofVector s.values).toOption

variable [Scalar α]

/-- The infeasible solution for a number of variables. -/
def infeasible (n : Nat) : Solution α := ⟨.bottom, List.replicate n 0⟩

/-- The unbounded solution at zero for a number of variables. -/
def unbounded (n : Nat) : Solution α := ⟨.top, List.replicate n 0⟩

/-- Numeric equality. -/
instance : BEq (Solution α) := ⟨fun s t => s.objective == t.objective && s.values == t.values⟩

end Solution

end Milp
