import Milp.Problem.Basic
import Milp.Solution
import Milp.Event
/-!
# Solvers

A solver answers problems one after another and may remember what it has
been asked: it goes from memory to memory. It is a partial function, because
a method need not end; a run that has not ended within its limit gives
nothing.
-/

namespace Milp

/-- What a solver gives back for one problem. -/
structure Reply (σ α : Type) where
  /-- The answer. -/
  solution : Solution α
  /-- What happened on the way, the oldest first. -/
  events : List (Event α)
  /-- What the solver remembers from now on. -/
  memory : σ

/-- A method that answers problems. -/
structure Solver (σ α : Type) where
  /-- The reply to a problem, when there is one. -/
  run : σ → Problem α → Option (Reply σ α)

/-- **A pure solver** answers each problem always the same. -/
def Solver.pure {α : Type} (answer : Problem α → Solution α) : Solver Unit α where
  run _ p := some ⟨answer p, [], ()⟩

end Milp
