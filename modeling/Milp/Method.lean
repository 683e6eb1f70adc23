import Milp.Simplex.TwoPhase
import Milp.Search.Run
/-!
# Methods

The solvers that there are: the simplex method, a script of answers given in
turn, and a search around another method. What a method remembers is the
part of the script, if it has one, that is still to come.
-/

namespace Milp

/-- A way to solve problems. -/
inductive Method (α : Type) where
  /-- The two-phase simplex method. -/
  | simplex (config : Simplex.Config α)
  /-- Answers given in turn, whatever the problem. -/
  | script (answers : List (Solution α))
  /-- Branch and bound around another method. -/
  | search (config : Search.Config α) (relaxation : Method α)

namespace Method

variable {α : Type} [Scalar α]

/-- Answers given in turn; after the last one every problem is infeasible. -/
def scripted : Solver (List (Solution α)) α where
  run
    | [], p => some ⟨Solution.infeasible p.numVariables, [], []⟩
    | answer :: rest, _ => some ⟨answer, [], rest⟩

/-- The memory that a method starts with. -/
def memory : Method α → List (Solution α)
  | simplex _ => []
  | script answers => answers
  | search _ relaxation => relaxation.memory

/-- The solver of a method, with a limit for each of its loops. -/
def solver (limit : Nat) : Method α → Solver (List (Solution α)) α
  | simplex config => Simplex.solver config limit
  | script _ => scripted
  | search config relaxation => Search.solver (relaxation.solver limit) config limit

end Method

end Milp
