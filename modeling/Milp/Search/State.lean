import Milp.Solver
import Milp.Search.Branching
import Milp.Search.Frontier
/-!
# The state of a search

A search keeps its frontier, a report, the memory of the solver that it
wraps, the calls of that solver and a log. Calls and log are kept with the
newest first. The log tells apart what the search itself reports and what
the wrapped solver does.
-/

namespace Milp

namespace Search

/-- The settings of a search. -/
structure Config (α : Type) where
  /-- How far from an integer a value may be and still count as one. -/
  epsilon : α
  /-- Which pending node is taken next. -/
  order : Order
deriving Repr

/-- What a search comes to. -/
structure Report (α : Type) where
  /-- The best solution so far. -/
  solution : Solution α
  /-- How many problems the wrapped solver has been given. -/
  nodesSolved : Nat
  /-- How many nodes could not beat the incumbent. -/
  nodesPruned : Nat
  /-- The level of every incumbent, the oldest first. -/
  incumbents : List (Level α)
deriving Repr

/-- One call of the wrapped solver. -/
structure Call (α : Type) where
  /-- The problem it was given. -/
  problem : Problem α
  /-- Its answer. -/
  answer : Solution α

/-- Who reports an event. -/
inductive Source where
  | search
  | wrapped
deriving DecidableEq, Repr

/-- The state of a search. -/
structure State (σ α : Type) where
  /-- The pending nodes. -/
  frontier : Frontier α
  /-- The report so far. -/
  report : Report α
  /-- What the wrapped solver remembers. -/
  memory : σ
  /-- The calls of the wrapped solver, the newest first. -/
  calls : List (Call α)
  /-- What happened, the newest first. -/
  log : List (Source × Event α)

namespace State

variable {σ α : Type} [Scalar α]

/-- The level of the incumbent. -/
def incumbent (s : State σ α) : Level α := s.report.solution.objective

/-- The state with an event of the search itself. -/
def note (s : State σ α) (e : Event α) : State σ α :=
  { s with log := (.search, e) :: s.log }

/-- The state with one more pruned node. -/
def prune (s : State σ α) : State σ α :=
  { s with report := { s.report with nodesPruned := s.report.nodesPruned + 1 } }

/-- The state with a new incumbent. -/
def accept (s : State σ α) (answer : Solution α) : State σ α :=
  { s with report := { s.report with
      solution := answer
      incumbents := s.report.incumbents ++ [answer.objective] } }

/-- The state with the two children of a node. -/
def split (s : State σ α) (p : Problem α) (f : Fractional α) (bound : Level α) : State σ α :=
  { s with
    frontier := s.frontier.pushChildren (floorChild p f) (ceilChild p f) bound }

/-- The state after the wrapped solver has replied to a problem. -/
def record (s : State σ α) (p : Problem α) (reply : Reply σ α) : State σ α :=
  { s with
    report := { s.report with nodesSolved := s.report.nodesSolved + 1 }
    memory := reply.memory
    calls := ⟨p, reply.solution⟩ :: s.calls
    log := reply.events.reverse.map (Prod.mk .wrapped) ++ s.log }

/-- **A solved node is visited**: it is pruned, accepted or split. -/
def visit (s : State σ α) (epsilon : α) (p : Problem α) (answer : Solution α) : State σ α :=
  let s := s.note (.visitingNode p.numRows answer.objective)
  match judge epsilon s.incumbent p answer with
  | .prune => s.prune
  | .accept => (s.note (.newIncumbent answer.objective)).accept answer
  | .branch f => (s.note (.branching f.index f.value)).split p f answer.objective

end State

end Search

end Milp
