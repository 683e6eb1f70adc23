import Milp.Search.State
/-!
# Branch and bound

A search solves the relaxation of a problem with a wrapped solver and splits
it until the integer variables are integral. The root is solved in any case;
after it, pending nodes are taken one by one. A node whose bound is not
above the incumbent is skipped, every other one is solved and visited.

The number of nodes taken is limited. A run that meets the limit gives
nothing, and so does one in which the wrapped solver gives nothing.
-/

namespace Milp

namespace Search

variable {σ α : Type} [Scalar α]

/-- A finished search. -/
structure Outcome (σ α : Type) where
  /-- What the search comes to. -/
  report : Report α
  /-- What the wrapped solver remembers. -/
  memory : σ
  /-- The calls of the wrapped solver, the oldest first. -/
  calls : List (Call α)
  /-- What happened, the oldest first. -/
  log : List (Source × Event α)

/-- All events of a finished search, the oldest first. -/
def Outcome.events (o : Outcome σ α) : List (Event α) := o.log.map Prod.snd

/-- The outcome of a state. -/
def State.outcome (s : State σ α) : Outcome σ α :=
  ⟨s.report, s.memory, s.calls.reverse, s.log.reverse⟩

/-- The state before the root is solved. -/
def State.initial (cfg : Config α) (memory : σ) (p : Problem α) : State σ α where
  frontier := Frontier.empty cfg.order
  report := ⟨Solution.infeasible p.numVariables, 0, 0, []⟩
  memory
  calls := []
  log := [(.search, .searchStarted cfg.epsilon (cfg.order == .depthFirst)
    p.integerVariables.length)]

/-- **One step**: a pending node is skipped, or solved and visited. `rest`
is the state without that node. -/
def step (solver : Solver σ α) (epsilon : α) (node : Node α) (rest : State σ α) :
    Option (State σ α) :=
  if node.bound ≤ rest.incumbent then
    some (rest.note (.skippingNode node.bound)).prune
  else
    (solver.run rest.memory node.problem).map fun reply =>
      (rest.record node.problem reply).visit epsilon node.problem reply.solution

/-- Takes pending nodes until none is left, at most `limit` of them. -/
def explore (solver : Solver σ α) (epsilon : α) :
    (limit : Nat) → State σ α → Option (State σ α)
  | limit, s =>
    match s.frontier.pop, limit with
    | none, _ => some s
    | some _, 0 => none
    | some (node, frontier), limit + 1 =>
      (step solver epsilon node { s with frontier }).bind (explore solver epsilon limit)

/-- The state with the last event. -/
def State.finish (s : State σ α) : State σ α :=
  s.note (.searchFinished s.incumbent s.report.nodesSolved s.report.nodesPruned)

/-- **The search.** -/
def search (solver : Solver σ α) (cfg : Config α) (limit : Nat) (memory : σ) (p : Problem α) :
    Option (Outcome σ α) := do
  let root ← solver.run memory p
  let solved := (State.initial cfg memory p).record p root
  if root.solution.isInfeasible then
    let ended := solved.note .rootInfeasible
    some { ended with report := { ended.report with solution := root.solution } }.outcome
  else
    let s ← explore solver cfg.epsilon limit (solved.visit cfg.epsilon p root.solution)
    some s.finish.outcome

/-- The search as a solver, with the memory of the solver that it wraps. -/
def solver (wrapped : Solver σ α) (cfg : Config α) (limit : Nat) : Solver σ α where
  run memory p := (search wrapped cfg limit memory p).map fun o =>
    ⟨o.report.solution, o.events, o.memory⟩

end Search

end Milp
