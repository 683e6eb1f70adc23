import Milp.Solution
import Milp.Solver
import Milp.Simplex.Optimize
import Milp.Tableau.Standard
/-!
# The two-phase simplex method

The first phase maximises minus the sum of the artificial variables. Where
that comes to less than zero the problem is infeasible. Otherwise the
artificial variables are driven out of the basis and their columns dropped,
and the second phase maximises the objective of the problem.
-/

namespace Milp

namespace Simplex

variable {α : Type} [Scalar α]

/-! ## The first phase -/

/-- The tableau with the objective of the first phase, in terms of the
variables that are not basic. -/
def priceArtificials (t : Tableau α) : Tableau α :=
  let objective : Row α :=
    ⟨List.replicate t.structural 0 ++ List.replicate t.artificials 1, 0⟩
  { t with
    objective := t.rows.foldl
      (fun z r => if t.structural ≤ r.basic then z.minus r.toRow else z) objective }

/-- A column that can take the place of an artificial variable in a row. -/
def replacement? (tolerance : α) (t : Tableau α) (row : Nat) : Option Nat :=
  (List.range t.structural).find? fun j => decide (tolerance < Scalar.abs (t.entry row j))

/-- Drives artificial variables out of the given rows. Gives the tableau and
the rows, the last first, in which no column can take their place. -/
def driveOut (tolerance : α) (t : Tableau α) (rows : List Nat) : Tableau α × List Nat :=
  rows.foldl (fun (t, redundant) i =>
    if (t.basis[i]?.getD 0) < t.structural then (t, redundant)
    else match replacement? tolerance t i with
      | some col => (t.pivot i col, redundant)
      | none => (t, i :: redundant)) (t, [])

/-- The tableau without the given rows, the last of which comes first. -/
def dropRows (t : Tableau α) (rows : List Nat) : Tableau α :=
  { t with rows := rows.foldl List.eraseIdx t.rows }

/-- The tableau without the columns of the artificial variables. -/
def dropArtificials (t : Tableau α) : Tableau α :=
  { t with
    rows := t.rows.map fun r => ⟨r.toRow.take t.structural, r.basic⟩
    objective := t.objective.take t.structural
    artificials := 0 }

/-- The end of the first phase: the tableau for the second, if there is one. -/
structure Feasible (α : Type) where
  /-- The tableau, or nothing where the problem is infeasible. -/
  tableau? : Option (Tableau α)
  /-- What happened, the oldest first. -/
  events : List (Event α)

/-- What follows the pivots of the first phase. -/
def concludeFirst (tolerance : α) (o : Optimized α) : Feasible α :=
  match o.ending with
  | .unbounded => ⟨none, o.events⟩
  | .optimal =>
    let infeasibility := -o.tableau.corner
    if tolerance < infeasibility then
      ⟨none, o.events ++ [.artificialsRemain infeasibility]⟩
    else
      let (t, redundant) := driveOut tolerance o.tableau (List.range o.tableau.rows.length)
      ⟨some (dropArtificials (dropRows t redundant)),
        o.events ++ redundant.map .droppingRow⟩

/-- **The first phase.** -/
def firstPhase (cfg : Config α) (limit : Nat) (t : Tableau α) : Option (Feasible α) :=
  (optimize cfg limit 0 (priceArtificials t)).map (concludeFirst cfg.tolerance)

/-! ## The second phase -/

/-- The tableau with the objective of a problem, in terms of the variables
that are not basic. -/
def priceObjective (t : Tableau α) (objective : List α) : Tableau α :=
  let start : Row α :=
    ⟨objective.map (- ·) ++ List.replicate (t.width - objective.length) 0, 0⟩
  { t with
    objective := t.rows.foldl
      (fun z r => z.eliminate r.basic r.toRow) start }

/-- Values that count as zero are zero. -/
def snap (tolerance v : α) : α := if Scalar.abs v ≤ tolerance then 0 else v

/-- The values of the first `n` variables at the basis of a tableau. -/
def basicValues (tolerance : α) (t : Tableau α) (n : Nat) : List α :=
  t.rows.foldl
    (fun values r => if r.basic < n then values.set r.basic (snap tolerance r.rhs) else values)
    (List.replicate n 0)

/-- The solution at the end of the second phase. Where the objective grows
without end the values are the point from which it does. -/
def extract (tolerance : α) (n : Nat) (o : Optimized α) : Solution α :=
  let values := basicValues tolerance o.tableau n
  match o.ending with
  | .optimal => ⟨Scalar.level o.tableau.corner, values⟩
  | .unbounded => ⟨.top, values⟩

/-- **The second phase.** -/
def secondPhase (cfg : Config α) (limit : Nat) (objective : List α) (t : Tableau α) :
    Option (Optimized α) :=
  optimize cfg limit 0 (priceObjective t objective)

/-! ## The method -/

/-- A solution with what happened on the way. -/
structure Run (α : Type) where
  /-- The solution. -/
  solution : Solution α
  /-- What happened, the oldest first. -/
  events : List (Event α)

/-- The tableau that the second phase starts from, through the first phase
if there are artificial variables. -/
def feasibleTableau (cfg : Config α) (limit : Nat) (t : Tableau α) : Option (Feasible α) :=
  if t.artificials = 0 then some ⟨some t, []⟩ else firstPhase cfg limit t

/-- **The two-phase simplex method** on the continuous relaxation of a
problem, with at most `limit` pivots in each phase. -/
def solve (cfg : Config α) (limit : Nat) (p : Problem α) : Option (Run α) := do
  let n := p.numVariables
  let start := Tableau.ofProblem p
  let announced : Event α := .solvingRelaxation n p.numRows start.artificials
  let first ← feasibleTableau cfg limit start
  match first.tableau? with
  | none => some ⟨Solution.infeasible n, announced :: first.events⟩
  | some t =>
    let second ← secondPhase cfg limit p.objective t
    some ⟨extract cfg.tolerance n second, announced :: first.events ++ second.events⟩

/-- The simplex method as a solver, which needs no memory of its own and
keeps the one it is given. -/
def solver {σ : Type} (cfg : Config α) (limit : Nat) : Solver σ α where
  run memory p := (solve cfg limit p).map fun r => ⟨r.solution, r.events, memory⟩

end Simplex

end Milp
