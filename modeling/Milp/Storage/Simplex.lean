import Milp.Storage.Tableau
/-!
# The simplex method on stored tableaus

The two phases as they go by indices. What they find and report is what
`Simplex.solve` says, as far as no index is out of range; the moves, their rules
and the events are taken from there.
-/

namespace Milp

open Storage

namespace StoredTableau

variable {α : Type} [Scalar α] (b : Build) (cfg : Simplex.Config α)

/-- The end of a sequence of pivots. -/
structure Optimized (α : Type) where
  /-- How it ended. -/
  ending : Simplex.Ending
  /-- The last tableau. -/
  tableau : StoredTableau α
  /-- What happened, the oldest first. -/
  events : List (Event α)

/-- One turn of pivoting after some pivots. `next` is what follows if there is a
pivot to be made. -/
def turn (pivots : Nat) (t : StoredTableau α)
    (next : (row col : Nat) → Run (Option (Optimized α))) : Run (Option (Optimized α)) := do
  let m ← t.move b cfg.tolerance (Simplex.ruleAfter cfg pivots)
  let events := Simplex.moveEvents cfg pivots m
  match m with
  | .stop => pure (some ⟨.optimal, t, events⟩)
  | .unbounded _ => pure (some ⟨.unbounded, t, events⟩)
  | .pivot row col => do
    let o? ← next row col
    pure (o?.map fun o => { o with events := events ++ o.events })

/-- Pivoting to the end, with at most `limit` more pivots. -/
def optimize : (limit pivots : Nat) → StoredTableau α → Run (Option (Optimized α))
  | 0, pivots, t => turn b cfg pivots t fun _ _ => pure none
  | limit + 1, pivots, t => turn b cfg pivots t fun row col => do
    let t ← t.pivot row col
    optimize limit (pivots + 1) t

/-- The end of the first phase: the tableau for the second, if there is one. -/
structure Feasible (α : Type) where
  /-- The tableau, or nothing where the problem is infeasible. -/
  tableau? : Option (StoredTableau α)
  /-- What happened, the oldest first. -/
  events : List (Event α)

/-- What follows the pivots of the first phase. The corner is where it was before
them, in the row `last` and the last of `cols` columns. -/
def concludeFirst (last cols : Nat) (o : Optimized α) : Run (Feasible α) :=
  match o.ending with
  | .unbounded => pure ⟨none, o.events⟩
  | .optimal => do
    let col ← difference b cols 1
    let corner ← readEntry o.tableau.data last col
    if cfg.tolerance < -corner then
      pure ⟨none, o.events ++ [.artificialsRemain (-corner)]⟩
    else do
      let (t, redundant) ← o.tableau.driveOut b cfg.tolerance
      let t ← redundant.foldlM removeRow t
      let t ← t.dropArtificials b
      pure ⟨some t, o.events ++ redundant.map .droppingRow⟩

/-- The first phase. -/
def firstPhase (limit : Nat) (t : StoredTableau α) : Run (Option (Feasible α)) := do
  let last ← t.objectiveRow b
  let cols ← t.width
  let t ← t.priceArtificials b
  match ← optimize b cfg limit 0 t with
  | none => pure none
  | some o => do
    let first ← concludeFirst b cfg last cols o
    pure (some first)

/-- The tableau that the second phase starts from, through the first phase if
there are artificial variables. -/
def feasibleTableau (limit : Nat) (t : StoredTableau α) : Run (Option (Feasible α)) :=
  if t.numArtificials = 0 then pure (some ⟨some t, []⟩) else t.firstPhase b cfg limit

/-- The second phase. -/
def secondPhase (limit : Nat) (objective : List α) (t : StoredTableau α) :
    Run (Option (Optimized α)) := do
  let t ← t.priceObjective b objective
  optimize b cfg limit 0 t

/-- The solution at the end of the second phase. -/
def extract (n : Nat) (o : Optimized α) : Run (Solution α) :=
  match o.ending with
  | .optimal => do
    let corner ← o.tableau.corner b
    let values ← o.tableau.basicValues b cfg.tolerance n
    pure ⟨Scalar.level corner, values⟩
  | .unbounded => do
    let values ← o.tableau.basicValues b cfg.tolerance n
    pure ⟨.top, values⟩

end StoredTableau

namespace StoredProblem

variable {α : Type} [Scalar α] (b : Build) (cfg : Simplex.Config α)

/-- The two-phase simplex method on the continuous relaxation of a problem, with
at most `limit` pivots in each phase. -/
def solve (limit : Nat) (p : StoredProblem α) : Run (Option (Simplex.Run α)) := do
  let n := p.numVariables
  let start ← StoredTableau.build b p
  let announced : Event α :=
    .solvingRelaxation n p.constraints.rows start.numArtificials
  match ← start.feasibleTableau b cfg limit with
  | none => pure none
  | some first =>
    match first.tableau? with
    | none => do
      reserve n
      pure (some ⟨Solution.infeasible n, announced :: first.events⟩)
    | some t =>
      match ← t.secondPhase b cfg limit p.objective.data with
      | none => pure none
      | some second => do
        let solution ← StoredTableau.extract b cfg n second
        pure (some ⟨solution, announced :: first.events ++ second.events⟩)

end StoredProblem

end Milp
