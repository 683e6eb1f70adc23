import Milp.Problem.Basic
import Milp.Solution
/-!
# Branching

Which variable a node is split at, and into which two problems. Among the
integer variables whose values are not integral up to a tolerance, the one
closest to a half is taken, the first of them when there are several. The
two problems bound it by the floor of its value from above and by the
ceiling from below.
-/

namespace Milp

namespace Search

variable {α : Type} [Scalar α]

/-- Whether a value is an integer up to a tolerance. -/
def isIntegral (epsilon v : α) : Bool := decide (Scalar.abs (v - Scalar.round v) ≤ epsilon)

/-- How far the fractional part of a value is from a half. -/
def distanceToHalf (v : α) : α := Scalar.abs (v - Scalar.floor v - Scalar.half)

/-- An integer variable whose value is not integral. -/
structure Fractional (α : Type) where
  /-- The variable. -/
  index : Nat
  /-- Its value. -/
  value : α
deriving Repr

/-- Whether the `j`-th value has to be an integer and is none. -/
def isFractional (p : Problem α) (epsilon : α) (j : Nat) (v : α) : Bool :=
  p.isInteger j && !isIntegral epsilon v

/-- The fractional variable closest to a half among the values from the
`j`-th on and the one that the values before have left. -/
def mostFractional (p : Problem α) (epsilon : α) :
    (j : Nat) → Option (Fractional α) → List α → Option (Fractional α)
  | _, best, [] => best
  | j, best, v :: rest =>
    if isFractional p epsilon j v then
      match best with
      | none => mostFractional p epsilon (j + 1) (some ⟨j, v⟩) rest
      | some b =>
        mostFractional p epsilon (j + 1)
          (some (if distanceToHalf v < distanceToHalf b.value then ⟨j, v⟩ else b)) rest
    else mostFractional p epsilon (j + 1) best rest

/-- The variable to branch on, with its value. -/
def branching (p : Problem α) (epsilon : α) (values : List α) : Option (Fractional α) :=
  mostFractional p epsilon 0 none values

/-- The variable to branch on. -/
def branchingVariable (p : Problem α) (epsilon : α) (values : List α) : Option Nat :=
  (branching p epsilon values).map (·.index)

/-- The problem with the variable at most the floor of its value. -/
def floorChild (p : Problem α) (f : Fractional α) : Problem α :=
  p.atMost f.index (Scalar.floor f.value)

/-- The problem with the variable at least the ceiling of its value. -/
def ceilChild (p : Problem α) (f : Fractional α) : Problem α :=
  p.atLeast f.index (Scalar.ceil f.value)

/-- What becomes of a solved node. -/
inductive Verdict (α : Type) where
  /-- It cannot hold a solution better than the incumbent. -/
  | prune
  /-- Its answer is the new incumbent. -/
  | accept
  /-- It is split at a variable. -/
  | branch (split : Fractional α)
deriving Repr

/-- **The verdict on a solved node**, given the level of the incumbent. -/
def judge (epsilon : α) (incumbent : Level α) (p : Problem α) (answer : Solution α) :
    Verdict α :=
  if answer.isInfeasible || decide (answer.objective ≤ incumbent) then .prune
  else match branching p epsilon answer.values with
    | none => .accept
    | some f => .branch f

end Search

end Milp
