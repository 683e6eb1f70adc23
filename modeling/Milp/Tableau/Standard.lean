import Milp.Problem.Basic
import Milp.Tableau.Basic
/-!
# Standard form

The equations of a problem: each row gets a slack variable. A row with a
negative right-hand side is negated, which turns its slack into a surplus
that cannot be basic, and gets an artificial variable as well.
-/

namespace Milp

namespace Tableau

variable {α : Type} [Scalar α]

/-- Whether a row has to be negated. -/
def isFlipped (r : Row α) : Bool := decide (r.rhs < 0)

/-- The equations of the rows from the `i`-th on, of `m` rows and `k`
flipped ones over `n` variables, where `a` rows before were flipped. -/
def equations (n m k : Nat) : (i a : Nat) → List (Row α) → List (BasicRow α)
  | _, _, [] => []
  | i, a, r :: rest =>
    if isFlipped r then
      { coefficients := r.coefficients.map (-1 * ·) ++ Scalar.unitList m i (-1) ++
          Scalar.unitList k a 1
        rhs := -1 * r.rhs
        basic := n + m + a } :: equations n m k (i + 1) (a + 1) rest
    else
      { coefficients := r.coefficients.map (1 * ·) ++ Scalar.unitList m i 1 ++
          List.replicate k 0
        rhs := 1 * r.rhs
        basic := n + i } :: equations n m k (i + 1) a rest

/-- The tableau that a problem starts from. Its objective row is empty until
a phase sets it. -/
def ofProblem (p : Problem α) : Tableau α :=
  let n := p.numVariables
  let m := p.numRows
  let k := (p.rows.filter isFlipped).length
  { rows := equations n m k 0 0 p.rows
    objective := ⟨List.replicate (n + m + k) 0, 0⟩
    structural := n + m
    artificials := k }

end Tableau

end Milp
