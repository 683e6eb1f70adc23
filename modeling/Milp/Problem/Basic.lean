import Milp.Row
import Milp.Refusal
/-!
# Problems

A `Problem` is a mixed-integer linear program

    maximise    objective . x
    subject to  coefficients . x ≤ rhs   for every row
                x ≥ 0
                x j is an integer        for every flagged variable j

The sizes fit by construction: there is a variable and a row, every row has
one coefficient per variable, and there is one flag per variable. A problem
never changes; adding a row gives a new one.
-/

namespace Milp

/-- A mixed-integer linear program whose sizes fit. -/
structure Problem (α : Type) where
  /-- One coefficient per variable. -/
  objective : List α
  /-- The inequalities. -/
  rows : List (Row α)
  /-- One flag per variable: whether it has to be an integer. -/
  integer : List Bool
  /-- There is a variable. -/
  objective_ne_nil : objective ≠ []
  /-- There is a row. -/
  rows_ne_nil : rows ≠ []
  /-- Every row has one coefficient per variable. -/
  length_coefficients : ∀ r ∈ rows, r.coefficients.length = objective.length
  /-- There is one flag per variable. -/
  length_integer : integer.length = objective.length

namespace Problem

variable {α : Type}

/-- The number of variables. -/
def numVariables (p : Problem α) : Nat := p.objective.length

/-- The number of rows. -/
def numRows (p : Problem α) : Nat := p.rows.length

theorem numVariables_pos (p : Problem α) : 0 < p.numVariables :=
  List.length_pos_iff.2 p.objective_ne_nil

theorem numRows_pos (p : Problem α) : 0 < p.numRows :=
  List.length_pos_iff.2 p.rows_ne_nil

/-- The coefficients of all rows. -/
def coefficients (p : Problem α) : List (List α) := p.rows.map (·.coefficients)

/-- The right-hand sides of all rows. -/
def rhs (p : Problem α) : List α := p.rows.map (·.rhs)

/-! ## Integer variables -/

/-- Whether a variable has to be an integer. -/
def isInteger (p : Problem α) (j : Nat) : Bool := p.integer.getD j false

/-- The variables that have to be integers, in ascending order. -/
def integerVariables (p : Problem α) : List Nat :=
  (List.range p.numVariables).filter p.isInteger

/-- The refusal of a variable that does not exist. -/
def refuseVariable (p : Problem α) (j : Nat) : Refusal :=
  .variableIndex j (p.numVariables - 1)

/-- The problem with exactly the given integer variables. -/
def restrictTo (p : Problem α) (indices : List Nat) : Except Refusal (Problem α) :=
  match indices.find? (p.numVariables ≤ ·) with
  | some j => .error (p.refuseVariable j)
  | none => .ok { p with
      integer := (List.range p.numVariables).map indices.contains
      length_integer := by simp [numVariables] }

variable [Scalar α]

/-! ## Adding rows -/

/-- The problem with a row of the right length added. -/
def addRow (p : Problem α) (coefficients : List α) (rhs : α)
    (h : coefficients.length = p.numVariables) : Problem α :=
  { p with
    rows := Row.addTo p.rows coefficients rhs
    rows_ne_nil := Row.addTo_ne_nil _ _ _
    length_coefficients := by
      intro s hs
      rcases Row.coefficients_of_mem_addTo hs with ⟨r, hr, he⟩ | he
      · rw [he, p.length_coefficients r hr]
      · rw [he]
        exact h }

/-- The problem with a row added. -/
def withRow (p : Problem α) (coefficients : List α) (rhs : α) : Except Refusal (Problem α) :=
  if h : coefficients.length = p.numVariables then .ok (p.addRow coefficients rhs h)
  else .error (.constraintSize coefficients.length p.numVariables)

/-- The problem with a bound on one variable: `c * x j ≤ rhs`. -/
def bound (p : Problem α) (j : Nat) (c rhs : α) : Problem α :=
  p.addRow (Scalar.unitList p.numVariables j c) rhs (by simp)

/-- The problem with the bound `x j ≤ value`. -/
def atMost (p : Problem α) (j : Nat) (value : α) : Problem α := p.bound j 1 value

/-- The problem with the bound `x j ≥ value`, kept as `-x j ≤ -value`. -/
def atLeast (p : Problem α) (j : Nat) (value : α) : Problem α := p.bound j (-1) (-value)

/-- `atMost` for a variable that may not exist. -/
def withUpperBound (p : Problem α) (j : Nat) (value : α) : Except Refusal (Problem α) :=
  if j < p.numVariables then .ok (p.atMost j value) else .error (p.refuseVariable j)

/-- `atLeast` for a variable that may not exist. -/
def withLowerBound (p : Problem α) (j : Nat) (value : α) : Except Refusal (Problem α) :=
  if j < p.numVariables then .ok (p.atLeast j value) else .error (p.refuseVariable j)

/-! ## Points -/

/-- The objective at a point. -/
def evaluate (p : Problem α) (values : List α) : α := Scalar.sumProducts p.objective values

/-- Whether a point is non-negative and satisfies every row, both up to a
tolerance. -/
def isFeasible (p : Problem α) (values : List α) (tolerance : α) : Bool :=
  values.length == p.numVariables && !values.any (fun x => decide (x < -tolerance)) &&
    p.rows.all (·.admits values tolerance)

/-- Numeric equality of all entries, in the same shape. -/
instance : BEq (Problem α) :=
  ⟨fun p q => p.objective == q.objective && p.coefficients == q.coefficients &&
    p.rhs == q.rhs && p.integer == q.integer⟩

end Problem

end Milp
