import Milp.Row
/-!
# Tableaus

A tableau is a system of equations with a basic variable for each, and an
objective row. The columns stand for the decision variables, then the slack
variables, then the artificial variables; the right-hand sides are kept
apart.

A pivot divides one row by an entry and subtracts multiples of it from all
other rows, so that the column of that entry becomes a unit column.
-/

namespace Milp

/-- An equation with its basic variable. -/
structure BasicRow (α : Type) extends Row α where
  /-- The column of the basic variable. -/
  basic : Nat
deriving Repr

/-- A simplex tableau. -/
structure Tableau (α : Type) where
  /-- The equations. -/
  rows : List (BasicRow α)
  /-- The objective as an equation; its right-hand side is the corner. -/
  objective : Row α
  /-- The number of decision and slack variables. -/
  structural : Nat
  /-- The number of artificial variables. -/
  artificials : Nat
deriving Repr

namespace Row

variable {α : Type} [Scalar α]

/-- The coefficient in a column. -/
def entry (r : Row α) (col : Nat) : α := r.coefficients.getD col 0

/-- The row divided by a scalar. -/
def divide (r : Row α) (c : α) : Row α := ⟨r.coefficients.map (· / c), r.rhs / c⟩

/-- The row minus another one. -/
def minus (r s : Row α) : Row α :=
  ⟨List.zipWith (· - ·) r.coefficients s.coefficients, r.rhs - s.rhs⟩

/-- The row minus `c` times another one. -/
def minusTimes (r : Row α) (c : α) (s : Row α) : Row α :=
  ⟨List.zipWith (fun a b => a - c * b) r.coefficients s.coefficients, r.rhs - c * s.rhs⟩

/-- **Elimination**: the row minus the multiple of another row, which has a
one in the column, that makes its entry there zero. A row whose entry is
zero stays as it is. -/
def eliminate (r : Row α) (col : Nat) (s : Row α) : Row α :=
  if r.entry col == 0 then r else r.minusTimes (r.entry col) s

/-- The row with only its first coefficients. -/
def take (r : Row α) (n : Nat) : Row α := { r with coefficients := r.coefficients.take n }

end Row

namespace Tableau

variable {α : Type} [Scalar α]

/-- The number of columns, the right-hand sides apart. -/
def width (t : Tableau α) : Nat := t.structural + t.artificials

/-- The basic columns, from the first row to the last. -/
def basis (t : Tableau α) : List Nat := t.rows.map (·.basic)

/-- The value of the objective. -/
def corner (t : Tableau α) : α := t.objective.rhs

/-- The entry of an equation in a column. -/
def entry (t : Tableau α) (row col : Nat) : α :=
  match t.rows[row]? with
  | some r => r.entry col
  | none => 0

/-- **A pivot.** The row is divided by its entry in the column, which
becomes its basic column, and the column is eliminated from all other rows
and from the objective. -/
def pivot (t : Tableau α) (row col : Nat) : Tableau α :=
  match t.rows[row]? with
  | none => t
  | some r =>
    let pivotRow := r.toRow.divide (r.entry col)
    { t with
      rows := t.rows.mapIdx fun i s =>
        if i = row then ⟨pivotRow, col⟩ else ⟨s.toRow.eliminate col pivotRow, s.basic⟩
      objective := t.objective.eliminate col pivotRow }

end Tableau

end Milp
