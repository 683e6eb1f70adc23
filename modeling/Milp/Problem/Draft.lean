import Milp.Matrix.Arithmetic
import Milp.Problem.Basic
/-!
# Drafts of problems

A problem is made from three matrices, or from a `Draft`, its plain data.
Both ways check the same sizes, so that what they give is a `Problem`.
A problem has one draft, `Problem.toDraft`, in which the integer variables
are listed only when some variable is not one.
-/

namespace Milp

/-- The plain data of a problem. -/
structure Draft (α : Type) where
  /-- One coefficient per variable. -/
  objective : List α
  /-- The coefficients of each row. -/
  constraints : List (List α)
  /-- One right-hand side per row. -/
  rhs : List α
  /-- The integer variables; all of them when the list is missing. -/
  integerVariables : Option (List Nat) := none
deriving Repr

namespace Row

variable {α : Type}

/-- The rows with the given lists of coefficients and right-hand sides. -/
def ofLists (coefficients : List (List α)) (rhs : List α) : List (Row α) :=
  List.zipWith mk coefficients rhs

/-- There is a row for each list of coefficients. -/
theorem length_ofLists {coefficients : List (List α)} {rhs : List α}
    (h : rhs.length = coefficients.length) :
    (ofLists coefficients rhs).length = coefficients.length := by
  rw [ofLists, List.length_zipWith, h, Nat.min_self]

/-- The coefficients of a row are among the given ones. -/
theorem coefficients_of_mem_ofLists {coefficients : List (List α)} {rhs : List α} {r : Row α}
    (hr : r ∈ ofLists coefficients rhs) : r.coefficients ∈ coefficients := by
  obtain ⟨i, hi, rfl⟩ := List.mem_iff_getElem.1 hr
  unfold ofLists at hi
  rw [List.length_zipWith] at hi
  unfold ofLists
  rw [List.getElem_zipWith]
  exact List.getElem_mem _

end Row

namespace Problem

variable {α : Type} [Scalar α]

/-- The problem with all variables integer that three matrices describe. The
objective has one row, the constraints have one column per variable, and the
right-hand side is a vector with one entry per row of the constraints. -/
def ofMatrices (objective constraints rhs : Matrix α) : Except Refusal (Problem α) :=
  if objective.height ≠ 1 then .error (.objectiveShape objective.height objective.cols)
  else if hc : constraints.cols ≠ objective.cols then
    .error (.constraintWidth constraints.cols objective.cols)
  else if ¬ rhs.isVector then .error (.boundsShape rhs.height rhs.cols)
  else if hb : rhs.rows.flatten.length ≠ constraints.height then
    .error (.boundsSize rhs.rows.flatten.length constraints.height)
  else
    let first := objective.rows.head objective.rows_ne_nil
    have hfirst : first.length = objective.cols :=
      objective.length_of_mem _ (List.head_mem objective.rows_ne_nil)
    .ok {
      objective := first
      rows := Row.ofLists constraints.rows rhs.rows.flatten
      integer := List.replicate first.length true
      objective_ne_nil := List.ne_nil_of_length_pos (hfirst ▸ objective.cols_pos)
      rows_ne_nil := List.ne_nil_of_length_pos (by
        rw [Row.length_ofLists (Decidable.not_not.1 hb)]
        exact constraints.height_pos)
      length_coefficients := fun _ hr =>
        (constraints.length_of_mem _ (Row.coefficients_of_mem_ofLists hr)).trans
          ((Decidable.not_not.1 hc).trans hfirst.symm)
      length_integer := List.length_replicate }

/-- The problem that a draft describes. -/
def ofDraft (d : Draft α) : Except Refusal (Problem α) := do
  let objective ← Matrix.ofVector d.objective
  let constraints ← Matrix.ofRows d.constraints
  let rhs ← Matrix.ofVector d.rhs
  let p ← ofMatrices objective constraints rhs
  match d.integerVariables with
  | none => pure p
  | some indices => p.restrictTo indices

/-- The draft of a problem. -/
def toDraft (p : Problem α) : Draft α where
  objective := p.objective
  constraints := p.coefficients
  rhs := p.rhs
  integerVariables := if p.integer.all id then none else some p.integerVariables

end Problem

end Milp
