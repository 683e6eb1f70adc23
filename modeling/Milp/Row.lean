import Milp.Number.Scalar
/-!
# Rows

A row is a list of coefficients with a right-hand side. A problem reads it
as an inequality and a simplex tableau as an equation.
-/

namespace Milp

/-- Coefficients, one per variable, and a right-hand side. -/
structure Row (α : Type) where
  /-- One coefficient per variable. -/
  coefficients : List α
  /-- The right-hand side. -/
  rhs : α
deriving Repr

namespace Row

variable {α : Type} [Scalar α]

/-- The left-hand side at a point. -/
def lhs (r : Row α) (values : List α) : α := Scalar.sumProducts r.coefficients values

/-- Whether a point satisfies the row as an inequality, up to a tolerance. -/
def admits (r : Row α) (values : List α) (tolerance : α) : Bool :=
  decide (r.lhs values ≤ r.rhs + tolerance)

/-- **A row is added to a list of rows.** Where its coefficients are already
there, the first such row takes the lesser right-hand side; otherwise the
row goes to the end. -/
def addTo : List (Row α) → List α → α → List (Row α)
  | [], coefficients, rhs => [⟨coefficients, rhs⟩]
  | r :: rest, coefficients, rhs =>
    if Scalar.sameList r.coefficients coefficients then
      { r with rhs := Scalar.lesser r.rhs rhs } :: rest
    else r :: addTo rest coefficients rhs

/-- After an addition there is a row. -/
theorem addTo_ne_nil (rows : List (Row α)) (coefficients : List α) (rhs : α) :
    addTo rows coefficients rhs ≠ [] := by
  cases rows with
  | nil => simp [addTo]
  | cons r rest =>
    simp only [addTo]
    split <;> simp

/-- The coefficients after an addition are those before it, or the new ones. -/
theorem coefficients_of_mem_addTo {s : Row α} {coefficients : List α} {rhs : α} :
    ∀ {rows : List (Row α)}, s ∈ addTo rows coefficients rhs →
      (∃ r ∈ rows, s.coefficients = r.coefficients) ∨ s.coefficients = coefficients
  | [], h => by
    simp only [addTo, List.mem_singleton] at h
    exact .inr (h ▸ rfl)
  | r :: rest, h => by
    simp only [addTo] at h
    split at h
    · rcases List.mem_cons.1 h with rfl | h
      · exact .inl ⟨r, List.mem_cons_self, rfl⟩
      · exact .inl ⟨s, List.mem_cons_of_mem _ h, rfl⟩
    · rcases List.mem_cons.1 h with rfl | h
      · exact .inl ⟨s, List.mem_cons_self, rfl⟩
      · rcases coefficients_of_mem_addTo h with ⟨t, ht, he⟩ | he
        · exact .inl ⟨t, List.mem_cons_of_mem _ ht, he⟩
        · exact .inr he

end Row

end Milp
