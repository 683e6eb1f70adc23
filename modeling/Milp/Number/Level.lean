/-!
# Objective levels

The objective of a maximisation problem can be a number, can be missing
because nothing is feasible, or can grow without end. A `Level` is one of
the three: `bottom` for the infeasible outcome, `number` for a value and
`top` for the unbounded outcome. The order of levels is defined beside the
numbers, in `Milp.Number.Scalar`.
-/

namespace Milp

/-- What an objective can come to: nothing feasible, a number, or no bound. -/
inductive Level (α : Type) where
  /-- Below every number: nothing is feasible. -/
  | bottom
  /-- A value of the objective. -/
  | number (value : α)
  /-- Above every number: the objective grows without end. -/
  | top
deriving Repr

namespace Level

variable {α β : Type}

/-- Whether nothing is feasible. -/
def isBottom : Level α → Bool
  | bottom => true
  | _ => false

/-- Whether the objective grows without end. -/
def isTop : Level α → Bool
  | top => true
  | _ => false

/-- The number of a level that is one. -/
def number? : Level α → Option α
  | number v => some v
  | _ => none

/-- A level with its number replaced. -/
def map (f : α → β) : Level α → Level β
  | bottom => bottom
  | number v => number (f v)
  | top => top

/-- The order of levels that extends an order of numbers. -/
def orderBy (order : α → α → Ordering) : Level α → Level α → Ordering
  | bottom, bottom => .eq
  | bottom, _ => .lt
  | _, bottom => .gt
  | number v, number w => order v w
  | number _, top => .lt
  | top, number _ => .gt
  | top, top => .eq

@[simp] theorem isBottom_bottom : (bottom : Level α).isBottom = true := rfl
@[simp] theorem isBottom_number (v : α) : (number v).isBottom = false := rfl
@[simp] theorem isBottom_top : (top : Level α).isBottom = false := rfl

/-- Only the lowest level is infeasible. -/
theorem isBottom_iff {a : Level α} : a.isBottom = true ↔ a = bottom := by
  cases a <;> simp

end Level

end Milp
