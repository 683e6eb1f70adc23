/-!
# Words and vectors

Matrices are stored in vectors, and their sizes are words of 64 bits. What a
vector or a word cannot do ends the run with a `Fault`: an index past the end,
a number that leaves its word, more elements than memory can hold.

A checked build ends at an overflow and at an assertion that does not hold. A
release build goes on with the number that is left of the overflow, and asserts
nothing.
-/

namespace Milp

namespace Storage

/-- The two ways to build a program. -/
inductive Build where
  /-- Overflows and assertions are checked. -/
  | checked
  /-- Overflows wrap around, and assertions are left out. -/
  | release
deriving DecidableEq, Repr

/-- What ends a run. -/
inductive Fault where
  /-- A number leaves its word. -/
  | overflow
  /-- There is no such element. -/
  | index
  /-- There is no such range of elements. -/
  | range
  /-- A vector is cut into pieces without elements. -/
  | emptyPiece
  /-- A vector has more elements than memory can hold. -/
  | capacity
  /-- An assertion does not hold. -/
  | assertion
deriving DecidableEq, Repr

/-- A run gives a result or ends with a fault. -/
abbrev Run (β : Type) := Except Fault β

/-- Goes on with what was not refused. -/
def andThen {ε β γ : Type} (r : Run (Except ε β)) (f : β → Run (Except ε γ)) : Run (Except ε γ) :=
  r >>= fun
    | .error e => pure (.error e)
    | .ok v => f v

/-- An assertion. -/
def assert (b : Build) (p : Prop) [Decidable p] : Run Unit :=
  if b = .release ∨ p then .ok () else .error .assertion

/-! ## Words -/

/-- Words are below this. -/
def wordSize : Nat := Nat.pow 2 64

/-- A sum or a product as a word. -/
def word (b : Build) (n : Nat) : Run Nat :=
  if n < wordSize then .ok n
  else match b with
    | .checked => .error .overflow
    | .release => .ok (n % wordSize)

/-- A difference of words as a word. -/
def difference (b : Build) (m n : Nat) : Run Nat :=
  if n ≤ m then .ok (m - n)
  else match b with
    | .checked => .error .overflow
    | .release => .ok (m + wordSize - n)

/-! ## Vectors -/

/-- A vector has at most so many elements of eight bytes: its bytes are counted
by the positive half of a word. -/
def capacity : Nat := (Nat.pow 2 63 - 1) / 8

variable {α : Type}

/-- Room for a number of elements. -/
def reserve (n : Nat) : Run Unit := if n ≤ capacity then .ok () else .error .capacity

/-- One element. -/
def read (data : List α) (i : Nat) : Run α :=
  match data[i]? with
  | some v => .ok v
  | none => .error .index

/-- The vector with one element replaced. -/
def write (data : List α) (i : Nat) (v : α) : Run (List α) :=
  if i < data.length then .ok (data.set i v) else .error .index

/-- The vector without one element. -/
def remove (data : List α) (i : Nat) : Run (List α) :=
  if i < data.length then .ok (data.eraseIdx i) else .error .index

/-- The elements from `start` on and before `stop`. -/
def slice (data : List α) (start stop : Nat) : Run (List α) :=
  if start ≤ stop ∧ stop ≤ data.length then .ok ((data.take stop).drop start)
  else .error .range

/-- The vector with elements added at its end. -/
def extend (data more : List α) : Run (List α) :=
  if data.length + more.length ≤ capacity then .ok (data ++ more) else .error .capacity

/-- The pieces of `size` elements, the last one as long as it gets. -/
def pieces (size : Nat) (data : List α) : List (List α) :=
  if _h : size = 0 ∨ data = [] then []
  else data.take size :: pieces size (data.drop size)
termination_by data.length
decreasing_by
  have := List.length_pos_iff.2 fun h => _h (.inr h)
  rw [List.length_drop]
  omega

/-- The vector in pieces. -/
def chunks (size : Nat) (data : List α) : Run (List (List α)) :=
  if size = 0 then .error .emptyPiece else .ok (pieces size data)

/-- The first element and then each that comes `size` places later. -/
def every (size : Nat) : List α → List α
  | [] => []
  | v :: rest => v :: every size (rest.drop (size - 1))
termination_by data => data.length
decreasing_by
  rw [List.length_drop, List.length_cons]
  omega

/-- The elements that come `size` places after one another. -/
def stepBy (size : Nat) (data : List α) : Run (List α) :=
  if size = 0 then .error .emptyPiece else .ok (every size data)

end Storage

end Milp
