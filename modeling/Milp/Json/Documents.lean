import Milp.Json.Message
import Milp.Problem.Draft
import Milp.Solution
import Milp.Number.Double
/-!
# Documents

The JSON forms of matrices, problems, solutions and statuses. A matrix is a
list of rows. A problem and a solution are records, and may be given as
lists of their fields in order. What is read is checked like any other data,
once the value has ended and before the text after it is looked at.
-/

namespace Milp

open Json

variable [NumberFormat]

/-! ## Matrices -/

namespace Matrix

/-- Reads a matrix. -/
def reader : Reader (Matrix Double) := fun ts => do
  let (rows, rest) ← Json.list (Json.list double) ts
  .ok (← accepted (ofRows rows), rest)

/-- The matrix that a text holds. -/
def ofJson : String → Except ReadError (Matrix Double) := whole reader

/-- A matrix as a value. -/
def toValue (m : Matrix Double) : Value := .list (m.rows.map Value.doubles)

/-- A matrix as text. -/
def toJson (m : Matrix Double) : String := m.toValue.compact

/-- A matrix for reading: each row between brackets on a line of its own. -/
def display (m : Matrix Double) : String :=
  let number (x : Double) := String.ofList (Decimal.plain.write x)
  let line (r : List Double) := "[" ++ String.intercalate ", " (r.map number) ++ "]"
  String.intercalate "\n" (m.rows.map line)

end Matrix

/-! ## Problems -/

namespace Draft

/-- What is wanted where a problem is read. -/
def wanted : Wanted := { name := "struct ProblemDef", size := 4 }

/-- The fields of a problem that have been read so far. -/
structure Partial where
  objective : Option (List Double) := none
  constraints : Option (List (List Double)) := none
  rhs : Option (List Double) := none
  integerVariables : Option (Option (List Nat)) := none

/-- What a field of a name does to a problem. -/
def field (d : Partial) : String → Except Misfit (Option (Reader Partial))
  | "objective" =>
    onceOnly "objective" d.objective (Json.list double) fun v => { d with objective := some v }
  | "constraints" =>
    onceOnly "constraints" d.constraints (Json.list (Json.list double))
      fun v => { d with constraints := some v }
  | "rhs" => onceOnly "rhs" d.rhs (Json.list double) fun v => { d with rhs := some v }
  | "integer_variables" =>
    onceOnly "integer_variables" d.integerVariables (optional (Json.list index))
      fun v => { d with integerVariables := some v }
  | _ => .ok none

/-- The problem, once all its fields have been read. -/
def Partial.complete (d : Partial) : Except ReadError (Draft Double) := do
  let objective ← required "objective" d.objective
  let constraints ← required "constraints" d.constraints
  let rhs ← required "rhs" d.rhs
  .ok ⟨objective, constraints, rhs, d.integerVariables.join⟩

/-- An element of the list form that has to be there. -/
def item {β : Type} (wanted : Wanted) (place : Nat) (reader : Reader β) : Reader β := fun ts => do
  match ← element (place == 0) reader ts with
  | (some v, rest) => .ok (v, rest)
  | (none, _) => .error (.unfit (.length place wanted))

/-- Reads the plain data of a problem. -/
def reader : Reader (Draft Double)
  | .openList :: ts => do
    let (objective, ts) ← item wanted 0 (Json.list double) ts
    let (constraints, ts) ← item wanted 1 (Json.list (Json.list double)) ts
    let (rhs, ts) ← item wanted 2 (Json.list double) ts
    let (integer, ts) ← element false (optional (Json.list index)) ts
    .ok (⟨objective, constraints, rhs, integer.join⟩, ← closing ts)
  | .openRecord :: ts => do
    let (d, ts) ← fields field (ts.length + 1) true {} ts
    .ok (← d.complete, ts)
  | ts => .error (mismatch wanted ts)

/-- The plain data of a problem as a value. -/
def toValue (d : Draft Double) : Value :=
  .record ([("objective", Value.doubles d.objective),
    ("constraints", .list (d.constraints.map Value.doubles)),
    ("rhs", Value.doubles d.rhs)] ++
    match d.integerVariables with
    | none => []
    | some indices => [("integer_variables", .list (indices.map .natural))])

end Draft

namespace Problem

/-- Reads a problem. -/
def reader : Reader (Problem Double) := fun ts => do
  let (d, rest) ← Draft.reader ts
  .ok (← accepted (ofDraft d), rest)

/-- The problem that a text holds. -/
def ofJson : String → Except ReadError (Problem Double) := whole reader

/-- A problem as text. -/
def toJson (p : Problem Double) : String := p.toDraft.toValue.compact

end Problem

/-! ## Solutions -/

namespace Solution

/-- What is wanted where a solution is read. -/
def wanted : Wanted := { name := "struct Solution", size := 2 }

/-- The fields of a solution that have been read so far. -/
structure Partial where
  objective : Option Double := none
  values : Option (List Double) := none

/-- What a field of a name does to a solution. -/
def field (s : Partial) : String → Except Misfit (Option (Reader Partial))
  | "objective_value" =>
    onceOnly "objective_value" s.objective double fun v => { s with objective := some v }
  | "values" => onceOnly "values" s.values (Json.list double) fun v => { s with values := some v }
  | _ => .ok none

/-- A solution whose objective is given as a double. -/
def ofDouble (objective : Double) (values : List Double) : Solution Double :=
  ⟨Scalar.level objective, values⟩

/-- The solution, once all its fields have been read. -/
def Partial.complete (s : Partial) : Except ReadError (Solution Double) := do
  let objective ← required "objective_value" s.objective
  let values ← required "values" s.values
  .ok (ofDouble objective values)

/-- Reads a solution. -/
def reader : Reader (Solution Double)
  | .openList :: ts => do
    let (objective, ts) ← Draft.item wanted 0 double ts
    let (values, ts) ← Draft.item wanted 1 (Json.list double) ts
    .ok (ofDouble objective values, ← closing ts)
  | .openRecord :: ts => do
    let (s, ts) ← fields field (ts.length + 1) true {} ts
    .ok (← s.complete, ts)
  | ts => .error (mismatch wanted ts)

/-- The solution that a text holds. -/
def ofJson : String → Except ReadError (Solution Double) := whole reader

/-- The objective as a double. -/
def objectiveDouble (s : Solution Double) : Double := Double.ofLevel s.objective

/-- A solution as text. -/
def toJson (s : Solution Double) : String :=
  (Value.record [("objective_value", .double s.objectiveDouble),
    ("values", Value.doubles s.values)]).compact

end Solution

/-! ## Statuses -/

namespace Status

/-- The status of a name. -/
def ofName (name : String) : Except ReadError Status :=
  match all.find? (·.name == name) with
  | some s => .ok s
  | none => .error (.unfit (.variant name (all.map Status.name)))

/-- What is wanted in a record beside the name of a status. -/
def wantedNothing : Wanted := { name := "unit" }

/-- The closing bracket of a record. -/
def closingRecord : List Token → Except ReadError (List Token)
  | .closeRecord :: rest => .ok rest
  | ts => .error (unexpected ts)

/-- Reads a status: its name, or a record with null under its name. As in any
record, what stands for the name has to be a string. -/
def reader : Reader Status
  | .text (.ok s) :: ts => (ofName s).map fun v => (v, ts)
  | .text (.error f) :: _ => .error (.ofFault f)
  | .openRecord :: .text (.ok s) :: ts => do
    let v ← ofName s
    match ← colon ts with
    | .word (.ok .null) :: ts => .ok (v, ← closingRecord ts)
    | ts => .error (mismatch wantedNothing ts)
  | .openRecord :: .text (.error f) :: _ => .error (.ofFault f)
  | .openRecord :: ts => .error (unexpected ts)
  | ts => .error (unexpected ts)

/-- The status that a text holds. -/
def ofJson : String → Except ReadError Status := whole reader

end Status

end Milp
