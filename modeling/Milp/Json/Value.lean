import Milp.Json.Number
/-!
# Writing JSON

A value of what is written, and its two written forms: on one line without
blanks, and over several lines with an indent. Doubles are written in the
format that is given. The texts that are written are names, in which no
character needs an escape.
-/

namespace Milp

namespace Json

/-- What is written. -/
inductive Value where
  | null
  | natural (n : Nat)
  | double (x : Double)
  | text (s : String)
  | list (items : List Value)
  | record (fields : List (String × Value))

/-- A name between quotes. -/
def quoted (s : String) : List Char := '"' :: s.toList ++ ['"']

namespace Value

/-- A list of doubles. -/
def doubles (xs : List Double) : Value := .list (xs.map .double)

/-- The characters that separate the parts of a list or a record. -/
structure Spacing where
  /-- After an opening bracket and after a comma, at a depth. -/
  line : Nat → List Char
  /-- After a colon. -/
  afterColon : List Char

/-- No blanks at all. -/
def Spacing.none : Spacing := ⟨fun _ => [], []⟩

/-- A line for each part, indented by two blanks for each level. -/
def Spacing.indented : Spacing := ⟨fun depth => '\n' :: List.replicate (2 * depth) ' ', [' ']⟩

/-- The parts of a list or a record between its brackets. -/
def bracket (sp : Spacing) (depth : Nat) (left right : Char) : List (List Char) → List Char
  | [] => [left, right]
  | first :: rest =>
    left :: sp.line (depth + 1) ++ first ++
      rest.flatMap (fun part => ',' :: sp.line (depth + 1) ++ part) ++
      sp.line depth ++ [right]

variable [F : NumberFormat]

mutual

/-- A value with the given spacing, inside `depth` brackets. -/
def write (sp : Spacing) (depth : Nat) : Value → List Char
  | null => nullChars
  | natural n => Decimal.naturalChars n
  | double x => F.write x
  | text s => quoted s
  | list items => bracket sp depth '[' ']' (writeItems sp (depth + 1) items)
  | record fields => bracket sp depth '{' '}' (writeFields sp (depth + 1) fields)

/-- The values of a list, one by one. -/
def writeItems (sp : Spacing) (depth : Nat) : List Value → List (List Char)
  | [] => []
  | v :: rest => v.write sp depth :: writeItems sp depth rest

/-- The fields of a record, one by one. -/
def writeFields (sp : Spacing) (depth : Nat) : List (String × Value) → List (List Char)
  | [] => []
  | (name, v) :: rest =>
    (quoted name ++ ':' :: sp.afterColon ++ v.write sp depth) :: writeFields sp depth rest

end

/-- A value on one line. -/
def compact (v : Value) : String := String.ofList (v.write .none 0)

/-- A value over several lines. -/
def indented (v : Value) : String := String.ofList (v.write .indented 0)

end Value

end Json

end Milp
