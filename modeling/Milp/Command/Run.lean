import Milp.Command.Files
import Milp.Command.Usage
import Milp.Json.Documents
import Milp.Method
/-!
# Running the command

What the command writes and how it exits. The command reads at most one
file, whose contents are given here, so that everything but the reading is a
function.
-/

namespace Milp

namespace Command

variable [Json.NumberFormat]

/-- What the command writes and how it exits. -/
structure Outcome where
  /-- The exit code. -/
  exitCode : UInt8
  /-- The text for the standard output. -/
  output : String
  /-- The text for the standard error. -/
  complaint : String

/-- Wrong usage. -/
def Outcome.misused (e : UsageError) : Outcome := ⟨2, "", "error: " ++ e.message⟩

/-- A problem that cannot be had. -/
def Outcome.failed (complaint : String) : Outcome := ⟨1, "", complaint⟩

/-! ## Problems -/

/-- The draft of an example. -/
def Example.draft : Example → Draft Double
  | homework => ⟨[2.0, 3.0], [[3.0, 2.0], [4.0, 5.0]], [13.0, 11.0], none⟩
  | unit => ⟨[1.0, 1.0], [[1.0, 1.0]], [1.0], none⟩

/-- The complaint about a text that holds no problem. What the data is
refused for is named. -/
def problemComplaint : Json.ReadError → String
  | .unfit (.refused r) => "Invalid problem: " ++ r.message
  | _ => "Invalid problem"

/-- The problem in a file. -/
def fileProblem : Contents → Except String (Problem Double)
  | .unreadable fault => .error ("Error reading file: " ++ fault.message)
  | .bytes data =>
    match String.fromUTF8? data with
    | none => .error "Error reading file: stream did not contain valid UTF-8"
    | some text => (Problem.ofJson text).mapError problemComplaint

/-- The problem that is to be solved. -/
def problem (source : Source) (contents : Contents) : Except String (Problem Double) :=
  match source with
  | .built e => (Problem.ofDraft e.draft).mapError fun r => "Invalid example: " ++ r.message
  | .file _ => fileProblem contents

/-! ## Solutions -/

/-- The settings of the simplex method. -/
def simplexConfig : Simplex.Config Double := ⟨10000, 1e-9⟩

/-- The method that a usage asks for. -/
def Usage.method (u : Usage) : Method Double :=
  if u.relaxation then .simplex simplexConfig
  else .search ⟨u.epsilon, if u.bestFirst then .bestFirst else .depthFirst⟩
    (.simplex simplexConfig)

/-- A solution for reading. -/
def prettyText (s : Solution Double) : String :=
  match s.objective with
  | .top => "The problem is unbounded.\n"
  | .bottom => "The problem is infeasible.\n"
  | .number z =>
    let values := s.values.map fun x => String.ofList (Decimal.listed.write x)
    "Optimal solution found: z = " ++ String.ofList (Decimal.plain.write z) ++ "\n" ++
      "Solution: [" ++ String.intercalate ", " values ++ "]\n"

/-- A solution as a record. The objective is written only when it is a
number, so that with the status it says which level it is. -/
def solutionValue (s : Solution Double) : Json.Value :=
  let objective := match s.objective with
    | .number z => Json.Value.double z
    | _ => .null
  .record [("objective_value", objective), ("status", .text s.status.name),
    ("values", .doubles s.values)]

/-- A solution in JSON. -/
def jsonText (s : Solution Double) : String := (solutionValue s).indented ++ "\n"

/-- A solution in a format. -/
def Format.write : Format → Solution Double → String
  | pretty, s => prettyText s
  | json, s => jsonText s

/-! ## The command -/

/-- The file that a usage needs. -/
def Usage.path? (u : Usage) : Option String :=
  match u.source with
  | .file path => some path
  | .built _ => none

/-- The outcome of a usage, given the contents of its file. Nothing if the
method does not end within the limit. -/
def Usage.run (u : Usage) (limit : Nat) (contents : Contents) : Option Outcome :=
  match problem u.source contents with
  | .error complaint => some (.failed complaint)
  | .ok p =>
    let method := u.method
    ((method.solver limit).run method.memory p).map fun reply =>
      ⟨0, u.format.write reply.solution, ""⟩

end Command

end Milp
