import Milp.Command.Argument
import Milp.Decimal.Reading
/-!
# Usage

The uses of the command. There are two subcommands, `example` for the
built-in examples and `solve` for files, with one operand and the same
options. Only the verbosity flag may stand before the subcommand, and only
it may be repeated. Arguments are checked completely before anything is
done.
-/

namespace Milp

namespace Command

/-- The built-in examples. -/
inductive Example where
  | homework
  | unit
deriving DecidableEq, Repr

/-- How a solution is written. -/
inductive Format where
  | pretty
  | json
deriving DecidableEq, Repr

/-- What is solved. -/
inductive Source where
  /-- A built-in example. -/
  | built (e : Example)
  /-- A problem in a file. -/
  | file (path : String)
deriving DecidableEq, Repr

/-- What the options and operands of a subcommand say. -/
structure Options where
  epsilon : Option Double := none
  format : Option Format := none
  bestFirst : Bool := false
  relaxation : Bool := false
  operand : Option String := none
deriving Repr

/-- A use of the command. -/
structure Usage where
  /-- What is solved. -/
  source : Source
  /-- How far from an integer a value may be and still count as one. -/
  epsilon : Double
  /-- How the solution is written. -/
  format : Format
  /-- Whether the node with the highest bound is taken first. -/
  bestFirst : Bool
  /-- Whether only the continuous relaxation is solved. -/
  relaxation : Bool
deriving Repr

/-- The tolerance when none is given. -/
def defaultEpsilon : Double := 0.0001

/-- The format of a name. -/
def format? : String → Option Format
  | "pretty" => some .pretty
  | "json" => some .json
  | _ => none

/-- The example of a name. -/
def example? : String → Option Example
  | "homework" => some .homework
  | "unit" => some .unit
  | _ => none

/-- A setting is made, unless it has been before. -/
def Options.set (o : Options) (s : Setting) (value : String) : Except UsageError Options :=
  match s with
  | .epsilon =>
    if o.epsilon.isSome then .error (.repeated s.name)
    else match Decimal.double? value with
      | some x => .ok { o with epsilon := some x }
      | none => .error (.invalidValue s.name value)
  | .format =>
    if o.format.isSome then .error (.repeated s.name)
    else match format? value with
      | some f => .ok { o with format := some f }
      | none => .error (.invalidValue s.name value)

/-- A flag is set, unless it has been before. -/
def Options.turnOn (o : Options) : Flag → Except UsageError Options
  | .verbose => .ok o
  | .bestFirst =>
    if o.bestFirst then .error (.repeated Flag.bestFirst.name)
    else .ok { o with bestFirst := true }
  | .relaxation =>
    if o.relaxation then .error (.repeated Flag.relaxation.name)
    else .ok { o with relaxation := true }

/-- One more item. -/
def Options.add (o : Options) : Item → Except UsageError Options
  | .flag f => o.turnOn f
  | .setting s value => o.set s value
  | .operand text =>
    if o.operand.isSome then .error (.extraOperand text) else .ok { o with operand := some text }

/-- The source that an operand of a subcommand names. -/
def source (subcommand operand : String) : Except UsageError Source :=
  if subcommand = "example" then
    match example? operand with
    | some e => .ok (.built e)
    | none => .error (.invalidValue subcommand operand)
  else if operand = "" then .error (.invalidValue subcommand operand)
  else .ok (.file operand)

/-- The use of a subcommand. -/
def ofSubcommand (subcommand : String) (args : List String) : Except UsageError Usage := do
  let o ← (← items args).foldlM Options.add {}
  match o.operand with
  | none => .error .noOperand
  | some operand =>
    .ok {
      source := ← source subcommand operand
      epsilon := o.epsilon.getD defaultEpsilon
      format := o.format.getD .pretty
      bestFirst := o.bestFirst
      relaxation := o.relaxation }

/-- Whether an argument is the verbosity flag, once or several times. -/
def isVerbosity (arg : String) : Bool :=
  arg == "--verbose" ||
    match arg.toList with
    | '-' :: c :: rest => (c :: rest).all (· == 'v')
    | _ => false

/-- **The use that arguments stand for.** -/
def usage (args : List String) : Except UsageError Usage :=
  match args.dropWhile isVerbosity with
  | [] => .error .noSubcommand
  | name :: rest =>
    if name = "example" ∨ name = "solve" then ofSubcommand name rest
    else if looksLikeOption name then .error (.unknownOption name)
    else .error (.unknownSubcommand name)

end Command

end Milp
