/-!
# Arguments

The list of arguments of a subcommand is read as a list of items: flags,
settings with their values, and operands. A setting takes its value from the
same argument, after its letter or after an equals sign, or from the next
argument, which then may not look like an option. After `--` everything is
an operand.
-/

namespace Milp

namespace Command

/-- What is wrong with the arguments. -/
inductive UsageError where
  | noSubcommand
  | unknownSubcommand (name : String)
  | unknownOption (name : String)
  | noOperand
  | extraOperand (operand : String)
  | repeated (name : String)
  | noValue (name : String)
  | unwantedValue (name : String)
  | invalidValue (name value : String)
deriving DecidableEq, Repr

/-- What is wrong, in words. -/
def UsageError.message : UsageError → String
  | noSubcommand => "a subcommand is required: example or solve"
  | unknownSubcommand name => "unrecognized subcommand: " ++ name
  | unknownOption name => "unexpected argument: " ++ name
  | noOperand => "an operand is required"
  | extraOperand operand => "unexpected argument: " ++ operand
  | repeated name => "cannot be used more than once: " ++ name
  | noValue name => "a value is required for: " ++ name
  | unwantedValue name => "no value is taken by: " ++ name
  | invalidValue name value => "invalid value for " ++ name ++ ": " ++ value

/-- An option without a value. -/
inductive Flag where
  | verbose
  | bestFirst
  | relaxation
deriving DecidableEq, Repr

/-- An option with a value. -/
inductive Setting where
  | epsilon
  | format
deriving DecidableEq, Repr

/-- The name of a flag. -/
def Flag.name : Flag → String
  | verbose => "verbose"
  | bestFirst => "best-first"
  | relaxation => "relaxation"

/-- The name of a setting. -/
def Setting.name : Setting → String
  | epsilon => "epsilon"
  | format => "format"

/-- A part of the arguments. -/
inductive Item where
  | flag (f : Flag)
  | setting (s : Setting) (value : String)
  | operand (text : String)
deriving DecidableEq, Repr

/-- What one argument holds: items and, at its end, perhaps a setting whose
value is the next argument. -/
structure Holding where
  /-- The complete items. -/
  items : List Item
  /-- The setting that waits for its value. -/
  waiting : Option Setting := none

/-- The flag of a name. -/
def flag? (name : String) : Option Flag :=
  [Flag.verbose, .bestFirst, .relaxation].find? (·.name == name)

/-- The setting of a name. -/
def setting? (name : String) : Option Setting :=
  [Setting.epsilon, .format].find? (·.name == name)

/-- An option by its name, without the two dashes. -/
def longOption (text : List Char) : Except UsageError Holding :=
  let name := String.ofList (text.takeWhile (· != '='))
  let value : Option String := match text.dropWhile (· != '=') with
    | [] => none
    | _ :: v => some (String.ofList v)
  match flag? name, setting? name, value with
  | some f, _, none => .ok ⟨[.flag f], none⟩
  | some _, _, some _ => .error (.unwantedValue name)
  | none, some s, none => .ok ⟨[], some s⟩
  | none, some s, some v => .ok ⟨[.setting s v], none⟩
  | none, none, _ => .error (.unknownOption name)

/-- The setting of a letter. -/
def settingLetter? : Char → Option Setting
  | 'e' => some .epsilon
  | 'f' => some .format
  | _ => none

/-- The value that follows the letter of a setting. -/
def attachedValue : List Char → String
  | '=' :: v => String.ofList v
  | v => String.ofList v

/-- Options by their letters, without the dash. -/
def shortOptions : List Char → Except UsageError Holding
  | [] => .ok ⟨[], none⟩
  | 'v' :: rest => (shortOptions rest).map fun h => { h with items := .flag .verbose :: h.items }
  | c :: rest =>
    match settingLetter? c with
    | none => .error (.unknownOption (String.singleton c))
    | some s =>
      if rest.isEmpty then .ok ⟨[], some s⟩ else .ok ⟨[.setting s (attachedValue rest)], none⟩

/-- What an argument holds. A single dash is an operand. -/
def holding (arg : String) : Except UsageError Holding :=
  match arg.toList with
  | '-' :: '-' :: name => longOption name
  | '-' :: c :: rest => shortOptions (c :: rest)
  | _ => .ok ⟨[.operand arg], none⟩

/-- Whether an argument looks like an option. -/
def looksLikeOption (arg : String) : Bool :=
  match arg.toList with
  | '-' :: _ :: _ => true
  | _ => false

/-- **The items of a list of arguments.** -/
def items : List String → Except UsageError (List Item)
  | [] => .ok []
  | arg :: rest =>
    if arg = "--" then .ok (rest.map .operand)
    else do
      let h ← holding arg
      match h.waiting, rest with
      | none, rest => .ok (h.items ++ (← items rest))
      | some s, [] => .error (.noValue s.name)
      | some s, v :: rest =>
        if looksLikeOption v then .error (.noValue s.name)
        else .ok (h.items ++ .setting s v :: (← items rest))

end Command

end Milp
