import Milp.Command.Run
/-!
# The command line

Reads the file that the arguments name, runs the command and writes what it
has to say.
-/

namespace Milp

namespace Command

/-- A limit that no run on real data meets. -/
def runLimit : Nat := Nat.pow 2 62

/-- Why the system could not read a file. -/
def faultOf : IO.Error → FileFault
  | .noFileOrDirectory _ number text
  | .inappropriateType _ number text
  | .invalidArgument _ number text
  | .permissionDenied _ number text
  | .noSuchThing _ number text
  | .resourceExhausted _ number text
  | .hardwareFault number text
  | .otherError number text => .ofNumber number.toNat text
  | e => .other 0 (toString e)

/-- The contents of the file of a usage. -/
def readContents (u : Usage) : IO Contents :=
  match u.path? with
  | none => pure (.bytes ByteArray.empty)
  | some path =>
    try
      let file ← IO.FS.Handle.mk path .read
      return .bytes (← file.readBinToEnd)
    catch e =>
      return .unreadable (faultOf e)

/-- What a list of arguments comes to. -/
def execute (args : List String) : IO Outcome := do
  match usage args with
  | .error e => return .misused e
  | .ok u =>
    let contents ← readContents u
    return (u.run runLimit contents).getD (.failed "The search did not end")

end Command

end Milp

/-- The program. -/
def main (args : List String) : IO UInt32 := do
  let outcome ← Milp.Command.execute args
  IO.print outcome.output
  unless outcome.complaint.isEmpty do
    IO.eprintln outcome.complaint
  return outcome.exitCode.toUInt32
