/-!
# Files

A path is a list of names, which lead step by step through a tree of files
and directories. A step needs a directory to start from, so the first name
that leads nowhere decides why a file cannot be read, whatever follows it.
-/

namespace Milp

namespace Command

/-! ## Faults -/

/-- Why a file cannot be read. -/
inductive FileFault where
  /-- A name is not in its directory. -/
  | missing
  /-- The reader may not read it. -/
  | forbidden
  /-- A name follows something that is no directory. -/
  | notDirectory
  /-- The path leads to a directory. -/
  | isDirectory
  /-- A name, or the path, is too long. -/
  | nameTooLong
  /-- Anything else, by its number and its text. -/
  | other (number : Nat) (text : String)
deriving DecidableEq, Repr

/-- The number by which the system knows a fault. -/
def FileFault.number : FileFault → Nat
  | missing => 2
  | forbidden => 13
  | notDirectory => 20
  | isDirectory => 21
  | nameTooLong => 36
  | other number _ => number

/-- What the system says of a fault. -/
def FileFault.text : FileFault → String
  | missing => "No such file or directory"
  | forbidden => "Permission denied"
  | notDirectory => "Not a directory"
  | isDirectory => "Is a directory"
  | nameTooLong => "File name too long"
  | other _ text => text

/-- A fault in words, its number at the end. -/
def FileFault.message (f : FileFault) : String :=
  f.text ++ " (os error " ++ toString f.number ++ ")"

/-- The fault of a number. The text matters only if the number is not one of
the known ones. -/
def FileFault.ofNumber (number : Nat) (text : String) : FileFault :=
  ([missing, forbidden, notDirectory, isDirectory, nameTooLong].find?
    (·.number == number)).getD (other number text)

/-- What became of reading a file. -/
inductive Contents where
  /-- The bytes of the file. -/
  | bytes (data : ByteArray)
  /-- Why it could not be read. -/
  | unreadable (fault : FileFault)

/-! ## Places -/

/-- A file, or a directory with what it holds by name. -/
inductive Entry where
  | file (data : ByteArray)
  | directory (entries : List (String × Entry))

/-- A place in a tree. -/
structure Place where
  /-- What is there. -/
  entry : Entry
  /-- The directories above it, the innermost first. -/
  above : List Entry := []

/-- The directory above a place. Nothing is above the root but itself. -/
def Place.parent (p : Place) : Place :=
  match p.above with
  | [] => p
  | d :: above => ⟨d, above⟩

/-- The top of the tree. -/
def Place.root (p : Place) : Place :=
  match p.above.getLast? with
  | none => p
  | some d => ⟨d, []⟩

/-- The most bytes that a name may have. -/
def longestName : Nat := 255

/-- The most bytes that a path may have. -/
def longestPath : Nat := 4095

/-- The place that a name leads to. An empty name, which a slash at an end of
a path or beside another one makes, and a dot stay where they are, but only a
directory can be stayed in. -/
def Place.step (p : Place) (name : String) : Except FileFault Place :=
  match p.entry with
  | .file _ => .error .notDirectory
  | .directory entries =>
    if name = "" ∨ name = "." then .ok p
    else if name = ".." then .ok p.parent
    else if longestName < name.utf8ByteSize then .error .nameTooLong
    else match entries.lookup name with
      | none => .error .missing
      | some e => .ok ⟨e, p.entry :: p.above⟩

/-- The place that names lead to, one after the other. -/
def Place.follow (p : Place) : List String → Except FileFault Place
  | [] => .ok p
  | name :: names =>
    match p.step name with
    | .error f => .error f
    | .ok q => q.follow names

/-- The place that a path leads to from where one is. A slash in front starts
at the top. -/
def Place.reach (here : Place) (path : String) : Except FileFault Place :=
  if path = "" then .error .missing
  else if longestPath < path.utf8ByteSize then .error .nameTooLong
  else
    let start := if path.toList.head? = some '/' then here.root else here
    start.follow (path.splitOn "/")

/-- What is read at a path. -/
def Place.read (here : Place) (path : String) : Contents :=
  match here.reach path with
  | .error f => .unreadable f
  | .ok ⟨.directory _, _⟩ => .unreadable .isDirectory
  | .ok ⟨.file data, _⟩ => .bytes data

end Command

end Milp
