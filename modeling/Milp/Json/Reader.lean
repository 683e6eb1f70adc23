import Milp.Json.Token
import Milp.Json.Value
import Milp.Refusal
/-!
# Reading JSON

Readers take a value of a known type off a list of tokens. The first thing
that is wrong, in the order of the text, is the error: the text may be no
JSON, may end too early, or may hold a value that does not fit. So a text
with an unfit value is refused for it even when it goes on with no JSON.
-/

namespace Milp

namespace Json

/-! ## Errors -/

/-- The values that a text can hold, as far as an error tells them apart. -/
inductive Found where
  | null
  | boolean (b : Bool)
  | natural (n : Nat)
  | negative (n : Nat)
  | double (x : Double)
  | text (s : String)
  | list
  | record

/-- What a reader wants, by name, and how many elements it has as a list. -/
structure Wanted where
  /-- The name of what is wanted. -/
  name : String
  /-- The number of elements of the list form. -/
  size : Nat := 0

/-- Why a value does not fit. -/
inductive Misfit where
  /-- A value of another type. -/
  | type (found : Found) (wanted : Wanted)
  /-- A negative index. -/
  | negativeIndex (n : Nat)
  /-- A list with too few elements. -/
  | length (found : Nat) (wanted : Wanted)
  /-- A record lacks a field. -/
  | missing (field : String)
  /-- A record has a field twice. -/
  | duplicate (field : String)
  /-- A text is none of the names. -/
  | variant (found : String) (names : List String)
  /-- The data is refused. -/
  | refused (r : Refusal)

/-- What can be wrong with a text. -/
inductive ReadError where
  /-- It is no JSON. -/
  | malformed
  /-- It ends too early. -/
  | truncated
  /-- It holds a value that does not fit. -/
  | unfit (m : Misfit)

/-- What can be wrong with a token. -/
def ReadError.ofFault : Fault → ReadError
  | .truncated => .truncated
  | .malformed => .malformed

/-- What can be wrong with a number. -/
def ReadError.ofNumberFault : NumberFault → ReadError
  | .truncated => .truncated
  | .malformed | .outOfRange => .malformed

/-- A reader of values of a type. -/
abbrev Reader (β : Type) := List Token → Except ReadError (β × List Token)

/-- Nothing that could follow is there. -/
def unexpected : List Token → ReadError
  | [] => .truncated
  | .stop f :: _ => .ofFault f
  | _ => .malformed

/-- **A value of another type**, or the fault that keeps it from being one. -/
def mismatch (wanted : Wanted) : List Token → ReadError
  | .openList :: _ => .unfit (.type .list wanted)
  | .openRecord :: _ => .unfit (.type .record wanted)
  | .word (.ok .null) :: _ => .unfit (.type .null wanted)
  | .word (.ok .yes) :: _ => .unfit (.type (.boolean true) wanted)
  | .word (.ok .no) :: _ => .unfit (.type (.boolean false) wanted)
  | .word (.error f) :: _ => .ofFault f
  | .number (.ok (.natural n)) :: _ => .unfit (.type (.natural n) wanted)
  | .number (.ok (.negative n)) :: _ => .unfit (.type (.negative n) wanted)
  | .number (.ok (.double x)) :: _ => .unfit (.type (.double x) wanted)
  | .number (.error f) :: _ => .ofNumberFault f
  | .text (.ok s) :: _ => .unfit (.type (.text s) wanted)
  | .text (.error f) :: _ => .ofFault f
  | ts => unexpected ts

/-! ## Single values -/

/-- Doubles, by name. -/
def wantedDouble : Wanted := { name := "f64" }

/-- Indices, by name. -/
def wantedIndex : Wanted := { name := "usize" }

/-- Lists, by name. -/
def wantedList : Wanted := { name := "a sequence" }

/-- A number as a double. -/
def double : Reader Double
  | .number (.ok (.natural n)) :: rest => .ok (ofWord n, rest)
  | .number (.ok (.negative n)) :: rest => .ok (-(ofWord n), rest)
  | .number (.ok (.double x)) :: rest => .ok (x, rest)
  | ts => .error (mismatch wantedDouble ts)

/-- An index. -/
def index : Reader Nat
  | .number (.ok (.natural n)) :: rest => .ok (n, rest)
  | .number (.ok (.negative n)) :: _ => .error (.unfit (.negativeIndex n))
  | ts => .error (mismatch wantedIndex ts)

/-- A value that may be null. -/
def optional {β : Type} (reader : Reader β) : Reader (Option β)
  | .word (.ok .null) :: rest => .ok (none, rest)
  | ts => (reader ts).map fun (v, rest) => (some v, rest)

/-! ## Lists -/

/-- The next element of a list, or none where the list ends. The closing
bracket is left. `first` says whether no element has been read. -/
def element {β : Type} (first : Bool) (reader : Reader β) : Reader (Option β)
  | .closeList :: rest => .ok (none, .closeList :: rest)
  | .comma :: rest =>
    if first then .error (unexpected (.comma :: rest))
    else match rest with
      | .closeList :: _ => .error .malformed
      | rest => (reader rest).map fun (v, rest) => (some v, rest)
  | ts =>
    if first then (reader ts).map fun (v, rest) => (some v, rest)
    else .error (unexpected ts)

/-- The closing bracket of a list. -/
def closing : List Token → Except ReadError (List Token)
  | .closeList :: rest => .ok rest
  | ts => .error (unexpected ts)

/-- The elements of a list, up to its closing bracket. There are no more
elements than tokens. -/
def elements {β : Type} (reader : Reader β) : (tokens : Nat) → (first : Bool) → Reader (List β)
  | 0, _, ts => .error (unexpected ts)
  | n + 1, first, ts => do
    match ← element first reader ts with
    | (none, rest) => .ok ([], ← closing rest)
    | (some v, rest) =>
      let (vs, rest) ← elements reader n false rest
      .ok (v :: vs, rest)

/-- A list. -/
def list {β : Type} (reader : Reader β) : Reader (List β)
  | .openList :: rest => elements reader (rest.length + 1) true rest
  | ts => .error (mismatch wantedList ts)

/-! ## Values that are passed over -/

/-- A list or a record. -/
inductive Frame where
  | list
  | record
deriving DecidableEq

/-- What comes next where values are passed over. -/
inductive Place where
  /-- A value. -/
  | value
  /-- The first part of the innermost list or record, or its end. -/
  | opened
  /-- A comma, or the end of the innermost list or record. -/
  | after
  /-- A name. -/
  | key
  /-- A colon. -/
  | colon

/-- Whether a token closes a frame. -/
def Frame.isClosedBy : Frame → Token → Bool
  | list, .closeList => true
  | record, .closeRecord => true
  | _, _ => false

/-- A value starts. -/
def passValue (frames : List Frame) : Token → Except ReadError (Place × List Frame)
  | .openList => .ok (.opened, .list :: frames)
  | .openRecord => .ok (.opened, .record :: frames)
  | .word (.ok _) => .ok (.after, frames)
  | .word (.error f) => .error (.ofFault f)
  | .number (.ok _) => .ok (.after, frames)
  | .number (.error .outOfRange) => .ok (.after, frames)
  | .number (.error _) => .error .malformed
  | .text _ => .ok (.after, frames)
  | t => .error (unexpected [t])

/-- A name. -/
def passKey (frames : List Frame) : Token → Except ReadError (Place × List Frame)
  | .text _ => .ok (.colon, frames)
  | t => .error (unexpected [t])

/-- What follows one token, inside the given lists and records. -/
def pass : Place → List Frame → Token → Except ReadError (Place × List Frame)
  | .value, frames, t => passValue frames t
  | .key, frames, t => passKey frames t
  | .colon, frames, .colon => .ok (.value, frames)
  | .opened, frame :: frames, t =>
    if frame.isClosedBy t then .ok (.after, frames)
    else match frame with
      | .list => passValue (frame :: frames) t
      | .record => passKey (frame :: frames) t
  | .after, frame :: frames, t =>
    if frame.isClosedBy t then .ok (.after, frames)
    else match t with
      | .comma => .ok (if frame = .list then .value else .key, frame :: frames)
      | t => .error (unexpected [t])
  | _, _, t => .error (unexpected [t])

/-- Passes over tokens until the value that is wanted has ended. -/
def passOver : Place → List Frame → List Token → Except ReadError (List Token)
  | .after, [], ts => .ok ts
  | _, _, [] => .error .truncated
  | place, frames, t :: ts => do
    let (place, frames) ← pass place frames t
    passOver place frames ts

/-- A value of any type, which is passed over. -/
def anything (ts : List Token) : Except ReadError (List Token) := passOver .value [] ts

/-! ## Records -/

/-- The colon after a name. -/
def colon : List Token → Except ReadError (List Token)
  | .colon :: rest => .ok rest
  | ts => .error (unexpected ts)

/-- The name of the next field of a record, or none where the record ends.
The closing bracket is taken. -/
def fieldName (first : Bool) : Reader (Option String)
  | .closeRecord :: rest => .ok (none, rest)
  | .comma :: rest =>
    if first then .error .malformed
    else match rest with
      | .text (.ok s) :: rest => .ok (some s, rest)
      | .text (.error f) :: _ => .error (.ofFault f)
      | rest => .error (unexpected rest)
  | .text s :: rest =>
    if first then match s with
      | .ok s => .ok (some s, rest)
      | .error f => .error (.ofFault f)
    else .error .malformed
  | ts => .error (unexpected ts)

/-- The fields of a record, up to its closing bracket. `field` says how a
field of a name changes what has been read so far: it is the reader of its
value, or nothing for a field that is passed over, or the reason why the
field may not be there. There are no more fields than tokens. -/
def fields {β : Type} (field : β → String → Except Misfit (Option (Reader β))) :
    (tokens : Nat) → (first : Bool) → β → Reader β
  | 0, _, _, ts => .error (unexpected ts)
  | n + 1, first, b, ts => do
    match ← fieldName first ts with
    | (none, rest) => .ok (b, rest)
    | (some name, rest) =>
      match field b name with
      | .error m => .error (.unfit m)
      | .ok none =>
        let rest ← anything (← colon rest)
        fields field n false b rest
      | .ok (some reader) =>
        let (b, rest) ← reader (← colon rest)
        fields field n false b rest

/-- The reader of a field that may be read once. -/
def onceOnly {β γ : Type} (name : String) (seen : Option γ) (reader : Reader γ) (store : γ → β) :
    Except Misfit (Option (Reader β)) :=
  if seen.isSome then .error (.duplicate name)
  else .ok (some fun ts => (reader ts).map fun (v, rest) => (store v, rest))

/-- A field that has to have been read. -/
def required {γ : Type} (name : String) (seen : Option γ) : Except ReadError γ :=
  match seen with
  | some v => .ok v
  | none => .error (.unfit (.missing name))

/-! ## Whole texts -/

/-- A value, and nothing after it. -/
def whole [NumberFormat] {β : Type} (reader : Reader β) (text : String) : Except ReadError β := do
  match ← reader (tokens text.toList) with
  | (v, []) => .ok v
  | (_, _ :: _) => .error .malformed

/-- The value that data makes, if it is not refused. -/
def accepted {β : Type} (r : Except Refusal β) : Except ReadError β :=
  r.mapError fun e => .unfit (.refused e)

end Json

end Milp
