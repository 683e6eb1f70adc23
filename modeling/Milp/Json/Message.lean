import Milp.Json.Reader
import Milp.Text.Shown
/-!
# Messages about unfit values

The wording of every reason why a value does not fit. Numbers in a message
are written as in JSON.
-/

namespace Milp

namespace Json

/-- A found value in words. -/
def Found.phrase : Found → String
  | null => "null"
  | boolean b => "boolean `" ++ (if b then "true" else "false") ++ "`"
  | natural n => "integer `" ++ toString n ++ "`"
  | negative n => "integer `-" ++ toString n ++ "`"
  | double x => "floating point `" ++ String.ofList (numberLayout.write x) ++ "`"
  | text s => "string " ++ Text.shown s
  | list => "sequence"
  | record => "map"

/-- Names in a row, each between back quotes. -/
def nameList (names : List String) : String :=
  String.intercalate ", " (names.map fun s => "`" ++ s ++ "`")

/-- **The message of a misfit.** -/
def Misfit.message : Misfit → String
  | type found wanted => "invalid type: " ++ found.phrase ++ ", expected " ++ wanted.name
  | negativeIndex n =>
    "invalid value: integer `-" ++ toString n ++ "`, expected " ++ wantedIndex.name
  | length n wanted =>
    "invalid length " ++ toString n ++ ", expected " ++ wanted.name ++ " with " ++
      toString wanted.size ++ " elements"
  | missing field => "missing field `" ++ field ++ "`"
  | duplicate field => "duplicate field `" ++ field ++ "`"
  | variant found names =>
    "unknown variant `" ++ found ++ "`, expected one of " ++ nameList names
  | refused r => r.message

end Json

end Milp
