import Milp.Json.Documents
import Milp.Storage.Problem
/-!
# Stored documents

What a text or a solution holds, as it is kept. A text is read as plain data
first, which is then checked, and what comes after it is looked at last.
-/

namespace Milp

open Storage Json

/-- What is made of data that was read, before what comes after it is looked at. -/
def Storage.checkRead {β : Type} (made : Run (Except Refusal β)) (rest : List Token) :
    Run (Except ReadError β) := do
  match ← made with
  | .error r => pure (.error (.unfit (.refused r)))
  | .ok v =>
    match rest with
    | [] => pure (.ok v)
    | _ :: _ => pure (.error .malformed)

namespace Store

/-- The matrix that a text holds. -/
def ofJson (b : Build) (text : String) : Run (Except ReadError (Store Double)) :=
  match Json.list (Json.list double) (tokens text.toList) with
  | .error e => pure (.error e)
  | .ok (rows, rest) => checkRead (ofRows b rows) rest

/-- The values of a solution as a matrix with one row, if there are any. -/
def ofSolution {α : Type} (s : Solution α) : Run (Option (Store α)) := do
  let made ← ofVector s.values
  pure made.toOption

end Store

namespace StoredProblem

/-- The problem that a text holds. -/
def ofJson (b : Build) (text : String) : Run (Except ReadError (StoredProblem Double)) :=
  match Draft.reader (tokens text.toList) with
  | .error e => pure (.error e)
  | .ok (d, rest) => checkRead (ofDraft b d) rest

end StoredProblem

end Milp
