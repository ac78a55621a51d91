import Taskboard.Json.Reader
import Taskboard.Text.Find
import Taskboard.Text.Lowercase
import Taskboard.Value.Basic

/-!
# Service/Request — what a client asks for

A request has a method, a path, a query of names and values, and a body. Of a repeated name in a
query the first value counts. A body counts only if it is declared to be JSON and is JSON.
-/

namespace Taskboard

/-- A request. -/
structure Request where
  method : String
  path : String
  query : List (String × String)
  body : String
  contentType : String

namespace Request

/-- The first value of a name in the query. -/
def arg? (r : Request) (name : String) : Option String := entryAt? name r.query

/-- The first value of a name, or another one where there is none. -/
def argOr (r : Request) (name usual : String) : String := (r.arg? name).getD usual

/-- The first value of a name, unless it is empty. -/
def filled? (r : Request) (name : String) : Option String := (r.arg? name).filter (· ≠ "")

/-- The entries whose name did not come before. -/
def firstEntries (seen : List String) : List (String × String) → List (String × String)
  | [] => []
  | (k, v) :: es =>
    if seen.contains k then firstEntries seen es else (k, v) :: firstEntries (k :: seen) es

/-- The query with the first value of each name. -/
def args (r : Request) : List (String × String) := firstEntries [] r.query

/-- The type of the body without parameters, in lower case. -/
def mediaType (r : Request) : String :=
  lowerText (strip (String.ofList (r.contentType.toList.takeWhile (· ≠ ';'))))

/-- Whether the body is declared to be JSON. -/
def declaresJson (r : Request) : Bool :=
  r.mediaType = "application/json"
    || (startsWith "application/" r.mediaType && endsWith "+json" r.mediaType)

/-- A text without the mark that may stand at the start of encoded texts. -/
def dropByteOrderMark (s : String) : String :=
  match s.toList with
  | '\ufeff' :: cs => String.ofList cs
  | _ => s

/-- **The JSON body**, if there is one. -/
def json? (r : Request) : Option Value :=
  if r.declaresJson then (Json.read (dropByteOrderMark r.body)).toOption else none

end Request

/-- A field of a value, null for what has none. -/
def Value.fieldOrNull (key : String) : Value → Value
  | .map es => (lookup? key es).getD .null
  | _ => .null

end Taskboard
