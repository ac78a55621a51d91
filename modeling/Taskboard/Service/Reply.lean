import Taskboard.Calendar.HeaderDate
import Taskboard.Json.Writer

/-!
# Service/Reply — what a client is answered

A reply has a status and perhaps a JSON body. A body is written with the keys of each map in order,
so a map whose keys have no common order cannot be sent; dates inside of it are header dates.
-/

namespace Taskboard

/-- A reply; without a body it is a page of the server's own. -/
structure Reply where
  status : Nat
  body : Option Value

namespace Reply

/-- Dates as header dates. -/
def headerDates : Json.DateRule
  | .date d => .ok d.header
  | .moment m => m.header
  | _ => .error .notSerializable

/-- Whether a value is a text. -/
def isText : Value → Bool
  | .text _ => true
  | _ => false

/-- Whether keys can be put in order: there is but one, or all are texts, or all are numbers. -/
def haveOrder (keys : List Value) : Bool :=
  keys.length ≤ 1 || keys.all isText || keys.all Value.isNumber

mutual
/-- Whether the keys of all maps in a value have an order. -/
def isOrderly : Value → Bool
  | .list xs => areOrderly xs
  | .map es => haveOrder (es.map Prod.fst) && haveOrderly es
  | _ => true
  termination_by structural v => v

/-- Whether the keys of all maps in a list have an order. -/
def areOrderly : List Value → Bool
  | [] => true
  | v :: vs => isOrderly v && areOrderly vs
  termination_by structural vs => vs

/-- Whether the keys of all maps in the values of some entries have an order. -/
def haveOrderly : List (Value × Value) → Bool
  | [] => true
  | (_, v) :: es => isOrderly v && haveOrderly es
  termination_by structural es => es
end

/-- **A reply with a body**, if the body can be sent. -/
def json (status : Nat) (body : Value) : Except Fault Reply :=
  if isOrderly body then (Json.plain headerDates body).map fun v => ⟨status, some v⟩
  else .error .wrongType

/-- A page of the server's own. -/
def page (status : Nat) : Reply := ⟨status, none⟩

/-- A body that tells of success. -/
def success (fields : List (String × Value)) : Value :=
  .object (("success", .bool true) :: fields)

/-- A body that tells what is wrong. -/
def failure (text : String) (more : List (String × Value)) : Value :=
  .object ([("success", .bool false), ("error", .text text)] ++ more)

/-- A reply of success. -/
def ok (fields : List (String × Value)) : Except Fault Reply := json 200 (success fields)

/-- A reply that turns a request down. -/
def refusal (status : Nat) (text : String) : Reply := ⟨status, some (failure text [])⟩

/-- The reply to a request that fails: failures of the storage are told, others give a page. -/
def ofFault (f : Fault) : Reply := if f.isStorage then refusal 503 f.message else page 500

end Reply

end Taskboard
