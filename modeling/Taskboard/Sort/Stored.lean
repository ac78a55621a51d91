import Taskboard.Filter.Stored
import Taskboard.Sort.Custom

/-!
# Sort/Stored — orders in saved definitions

Like rules, orders are read leniently from stored maps in two spellings.
-/

namespace Taskboard

/-- The texts of some values. -/
def shownAll : List Value → Except Fault (List String)
  | [] => .ok []
  | v :: vs => v.shown.bind fun s => (shownAll vs).map (s :: ·)

namespace SortKey

/-- A key from its stored fields; a direction of no known name is rising. -/
def ofEntries (entries : List (Value × Value)) : Except Fault SortKey :=
  (fieldText entries ["direction", "order"] "asc").bind fun named =>
    (fieldText entries ["attribute_key", "tagKey"] "").bind fun key =>
      (match firstField? entries ["custom_order", "customOrder"] with
        | some (.list vs) => shownAll vs
        | _ => .ok []).map fun ranking =>
        let direction := lowerText named
        ⟨key, if direction = "asc" || direction = "desc" then direction else "asc", ranking⟩

end SortKey

/-- The keys of the maps in a list. -/
def sortKeysOf : List Value → Except Fault SortSpec
  | [] => .ok []
  | .map es :: vs => (SortKey.ofEntries es).bind fun k => (sortKeysOf vs).map (k :: ·)
  | _ :: vs => sortKeysOf vs

/-- **An order from a stored value**; none for an empty map or no map. -/
def storedSort? : Value → Except Fault (Option SortSpec)
  | .map [] => .ok none
  | .map es =>
    match firstField? es ["keys", "sortKeys"] with
    | some (.list vs) => (sortKeysOf vs).map some
    | _ => .ok (some [])
  | _ => .ok none

end Taskboard
