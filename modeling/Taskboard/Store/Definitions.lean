import Taskboard.Store.Schedule

/-!
# Store/Definitions — saved filters and sorts

A workspace may hold a document with the filters and sorts that its users have named.
-/

namespace Taskboard

/-- The filters and sorts of a workspace, as they were stored. -/
structure Definitions where
  filters : List Value
  sorts : List Value

namespace Definitions

/-- No filters and no sorts. -/
def none : Definitions := ⟨[], []⟩

/-- The members of a field that is a list, no members of any other. -/
def listField (key : String) (entries : List (Value × Value)) : List Value :=
  match Value.lookup? key entries with
  | some (.list vs) => vs
  | _ => []

/-- The definitions that a document holds; one of another shape holds none. -/
def ofStored : Value → Definitions
  | .map es => ⟨listField "filters" es, listField "sorts" es⟩
  | _ => none

/-- Whether a definition has a name. -/
def isNamed (name : Value) : Value → Bool
  | .map es => ((Value.lookup? "name" es).getD .null).same name
  | _ => false

/-- The first of some definitions with a name. -/
def named? (name : Value) (definitions : List Value) : Option Value :=
  definitions.find? (isNamed name)

/-- The definitions as a map. -/
def fields (d : Definitions) : Value :=
  .object [("filters", .list d.filters), ("sorts", .list d.sorts)]

end Definitions

namespace Store

/-- The name of the file with filters and sorts. -/
def definitionsName : String := "filters_and_sorts.json"

/-- The file with the filters and sorts of a workspace. -/
def definitionsPath (s : Store) (workspace : String) : Path :=
  (s.folder workspace).child definitionsName

/-- **The filters and sorts of a workspace.** -/
def loadDefinitions (s : Store) (workspace : String) : Except Fault Definitions :=
  (s.document? (s.definitionsPath workspace) .definitionsUnreadable).map fun v =>
    match v with
    | some v => .ofStored v
    | none => .none

/-- **Saves filters and sorts** into a folder that is there. -/
def saveDefinitions (workspace : String) (definitions : Value) (s : Store) : Stored Unit :=
  s.write (s.definitionsPath workspace)
    (Json.write Json.readableLayout Json.noDates definitions) .definitionsUnwritable

end Store

end Taskboard
