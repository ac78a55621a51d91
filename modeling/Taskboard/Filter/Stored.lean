import Taskboard.Filter.Rule

/-!
# Filter/Stored — rules in saved definitions

`Rule.ofStored` reads a rule from a stored map. It knows two spellings of each field and is lenient:
what is missing or of the wrong kind counts as not given.
-/

namespace Taskboard

/-- The first of some fields that a map has. -/
def firstField? (entries : List (Value × Value)) : List String → Option Value
  | [] => none
  | k :: ks => (Value.lookup? k entries).or (firstField? entries ks)

/-- A field as text, with a text for where it is missing. -/
def fieldText (entries : List (Value × Value)) (names : List String) (missing : String) :
    Except Fault String :=
  match firstField? entries names with
  | some v => v.shown
  | none => .ok missing

namespace Condition

/-- A condition from its stored fields. -/
def ofEntries (entries : List (Value × Value)) : Except Fault Condition :=
  (fieldText entries ["attribute_key", "tagKey"] "").bind fun key =>
    (fieldText entries ["operator"] "==").map fun operator =>
      ⟨key, operator, (firstField? entries ["operand", "value"]).getD .null⟩

end Condition

namespace Rule

/-- The logical operator of a node in upper case, none for a value that counts as nothing. -/
def storedLogical (entries : List (Value × Value)) : Except Fault (Option String) :=
  match firstField? entries ["logical_operator", "logicalOperator"] with
  | some v => if v.isTrue then v.shown.map fun s => some (upperText s) else .ok none
  | none => .ok none

/-- The condition of a node, if it is a map. -/
def storedCondition (entries : List (Value × Value)) : Except Fault (Option Condition) :=
  match Value.lookup? "condition" entries with
  | some (.map es) => (Condition.ofEntries es).map some
  | _ => .ok none

/-- Whether the entries of a node name its children by the newer of two spellings. -/
def hasNewChildren (entries : List (Value × Value)) : Bool :=
  (Value.lookup? "children" entries).isSome

mutual
/-- **A rule from a stored value**; an empty map or no map at all is no rule. -/
def ofStored : Value → Except Fault Rule
  | .map [] => .ok .everything
  | .map (e :: es) => (storedChildren (hasNewChildren (e :: es)) (e :: es)).bind fun children =>
    (storedCondition (e :: es)).bind fun condition =>
      (storedLogical (e :: es)).map fun logical => .node condition logical children
  | _ => .ok .everything
  termination_by structural v => v

/-- The children of a node, under one of two names. -/
def storedChildren (newer : Bool) : List (Value × Value) → Except Fault (List Rule)
  | [] => .ok []
  | (k, v) :: es =>
    match k with
    | .text name =>
      if name = (if newer then "children" else "expressions") then
        match v with
        | .list cs => rulesOf cs
        | _ => .ok []
      else storedChildren newer es
    | _ => storedChildren newer es
  termination_by structural es => es

/-- The rules of the maps in a list; empty maps are left out. -/
def rulesOf : List Value → Except Fault (List Rule)
  | [] => .ok []
  | c :: cs => (ofStored c).bind fun r => (rulesOf cs).map fun rs =>
    match r with
    | .everything => rs
    | r => r :: rs
  termination_by structural cs => cs
end

end Rule

end Taskboard
