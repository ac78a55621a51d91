import Taskboard.Sort.Stable
import Taskboard.Task.Basic

/-!
# Sort/Custom — orders by several attributes

A `SortKey` orders by one attribute: by a list of captions, or by the attribute's declared type, or
by caption. `compareTasks` asks the keys in turn. Tasks without a value come last in both
directions.
-/

namespace Taskboard

/-- One attribute to sort by. -/
structure SortKey where
  key : String
  direction : String
  /-- Captions that come first, in this order. -/
  ranking : List String
deriving DecidableEq, Repr

/-- Whether a key sorts from the greatest down. -/
def SortKey.descending (k : SortKey) : Bool := k.direction = "desc"

/-- Keys to sort by, the first one first. -/
abbrev SortSpec := List SortKey

/-- The declared types of attributes. -/
abbrev AttributeTypes := List (String × String)

/-- A value as a number to sort by, none for what is not comparable. -/
def Value.sortNumber : Value → Except Fault Binary64
  | .bool _ => .ok .nan
  | .int n => (Value.int n).toReal
  | .real x => .ok x
  | v =>
    match v.shown.bind fun s => readReal (strip s) with
    | .ok x => .ok x
    | .error _ => .ok .nan

/-- The order of two doubles by the sign of their difference; equal where it has none. -/
def compareReals (x y : Binary64) : Ordering :=
  let d := x - y
  if Binary64.zero.lt d then .gt else if d.lt .zero then .lt else .eq

/-- The order of two moments. Two with the same offset are compared by their clocks, others by their
instants. -/
def compareMoments (m n : Moment) : Except Fault Ordering :=
  if m.offset = n.offset then .ok (compare m.micros n.micros)
  else m.instant.bind fun a => n.instant.map fun b => compare a b

/-- The order of two captions: ranked ones first, in their rank. -/
def compareRanked (ranking : List String) (a b : String) : Ordering :=
  match ranking.idxOf? a, ranking.idxOf? b with
  | some i, some j => compare i j
  | some _, none => .lt
  | none, some _ => .gt
  | none, none => compare a b

namespace SortKey

/-- How the values of a key are compared. -/
inductive Kind where
  | ranked
  | number
  | moment
  | caption
deriving DecidableEq, Repr

/-- The kind of a key: its ranking if it has one, else the declared type of its attribute. -/
def kind (types : AttributeTypes) (k : SortKey) : Kind :=
  if !k.ranking.isEmpty then .ranked
  else match entryAt? k.key types with
    | some "Number" => .number
    | some "Date" => .moment
    | _ => .caption

/-- The value of a task for a key; a value that is no date counts as missing under a date key. -/
def value? (types : AttributeTypes) (k : SortKey) (t : Task) : Option Value :=
  match t.get? k.key with
  | none => none
  | some v => if k.kind types = .moment && v.moment?.isNone then none else some v

/-- The order of two values under a key, rising. -/
def compareValues (types : AttributeTypes) (k : SortKey) (a b : Value) : Except Fault Ordering :=
  match k.kind types with
  | .ranked => a.caption.bind fun s => b.caption.map fun t => compareRanked k.ranking s t
  | .number => a.sortNumber.bind fun x => b.sortNumber.map fun y => compareReals x y
  | .moment =>
    match a.moment?, b.moment? with
    | some m, some n => compareMoments m n
    | _, _ => .error .wrongType
  | .caption => a.caption.bind fun s => b.caption.map fun t => compare s t

/-- The order of two tasks under one key; a missing value comes last. -/
def compareTasks (types : AttributeTypes) (k : SortKey) (a b : Task) : Except Fault Ordering :=
  match k.value? types a, k.value? types b with
  | none, none => .ok .eq
  | none, some _ => .ok .gt
  | some _, none => .ok .lt
  | some v, some w =>
    (k.compareValues types v w).map fun o => if k.descending then o.swap else o

end SortKey

/-- The order of two tasks under several keys. -/
def compareTasks (types : AttributeTypes) (a b : Task) : SortSpec → Except Fault Ordering
  | [] => .ok .eq
  | k :: ks => (k.compareTasks types a b).bind fun o =>
    match o with
    | .eq => compareTasks types a b ks
    | o => .ok o

/-- Whether a task comes strictly before another. -/
def comesBefore (types : AttributeTypes) (spec : SortSpec) (a b : Task) : Except Fault Bool :=
  (compareTasks types a b spec).map (· = .lt)

/-- **Tasks in the order of some keys.** Where a comparison fails the tasks stay as they are. -/
def sortByKeys (spec : SortSpec) (types : AttributeTypes) (tasks : List Task) : List Task :=
  if spec.isEmpty then tasks
  else match stableSort (comesBefore types spec) tasks with
    | .ok sorted => sorted
    | .error _ => tasks

end Taskboard
