import Taskboard.Calendar.Moment

/-!
# Value/Basic — the values of attributes

A `Value` is what a task's attribute, an operand, a chart's field or a JSON document can hold. Maps
keep the order of their entries and may have keys of any kind.
-/

namespace Taskboard

/-- A value of an attribute. -/
inductive Value where
  | null
  | bool (b : Bool)
  | int (n : Int)
  | real (x : Binary64)
  | text (s : String)
  | date (d : Date)
  | moment (m : Moment)
  | bytes (bs : List UInt8)
  | list (xs : List Value)
  | map (entries : List (Value × Value))
  | set (xs : List Value)
deriving Inhabited

namespace Value

/-- Whether a value counts as something: not null, false, zero, or empty. -/
def isTrue : Value → Bool
  | .null => false
  | .bool b => b
  | .int n => n ≠ 0
  | .real x => !x.same .zero
  | .text s => s ≠ ""
  | .date _ => true
  | .moment _ => true
  | .bytes bs => !bs.isEmpty
  | .list xs => !xs.isEmpty
  | .map es => !es.isEmpty
  | .set xs => !xs.isEmpty

/-- The instant or clock time by which moments are equal. -/
def momentKey (m : Moment) : Bool × Int :=
  (m.offset.isSome, m.micros)

/-- The place of a number on the line, in units of doubles. -/
def numberPlace? : Value → Option Int
  | .bool b => some ((if b then 1 else 0) * unitsPerOne)
  | .int n => some (n * unitsPerOne)
  | .real (.finite s m) => some (Binary64.signedUnits s m)
  | _ => none

/-- The values that are numbers: truth values, whole numbers and reals. -/
def isNumber : Value → Bool
  | .bool _ | .int _ | .real _ => true
  | _ => false

mutual
/-- Equality of values: numbers by value across kinds, lists by position, maps and sets without
regard to order. -/
def same : Value → Value → Bool
  | .null, .null => true
  | .text s, .text t => s = t
  | .date d, .date e => d = e
  | .moment m, .moment n => momentKey m = momentKey n
  | .bytes a, .bytes b => a = b
  | .list xs, .list ys => sameAll xs ys
  | .map es, .map fs => es.length = fs.length && sameEntries es fs
  | .set xs, .set ys => xs.length = ys.length && sameMembers xs ys
  | .real (.infinite s), .real (.infinite t) => s = t
  | a, b =>
    match a.numberPlace?, b.numberPlace? with
    | some p, some q => p = q
    | _, _ => false
  termination_by structural x => x

/-- Two lists with equal members in the same order. -/
def sameAll : List Value → List Value → Bool
  | [], [] => true
  | x :: xs, y :: ys => x.same y && sameAll xs ys
  | _, _ => false
  termination_by structural x => x

/-- Every entry of the first map has an equal one in the second. -/
def sameEntries : List (Value × Value) → List (Value × Value) → Bool
  | [], _ => true
  | (k, v) :: es, fs => fs.any (fun (l, w) => k.same l && v.same w) && sameEntries es fs
  termination_by structural x => x

/-- Every member of the first set has an equal one in the second. -/
def sameMembers : List Value → List Value → Bool
  | [], _ => true
  | x :: xs, ys => ys.any (fun y => x.same y) && sameMembers xs ys
  termination_by structural x => x
end

/-- The value under a text key of a list of entries. -/
def lookup? (key : String) : List (Value × Value) → Option Value
  | [] => none
  | (.text k, v) :: es => if k = key then some v else lookup? key es
  | _ :: es => lookup? key es

/-- The value of a field of a map; a failure for what is no map. -/
def field? (key : String) : Value → Except Fault (Option Value)
  | .map es => .ok (lookup? key es)
  | _ => .error .noOperation

/-- The value under a key of a map, which has to be there. -/
def item (key : String) : Value → Except Fault Value
  | .map es =>
    match lookup? key es with
    | some v => .ok v
    | none => .error .missingField
  | _ => .error .wrongType

/-- The members of a value that has some: of a list or set, the keys of a map, the characters of a
text, the numbers of bytes. -/
def members : Value → Except Fault (List Value)
  | .list xs => .ok xs
  | .set xs => .ok xs
  | .map es => .ok (es.map Prod.fst)
  | .text s => .ok (s.toList.map fun c => .text (String.ofList [c]))
  | .bytes bs => .ok (bs.map fun b => .int b.toNat)
  | _ => .error .wrongType

/-- A value, or another in place of one that counts as nothing. -/
def orElse (v w : Value) : Value := if v.isTrue then v else w

/-- A map with text keys. -/
def object (fields : List (String × Value)) : Value :=
  .map (fields.map fun (k, v) => (.text k, v))

end Value

/-- Entries with one more: the last value of a repeated key wins, in the place of the first. -/
def putEntry {κ α : Type} (eq : κ → κ → Bool) (key : κ) (value : α) :
    List (κ × α) → List (κ × α)
  | [] => [(key, value)]
  | (k, v) :: es => if eq k key then (k, value) :: es else (k, v) :: putEntry eq key value es

/-- A new key is put behind the others. -/
theorem putEntry_new {κ α : Type} {eq : κ → κ → Bool} {key : κ} (value : α) {es : List (κ × α)}
    (h : ∀ e ∈ es, eq e.1 key = false) : putEntry eq key value es = es ++ [(key, value)] := by
  induction es with
  | nil => rfl
  | cons e es ih =>
    obtain ⟨he, hes⟩ := List.forall_mem_cons.1 h
    rw [putEntry, he, if_neg Bool.false_ne_true, ih hes, List.cons_append]

/-- What holds of all entries holds of them afterwards, if it holds of what is put down: the entry
itself, or its value under a key that was there and counts as the same. -/
theorem forall_mem_putEntry {κ α : Type} {P : κ × α → Prop} {eq : κ → κ → Bool} {key : κ}
    {value : α} (hnew : P (key, value))
    (hover : ∀ k v, eq k key = true → P (k, v) → P (k, value)) {es : List (κ × α)}
    (h : ∀ e ∈ es, P e) : ∀ e ∈ putEntry eq key value es, P e := by
  induction es with
  | nil => exact List.forall_mem_singleton.2 hnew
  | cons e es ih =>
    obtain ⟨he, hes⟩ := List.forall_mem_cons.1 h
    rw [putEntry]
    split
    next hkey => exact List.forall_mem_cons.2 ⟨hover _ _ hkey he, hes⟩
    next => exact List.forall_mem_cons.2 ⟨he, ih hes⟩

/-- The first value stored under a key. -/
def entryAt? {α : Type} (key : String) : List (String × α) → Option α
  | [] => none
  | (k, v) :: es => if k = key then some v else entryAt? key es

theorem mem_of_entryAt? {α : Type} {key : String} {v : α} : ∀ {es : List (String × α)},
    entryAt? key es = some v → (key, v) ∈ es
  | (k, w) :: es, h => by
    rw [entryAt?] at h
    split at h
    next hk =>
      cases h
      rw [hk]
      exact List.mem_cons_self
    next => exact List.mem_cons_of_mem _ (mem_of_entryAt? h)

end Taskboard
