import Taskboard.Number.FixedPlaces
import Taskboard.Value.Text

/-!
# Value/Number — values as numbers

`Value.toReal` reads a value as a double and `Value.toInt` as a whole number, texts included;
`Value.formatted` and its kin write a number for a chart.
-/

namespace Taskboard.Value

/-- Bytes as ASCII text; what is not ASCII becomes a mark that stands in no number. -/
def asciiOf (bs : List UInt8) : String :=
  String.ofList (bs.map fun b => if b < 128 then Char.ofNat b.toNat else '?')

/-- A value as a double: numbers by value, texts by reading. -/
def toReal : Value → Except Fault Binary64
  | .bool b => .ok (Binary64.ofInt (if b then 1 else 0))
  | .int n => (Binary64.ofInt? n).elim (.error .numberTooLarge) .ok
  | .real x => .ok x
  | .text s => readReal s
  | .bytes bs => readReal (asciiOf bs)
  | _ => .error .wrongType

/-- A value as a whole number: reals lose their fraction, texts are read. -/
def toInt : Value → Except Fault Int
  | .bool b => .ok (if b then 1 else 0)
  | .int n => .ok n
  | .real (.finite s m) => .ok ((Binary64.finite s m).truncate?.getD 0)
  | .real (.infinite _) => .error .infiniteWhole
  | .real .nan => .error .undefinedWhole
  | .text s => readInt s
  | .bytes bs => readInt (asciiOf bs)
  | _ => .error .wrongType

/-- A number with a fixed count of places. -/
def fixedPlaces (places : Nat) : Value → Except Fault String
  | .real x => .ok (x.fixed places)
  | .int n =>
    (Binary64.ofInt? n).elim (.error .numberTooLarge) fun x => .ok (x.fixed places)
  | .bool b => .ok ((Binary64.ofInt (if b then 1 else 0)).fixed places)
  | .text _ => .error .unformattable
  | _ => .error .wrongType

/-- A whole value without a point, any other with the given count of places. -/
def compactNumber (places : Nat) (v : Value) : Except Fault String :=
  v.toReal.bind fun x =>
    if x.isWhole then v.toInt.bind wholeText else v.fixedPlaces places

/-- The text of a chart's value: whole numbers as they are, others to two places. -/
def formatted (v : Value) : Except Fault String := v.compactNumber 2

/-- The place of a number on the line: on which side of all finite ones, then the units; none for
what is undefined. -/
def linePlace : Value → Except Fault (Option (Int × Int))
  | .bool b => .ok (some (0, (if b then 1 else 0) * unitsPerOne))
  | .int n => .ok (some (0, n * unitsPerOne))
  | .real (.finite s m) => .ok (some (0, Binary64.signedUnits s m))
  | .real (.infinite s) => .ok (some (if s then -1 else 1, 0))
  | .real .nan => .ok none
  | _ => .error .wrongType

/-- Whether a number is less than another; an undefined one is less than nothing. -/
def lessThan : Value → Value → Except Fault Bool
  | a, b =>
    match linePlace a, linePlace b with
    | .ok (some (i, p)), .ok (some (j, q)) => .ok (i < j || (i = j && p < q))
    | .ok _, .ok _ => .ok false
    | _, _ => .error .wrongType

/-- The greatest of some numbers and zero: the first that no later one exceeds. -/
def greatest (vs : List Value) : Except Fault Value :=
  match vs ++ [.int 0] with
  | [] => .ok (.int 0)
  | v :: rest => rest.foldlM (fun top v => (top.lessThan v).map fun b => if b then v else top) v

/-- A number and a whole one together. -/
def plus (n : Int) : Value → Except Fault Value
  | .int m => .ok (.int (m + n))
  | .bool b => .ok (.int ((if b then 1 else 0) + n))
  | .real x => .ok (.real (x + Binary64.ofInt n))
  | _ => .error .wrongType

/-- The least whole number not below a number. -/
def ceiling : Value → Except Fault Int
  | .int m => .ok m
  | .bool b => .ok (if b then 1 else 0)
  | .real .nan => .error .undefinedWhole
  | .real (.infinite _) => .error .infiniteWhole
  | .real (.finite s m) => .ok ((Binary64.ceil? (.finite s m)).getD 0)
  | _ => .error .wrongType

end Taskboard.Value
