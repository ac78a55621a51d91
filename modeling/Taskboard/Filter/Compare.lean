import Taskboard.Pattern.Reader
import Taskboard.Pattern.Search
import Taskboard.Text.Find
import Taskboard.Value.Number

/-!
# Filter/Compare — a value against an operand

`compareValues` tells whether a value stands in a relation to an operand. The relation is named by
an operator: four compare numbers, one looks for a pattern, and the others compare the captions of
both sides without regard to case. An operator of no known name holds for nothing.
-/

namespace Taskboard

/-- How a value is compared with an operand. -/
inductive Comparison where
  | greater
  | less
  | greaterOrEqual
  | lessOrEqual
  | pattern
  | equal
  | unequal
  | contains
  | startsWith
  | endsWith
deriving DecidableEq, Repr

namespace Comparison

/-- The comparison that an operator names. -/
def ofOperator? : String → Option Comparison
  | ">" => some .greater
  | "<" => some .less
  | ">=" => some .greaterOrEqual
  | "<=" => some .lessOrEqual
  | "regex" => some .pattern
  | "==" => some .equal
  | "!=" => some .unequal
  | "contains" => some .contains
  | "starts_with" => some .startsWith
  | "ends_with" => some .endsWith
  | _ => none

end Comparison

/-- The number at the start of a value's text. Truth values have none, numbers are themselves. -/
def Value.leadingNumber : Value → Except Fault (Option Binary64)
  | .bool _ => .ok none
  | .int n => (Value.int n).toReal.map some
  | .real x => .ok (some x)
  | v => v.shown.bind fun s =>
    match leadingNumberText? s with
    | none => .ok none
    | some t => (readReal t).map some

/-- Compares two values as numbers; false where one has none. -/
def compareNumbers (holds : Binary64 → Binary64 → Bool) (value operand : Value) :
    Except Fault Bool :=
  value.leadingNumber.bind fun a => operand.leadingNumber.map fun b =>
    match a, b with
    | some x, some y => holds x y
    | _, _ => false

/-- The failure of a pattern that is not merely malformed. -/
def PatternFault.fault? : PatternFault → Option Fault
  | .malformed => none
  | .countTooLarge => some .numberTooLarge
  | .countTooLong => some .tooManyDigits
  | .flagsExclude => some .flagsExclude

/-- Looks for a pattern in a value's caption without regard to case. A malformed pattern occurs
nowhere. -/
def matchesPattern (value operand : Value) : Except Fault Bool :=
  operand.shown.bind fun pattern => value.caption.bind fun text =>
    match Pattern.read [.ignoreCase] pattern with
    | .ok p => .ok (p.pattern.occursIn p.groups p.flags text)
    | .error e =>
      match e.fault? with
      | some f => .error f
      | none => .ok false

/-- Compares the captions of two values in lower case. -/
def compareCaptions (holds : String → String → Bool) (value operand : Value) : Except Fault Bool :=
  value.caption.bind fun a => operand.caption.map fun b => holds (lowerText a) (lowerText b)

/-- **Whether a value stands in the relation that an operator names to an operand.** -/
def compareValues (value : Value) (operator : String) (operand : Value) : Except Fault Bool :=
  match Comparison.ofOperator? operator with
  | some .greater => compareNumbers (fun x y => y.lt x) value operand
  | some .less => compareNumbers (fun x y => x.lt y) value operand
  | some .greaterOrEqual => compareNumbers (fun x y => y.le x) value operand
  | some .lessOrEqual => compareNumbers (fun x y => x.le y) value operand
  | some .pattern => matchesPattern value operand
  | some .equal => compareCaptions (fun a b => a = b) value operand
  | some .unequal => compareCaptions (fun a b => a ≠ b) value operand
  | some .contains => compareCaptions (fun a b => contains b a) value operand
  | some .startsWith => compareCaptions (fun a b => startsWith b a) value operand
  | some .endsWith => compareCaptions (fun a b => endsWith b a) value operand
  | none => compareCaptions (fun _ _ => false) value operand

end Taskboard
