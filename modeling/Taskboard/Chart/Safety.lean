import Taskboard.Chart.Figure
import Taskboard.Json.Writer

/-!
# Chart/Safety — figures that leave the library

A figure leaves as plain JSON (`Figure.sanitize`) and only without executable text. The check
(`Figure.flaw?`) looks for its marks in the figure's JSON document. `Chart.render` does both, and
`Chart.document` writes what it gives.
-/

namespace Taskboard

namespace Figure

/-! ## Plain JSON -/

mutual
/-- A value of JSON without what has no JSON number: it becomes null. Of repeated keys the last
value counts, in the place of the first. -/
def strict : Value → Value
  | .real x => if x.isFinite then .real x else .null
  | .list xs => .list (strictAll xs)
  | .map es => .map (strictEntries [] es)
  | v => v
  termination_by structural v => v

/-- The members of a list without such numbers. -/
def strictAll : List Value → List Value
  | [] => []
  | v :: vs => strict v :: strictAll vs
  termination_by structural vs => vs

/-- The entries of a map without such numbers, put to those before. -/
def strictEntries (done : List (Value × Value)) : List (Value × Value) → List (Value × Value)
  | [] => done
  | (k, v) :: es => strictEntries (putEntry Value.same k (strict v) done) es
  termination_by structural es => es
end

/-- **The plain JSON of a figure**: keys are texts, dates are ISO 8601 texts, and numbers that JSON
cannot write are null. -/
def sanitize (v : Value) : Except Fault Value := (Json.plain Json.isoDates v).map strict

/-! ## Documents -/

/-- What a document calls the numbers that JSON lacks. -/
def lackingNames : List String := ["NaN", "Infinity"]

/-- Whether a document has the name of a number that JSON lacks, be it within a text. -/
def namesLacking (document : String) : Bool := lackingNames.any fun n => contains n document

/-- What is written of a plain figure: the figure as it is, but without such numbers and with each
key once where its document would have the name of such a number. -/
def documented (v : Value) : Value :=
  if namesLacking (Json.writeAt Json.compactLayout 0 v) then strict v else v

/-- **The JSON document of a figure**, on one line and ASCII only. -/
def document (v : Value) : Except Fault String :=
  (Json.plain Json.isoDates v).map fun p => Json.writeAt Json.compactLayout 0 (documented p)

/-! ## Executable text -/

/-- What executable text begins with. -/
def unsafeMarkers : List String := ["function(", "eval(", "Function("]

/-- Why a figure is not shown. -/
inductive Flaw where
  | empty
  | noTraces
  /-- It carries executable text. -/
  | executable
deriving DecidableEq, Repr

namespace Flaw

def message : Flaw → String
  | .empty => "Option is empty"
  | .noTraces => "Series array is missing or empty"
  | .executable => "Option contains potentially malicious code"

end Flaw

/-- Whether a text carries a mark of executable text. -/
def hasMarker (s : String) : Bool := unsafeMarkers.any fun m => contains m s

/-- Whether a value is a list with members. -/
def isFilledList : Value → Bool
  | .list xs => !xs.isEmpty
  | _ => false

/-- **The flaw of a figure**, if it has one. -/
def flaw? (v : Value) : Except Fault (Option Flaw) :=
  if !v.isTrue then .ok (some .empty)
  else (v.field? "data").bind fun data =>
    if isFilledList (data.getD .null) then
      (document v).map fun s => if hasMarker s then some .executable else none
    else .ok (some .noTraces)

end Figure

namespace Chart

/-- **The figure of a chart as plain JSON**, refused if it carries executable text. -/
def render (style : FigureStyle) (c : Chart) : Except Fault Value := do
  let figure ← Figure.sanitize (← c.figure style)
  match ← Figure.flaw? figure with
  | some .executable => .error .unsafeFigure
  | _ => pure figure

/-- The figure of a chart as a JSON document. -/
def document (style : FigureStyle) (c : Chart) : Except Fault String :=
  (c.render style).bind Figure.document

end Chart

end Taskboard
