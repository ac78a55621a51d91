import Taskboard.Chart.Basic
import Taskboard.Text.Digit
import Taskboard.Text.Find
import Taskboard.Text.Lowercase

/-!
# Chart/Palette — the colours of a schedule

Bars are coloured by their status in lower case. Colours are written as hexadecimal digits, as
functions of channels, as variables of a style sheet, or by name.
-/

namespace Taskboard

/-- Colours by status, later entries before earlier ones of the same status. -/
abbrev Palette := List (String × Value)

namespace Palette

/-- The status of a bar that has none, and the colour of a status without one. -/
def unknown : String := "unknown"

/-- The usual colours. -/
def usual : Palette :=
  [("done", "#67C23A"), ("completed", "#67C23A"), ("progress", "#409EFF"),
    ("in-progress", "#409EFF"), ("todo", "#909399"), ("pending", "#909399"),
    ("blocked", "#F56C6C"), ("cancelled", "#909399"), (unknown, "#C0C4CC")].map
      fun (status, color) => (status, Value.text color)

/-- The colour of a status by a palette or by the usual one. -/
def color? (p : Palette) (status : String) : Option Value :=
  (entryAt? status p.reverse).or (entryAt? status usual)

/-- **The colour of a status**, that of unknown ones where it has none. -/
def color (p : Palette) (status : String) : Value :=
  ((p.color? status).or (p.color? unknown)).getD .null

end Palette

/-! ## Notations of colours -/

/-- The names of colours. -/
def colorNames : List String := [
  "aliceblue", "antiquewhite", "aqua", "aquamarine", "azure", "beige", "bisque", "black",
  "blanchedalmond", "blue", "blueviolet", "brown", "burlywood", "cadetblue", "chartreuse",
  "chocolate", "coral", "cornflowerblue", "cornsilk", "crimson", "cyan", "darkblue", "darkcyan",
  "darkgoldenrod", "darkgray", "darkgrey", "darkgreen", "darkkhaki", "darkmagenta",
  "darkolivegreen", "darkorange", "darkorchid", "darkred", "darksalmon", "darkseagreen",
  "darkslateblue", "darkslategray", "darkslategrey", "darkturquoise", "darkviolet", "deeppink",
  "deepskyblue", "dimgray", "dimgrey", "dodgerblue", "firebrick", "floralwhite", "forestgreen",
  "fuchsia", "gainsboro", "ghostwhite", "gold", "goldenrod", "gray", "grey", "green",
  "greenyellow", "honeydew", "hotpink", "indianred", "indigo", "ivory", "khaki", "lavender",
  "lavenderblush", "lawngreen", "lemonchiffon", "lightblue", "lightcoral", "lightcyan",
  "lightgoldenrodyellow", "lightgray", "lightgrey", "lightgreen", "lightpink", "lightsalmon",
  "lightseagreen", "lightskyblue", "lightslategray", "lightslategrey", "lightsteelblue",
  "lightyellow", "lime", "limegreen", "linen", "magenta", "maroon", "mediumaquamarine",
  "mediumblue", "mediumorchid", "mediumpurple", "mediumseagreen", "mediumslateblue",
  "mediumspringgreen", "mediumturquoise", "mediumvioletred", "midnightblue", "mintcream",
  "mistyrose", "moccasin", "navajowhite", "navy", "oldlace", "olive", "olivedrab", "orange",
  "orangered", "orchid", "palegoldenrod", "palegreen", "paleturquoise", "palevioletred",
  "papayawhip", "peachpuff", "peru", "pink", "plum", "powderblue", "purple", "red", "rosybrown",
  "royalblue", "rebeccapurple", "saddlebrown", "salmon", "sandybrown", "seagreen", "seashell",
  "sienna", "silver", "skyblue", "slateblue", "slategray", "slategrey", "snow", "springgreen",
  "steelblue", "tan", "teal", "thistle", "tomato", "turquoise", "violet", "wheat", "white",
  "whitesmoke", "yellow", "yellowgreen"]

/-- A colour by three or six hexadecimal digits. -/
def isHexColor : List Char → Bool
  | '#' :: ds =>
    (ds.length = 3 || ds.length = 6) && ds.all fun c => c.isDigit || ('a' ≤ c && c ≤ 'f')
  | _ => false

/-- A channel: digits and points, perhaps with a percent sign. -/
def isChannel (cs : List Char) : Bool :=
  let digits := if cs.getLast? = some '%' then cs.dropLast else cs
  !digits.isEmpty && digits.all fun c => isDigit c || c = '.'

/-- Three or four channels in the brackets of a colour function. -/
def isChannelColor (cs : List Char) : Bool :=
  let cs := trimWhile isBlank cs
  let head := cs.takeWhile (· ≠ '(')
  let body := cs.drop (head.length + 1)
  let channels := partsAt ',' body.dropLast
  ["rgb", "rgba", "hsl", "hsla", "hsv", "hsva"].contains (String.ofList head)
    && body.getLast? = some ')' && (channels.length = 3 || channels.length = 4)
    && channels.all isChannel

/-- A variable of a style sheet. -/
def isVariableColor (cs : List Char) : Bool :=
  "var(--".toList.isPrefixOf cs && 7 ≤ cs.length && cs.getLast? = some ')' && !cs.contains '\n'

/-- **Whether a text is a colour**; spaces and case do not count. -/
def isColor (s : String) : Bool :=
  let t := lowerText (String.ofList (s.toList.filter (· ≠ ' ')))
  let cs := t.toList
  isHexColor cs || isChannelColor cs || isVariableColor cs || colorNames.contains t

end Taskboard
