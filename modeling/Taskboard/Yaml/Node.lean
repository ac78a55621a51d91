import Taskboard.Yaml.Schema
import Taskboard.Yaml.Token

/-!
# Yaml/Node — the tree of a YAML document

`Node.ofTokens` builds the tree of a text that holds one document at most. Every node carries a tag:
the one that is written, or the one that follows from its kind and, for plain scalars, from the
spelling. An alias is replaced by the node of its anchor, which must have ended before.
-/

namespace Taskboard.Yaml

/-- The tags of the basic schema. -/
inductive Tag where
  | plain (kind : PlainKind)
  | list
  | map
  | set
  | bytes
  /-- A list of single entries. -/
  | pairs
  /-- A tag of no known meaning. -/
  | other (name : String)
deriving DecidableEq, Repr

namespace Tag

/-- What the names of the basic tags begin with. -/
def basicStart : String := "tag:yaml.org,2002:"

/-- The tag of a full name. -/
def ofName (name : String) : Tag :=
  if name.startsWith basicStart then
    match (name.drop basicStart.length).toString with
    | "null" => .plain .null
    | "bool" => .plain .bool
    | "int" => .plain .int
    | "float" => .plain .real
    | "timestamp" => .plain .time
    | "str" => .plain .text
    | "merge" => .plain .merge
    | "value" => .plain .default
    | "binary" => .bytes
    | "seq" => .list
    | "map" => .map
    | "set" => .set
    | "omap" => .pairs
    | "pairs" => .pairs
    | _ => .other name
  else .other name

end Tag

/-- A node of a document. -/
inductive Node where
  | scalar (tag : Tag) (text : String)
  | list (tag : Tag) (items : List Node)
  | map (tag : Tag) (entries : List (Node × Node))

namespace Node

/-- The node of a missing value. -/
def missing : Node := .scalar (.plain .null) ""

def tag : Node → Tag
  | .scalar t _ => t
  | .list t _ => t
  | .map t _ => t

/-- What is known while nodes are read. -/
structure Scope where
  /-- The expansions of the handles of tags. -/
  handles : List (String × String)
  /-- All anchors seen. -/
  anchors : List String
  /-- The nodes of the anchors that have ended. -/
  nodes : List (String × Node)

/-- The handles that need no directive. -/
def defaultHandles : List (String × String) := [("!", "!"), ("!!", Tag.basicStart)]

/-- The properties before a node. -/
structure Properties where
  anchor : Option String
  tag : Option TagName

/-- The properties that the tokens begin with. -/
def takeProperties : List Token → Properties × List Token
  | .anchor a :: .tag t :: ts => (⟨some a, some t⟩, ts)
  | .tag t :: .anchor a :: ts => (⟨some a, some t⟩, ts)
  | .anchor a :: ts => (⟨some a, none⟩, ts)
  | .tag t :: ts => (⟨none, some t⟩, ts)
  | ts => (⟨none, none⟩, ts)

/-- The written tag of a node; none where it follows from the node. -/
def writtenTag (scope : Scope) : Option TagName → Read (Option Tag)
  | none => .ok none
  | some t =>
    match t.handle with
    | none => .ok (if t.suffix = "!" then none else some (Tag.ofName t.suffix))
    | some h =>
      match scope.handles.lookup h with
      | some e => .ok (if e ++ t.suffix = "!" then none else some (Tag.ofName (e ++ t.suffix)))
      | none => malformed

/-- The tag of a scalar: written, or by its spelling where it is plain or marked by a lone
exclamation mark. -/
def scalarTag (written : Option Tag) (marked plain : Bool) (text : String) : Tag :=
  match written with
  | some t => t
  | none => if plain || marked then .plain (PlainKind.ofText text) else .plain .text

/-- A node with what stands behind it. -/
abbrev NodeRead (α : Type) := Read (α × Scope × List Token)

/-- Notes an anchor that begins; a second one of its name is an error. -/
def openAnchor (scope : Scope) : Option String → Read Scope
  | none => .ok scope
  | some a =>
    if scope.anchors.contains a then malformed else .ok { scope with anchors := a :: scope.anchors }

/-- Notes the node of an anchor that ends. -/
def closeAnchor (anchor : Option String) (r : Node × Scope × List Token) :
    Node × Scope × List Token :=
  match anchor with
  | none => r
  | some a => (r.1, { r.2.1 with nodes := (a, r.1) :: r.2.1.nodes }, r.2.2)

/-- Whether a value is left out before a token of a block map. -/
def endsBlockValue : Token → Bool
  | .key | .value | .blockEnd => true
  | _ => false

/-- Whether an entry is left out before a token of a block list. -/
def endsBlockEntry : Token → Bool
  | .entry | .blockEnd => true
  | _ => false

/-- Whether an entry is left out before a token of a list without a block of its own. -/
def endsLooseEntry (t : Token) : Bool := t = .entry || endsBlockValue t

/-- Whether a node is left out before a token inside brackets. -/
def endsFlowNode (close : Token) (colonEnds : Bool) (t : Token) : Bool :=
  t = .comma || t = close || (colonEnds && t = .value)

/-- The node of properties with nothing behind them. -/
def emptyScalar (written : Option Tag) : Node := .scalar (written.getD (.plain .null)) ""

/-- Past the comma before an entry in brackets; the first entry has none. -/
def skipComma (first : Bool) : List Token → Read (List Token)
  | .comma :: ts => .ok (if first then .comma :: ts else ts)
  | ts => if first then .ok ts else malformed

/-- Whether the next token passes a test; the end of the tokens does not. -/
def nextIs (p : Token → Bool) (ts : List Token) : Bool := ts.head?.any p

mutual
/-- One node. In blocks it may be a block, and as the value of a key a list without a block of its
own. -/
def readNode : Nat → Bool → Bool → Scope → List Token → NodeRead Node
  | 0, _, _, _, _ => malformed
  | fuel + 1, block, loose, scope, ts =>
    match ts with
    | .alias a :: ts =>
      match scope.nodes.lookup a with
      | some n => .ok (n, scope, ts)
      | none => malformed
    | _ =>
      let (props, rest) := takeProperties ts
      (writtenTag scope props.tag).bind fun written =>
        (openAnchor scope props.anchor).bind fun scope =>
          (readContent fuel block loose (props.anchor.isSome || props.tag.isSome) written
            (props.tag.isSome && written.isNone) scope rest).map (closeAnchor props.anchor)

/-- The content of a node behind its properties. -/
def readContent : Nat → Bool → Bool → Bool → Option Tag → Bool → Scope → List Token →
    NodeRead Node
  | 0, _, _, _, _, _, _, _ => malformed
  | fuel + 1, block, loose, hasProps, written, marked, scope, ts =>
    match ts with
    | .entry :: _ =>
      if loose then (readLoose fuel scope ts).map fun (ns, r) => (.list (written.getD .list) ns, r)
      else if hasProps then .ok (emptyScalar written, scope, ts)
      else malformed
    | .scalar s plain :: ts => .ok (.scalar (scalarTag written marked plain s) s, scope, ts)
    | .listOpen :: ts =>
      (readFlowList fuel true scope ts).map fun (ns, r) => (.list (written.getD .list) ns, r)
    | .mapOpen :: ts =>
      (readFlowMap fuel true scope ts).map fun (es, r) => (.map (written.getD .map) es, r)
    | .blockList :: rest =>
      if block then
        (readBlockList fuel scope rest).map fun (ns, r) => (.list (written.getD .list) ns, r)
      else if hasProps then .ok (emptyScalar written, scope, ts)
      else malformed
    | .blockMap :: rest =>
      if block then
        (readBlockMap fuel scope rest).map fun (es, r) => (.map (written.getD .map) es, r)
      else if hasProps then .ok (emptyScalar written, scope, ts)
      else malformed
    | _ => if hasProps then .ok (emptyScalar written, scope, ts) else malformed

/-- The entries of a block list. -/
def readBlockList : Nat → Scope → List Token → NodeRead (List Node)
  | 0, _, _ => malformed
  | fuel + 1, scope, ts =>
    match ts with
    | .entry :: ts =>
      if nextIs endsBlockEntry ts then
        (readBlockList fuel scope ts).map fun (ns, r) => (missing :: ns, r)
      else
        (readNode fuel true false scope ts).bind fun (n, scope, ts) =>
          (readBlockList fuel scope ts).map fun (ns, r) => (n :: ns, r)
    | .blockEnd :: ts => .ok ([], scope, ts)
    | _ => malformed

/-- The entries of a list without a block of its own. -/
def readLoose : Nat → Scope → List Token → NodeRead (List Node)
  | 0, _, _ => malformed
  | fuel + 1, scope, ts =>
    match ts with
    | .entry :: ts =>
      if nextIs endsLooseEntry ts then
        (readLoose fuel scope ts).map fun (ns, r) => (missing :: ns, r)
      else
        (readNode fuel true false scope ts).bind fun (n, scope, ts) =>
          (readLoose fuel scope ts).map fun (ns, r) => (n :: ns, r)
    | _ => .ok ([], scope, ts)

/-- The entries of a block map. -/
def readBlockMap : Nat → Scope → List Token → NodeRead (List (Node × Node))
  | 0, _, _ => malformed
  | fuel + 1, scope, ts =>
    match ts with
    | .key :: ts =>
      (readBlockPart fuel scope ts).bind fun (k, scope, ts) =>
        (match ts with
          | .value :: ts => readBlockPart fuel scope ts
          | _ => .ok (missing, scope, ts)).bind fun (v, scope, ts) =>
          (readBlockMap fuel scope ts).map fun (es, r) => ((k, v) :: es, r)
    | .blockEnd :: ts => .ok ([], scope, ts)
    | _ => malformed

/-- A key or a value of a block map, which may be left out. -/
def readBlockPart : Nat → Scope → List Token → NodeRead Node
  | 0, _, _ => malformed
  | fuel + 1, scope, ts =>
    if nextIs endsBlockValue ts then .ok (missing, scope, ts) else readNode fuel true true scope ts

/-- The entries of a list in brackets; an entry may be a key with a value. -/
def readFlowList : Nat → Bool → Scope → List Token → NodeRead (List Node)
  | 0, _, _, _ => malformed
  | fuel + 1, first, scope, ts =>
    match ts with
    | .listClose :: ts => .ok ([], scope, ts)
    | _ =>
      (skipComma first ts).bind fun ts =>
        match ts with
        | .key :: ts =>
          (readFlowPart fuel .listClose true scope ts).bind fun (k, scope, ts) =>
            (readFlowValue fuel .listClose scope ts).bind fun (v, scope, ts) =>
              (readFlowList fuel false scope ts).map fun (ns, r) => (.map .map [(k, v)] :: ns, r)
        | .listClose :: ts => .ok ([], scope, ts)
        | ts =>
          (readNode fuel false false scope ts).bind fun (n, scope, ts) =>
            (readFlowList fuel false scope ts).map fun (ns, r) => (n :: ns, r)

/-- The entries of a map in braces. -/
def readFlowMap : Nat → Bool → Scope → List Token → NodeRead (List (Node × Node))
  | 0, _, _, _ => malformed
  | fuel + 1, first, scope, ts =>
    match ts with
    | .mapClose :: ts => .ok ([], scope, ts)
    | _ =>
      (skipComma first ts).bind fun ts =>
        match ts with
        | .key :: ts =>
          (readFlowPart fuel .mapClose true scope ts).bind fun (k, scope, ts) =>
            (readFlowValue fuel .mapClose scope ts).bind fun (v, scope, ts) =>
              (readFlowMap fuel false scope ts).map fun (es, r) => ((k, v) :: es, r)
        | .mapClose :: ts => .ok ([], scope, ts)
        | ts =>
          (readNode fuel false false scope ts).bind fun (k, scope, ts) =>
            (readFlowMap fuel false scope ts).map fun (es, r) => ((k, missing) :: es, r)

/-- A key or a value inside brackets, which may be left out. -/
def readFlowPart : Nat → Token → Bool → Scope → List Token → NodeRead Node
  | 0, _, _, _, _ => malformed
  | fuel + 1, close, colonEnds, scope, ts =>
    if nextIs (endsFlowNode close colonEnds) ts then .ok (missing, scope, ts)
    else readNode fuel false false scope ts

/-- A value inside brackets behind its colon; without a colon it is left out. -/
def readFlowValue : Nat → Token → Scope → List Token → NodeRead Node
  | 0, _, _, _ => malformed
  | fuel + 1, close, scope, ts =>
    match ts with
    | .value :: ts => readFlowPart fuel close false scope ts
    | _ => .ok (missing, scope, ts)
end
/-! ## Documents -/

/-- The handles that directives declare, in addition to the default ones. -/
def declaredHandles (versioned : Bool) (handles : List (String × String)) :
    List Token → Read (List (String × String) × List Token)
  | .directive (.version major) :: ts =>
    if versioned || major ≠ 1 then malformed else declaredHandles true handles ts
  | .directive (.tag h e) :: ts =>
    if (handles.lookup h).isSome then malformed
    else declaredHandles versioned ((h, e) :: handles) ts
  | .directive .other :: ts => declaredHandles versioned handles ts
  | ts => .ok (handles ++ defaultHandles, ts)

/-- Whether a document is empty before a token. -/
def endsDocument : Token → Bool
  | .directive _ | .documentStart | .documentEnd | .streamEnd => true
  | _ => false

/-- Nothing but marks of the document's end and the end of the text. -/
def isStreamEnd : List Token → Bool
  | .documentEnd :: ts => isStreamEnd ts
  | [.streamEnd] => true
  | _ => false

/-- The node of the first document, and the tokens behind it. -/
def firstDocument (ts : List Token) : Read (Option Node × List Token) :=
  let fuel := 4 * ts.length + 4
  if ts = [.streamEnd] then .ok (none, ts)
  else if nextIs (fun t => endsDocument t && t ≠ .documentEnd) ts then
    (declaredHandles false [] ts).bind fun (handles, ts) =>
      match ts with
      | .documentStart :: ts =>
        if nextIs endsDocument ts then .ok (some missing, ts)
        else (readNode fuel true false ⟨handles, [], []⟩ ts).map fun (n, _, ts) => (some n, ts)
      | _ => malformed
  else
    (readNode fuel true false ⟨defaultHandles, [], []⟩ ts).map fun (n, _, ts) => (some n, ts)

/-- **The node of a text's only document**, none for an empty text. -/
def ofTokens (ts : List Token) : Read (Option Node) :=
  (firstDocument ts).bind fun (n, ts) => if isStreamEnd ts then .ok n else malformed

end Node

end Taskboard.Yaml
