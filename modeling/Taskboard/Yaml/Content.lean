import Taskboard.Text.Base64
import Taskboard.Text.Lowercase
import Taskboard.Value.Number
import Taskboard.Yaml.Node

/-!
# Yaml/Content — the value of a YAML text

`Yaml.read` gives the value of a text. Maps take in the entries of the maps under their merge keys
first, a repeated key keeps its first place and its last value, and the keys of a map must be single
values. Where several parts are faulty the outermost one decides, of equally deep ones the first.
-/

namespace Taskboard.Yaml

/-- A failure with its depth in the tree. -/
abbrev DeepFault := Nat × YamlFault

/-- A value or a failure at some depth. -/
abbrev Content (α : Type) := Except DeepFault α

/-- Two contents together; of two failures the less deep one counts, else the first. -/
def both {α β : Type} (a : Content α) (b : Content β) : Content (α × β) :=
  match a, b with
  | .ok x, .ok y => .ok (x, y)
  | .error e, .ok _ => .error e
  | .ok _, .error f => .error f
  | .error e, .error f => .error (if f.1 < e.1 then f else e)

def faultAt {α : Type} (depth : Nat) (f : YamlFault) : Content α := .error (depth, f)

/-! ## Scalars -/

/-- A failure to read a scalar. -/
def badScalar {α : Type} (f : Fault) : Except YamlFault α := .error (.badValue f)

/-- A number in a base, with a sign and the mark of the base, and blanks around it. -/
def readBased (base : Nat) (mark : Char) (cs : List Char) : Except Fault Int :=
  let (negative, body) := takeSign (trimWhile isAsciiPadding (normalizeNumber cs))
  let ds := match body with
    | '0' :: m :: r => if m = mark || m = mark.toUpper then r else body
    | _ => body
  let number := ds.foldl (fun acc c => acc.bind fun n => (Json.hexValue? c).bind fun v =>
    if v < base then some (n * base + v) else none) (some 0)
  match number with
  | some n =>
    if ds.isEmpty then .error .unreadableNumber else .ok (if negative then -(n : Int) else n)
  | none => .error .unreadableNumber

/-- The places of sixty as one number. -/
def sixtyValue (places : List Int) : Int := places.foldl (fun n p => n * 60 + p) 0

/-- The members of a list by a function that may fail. -/
def eachOf {α β ε : Type} (f : α → Except ε β) : List α → Except ε (List β)
  | [] => .ok []
  | x :: xs => (f x).bind fun y => (eachOf f xs).map (y :: ·)

/-- A whole number in any of the notations. -/
def readWhole (s : String) : Except Fault Int :=
  let cs := s.toList.filter (· ≠ '_')
  match cs with
  | [] => .error .noSuchIndex
  | c :: rest =>
    let negative := c = '-'
    let body := if c = '-' || c = '+' then rest else cs
    let signed (r : Except Fault Int) : Except Fault Int :=
      r.map fun n => if negative then -n else n
    match body with
    | [] => .error .noSuchIndex
    | ['0'] => .ok 0
    | '0' :: 'b' :: ds => signed (readBased 2 'b' ds)
    | '0' :: 'x' :: ds => signed (readBased 16 'x' ds)
    | '0' :: ds => signed (readBased 8 'o' ('0' :: ds))
    | body =>
      if body.contains ':' then
        signed ((eachOf (fun p => readInt (String.ofList p)) (partsAt ':' body)).map sixtyValue)
      else signed (readInt (String.ofList body))

/-- Places of sixty as one real, summed from the last place on. -/
def sixtyReal (places : List Binary64) : Except Fault Binary64 :=
  addSixties .zero 1 places.reverse
where
  /-- Adds places of growing weight, the last one first. -/
  addSixties (sum : Binary64) (weight : Int) : List Binary64 → Except Fault Binary64
    | [] => .ok sum
    | p :: ps =>
      match Binary64.ofInt? weight with
      | some w => addSixties (sum + p * w) (weight * 60) ps
      | none => .error .numberTooLarge

/-- A real in any of the notations. -/
def readRealScalar (s : String) : Except Fault Binary64 :=
  let cs := (lowerText (String.ofList (s.toList.filter (· ≠ '_')))).toList
  match cs with
  | [] => .error .noSuchIndex
  | c :: rest =>
    let body := if c = '-' || c = '+' then rest else cs
    let signed (x : Binary64) : Binary64 := if c = '-' then -x else x
    let text := String.ofList body
    if text = ".inf" then .ok (signed (.infinite false))
    else if text = ".nan" then .ok .nan
    else if body.contains ':' then
      ((eachOf (fun p => readReal (String.ofList p)) (partsAt ':' body)).bind sixtyReal).map
        signed
    else (readReal text).map signed

/-- Whether a word of truth values says true, none for other words. -/
def readBool? (s : String) : Option Bool :=
  match lowerText s with
  | "yes" | "true" | "on" => some true
  | "no" | "false" | "off" => some false
  | _ => none

/-- A date or moment by its parts. -/
def timeValue (t : TimeParts) : Except Fault Value :=
  match Date.ofParts? t.year t.month t.day with
  | none => .error .timeOutOfRange
  | some d =>
    match t.clock with
    | none => .ok (.date d)
    | some (h, m, s, fraction, offset) =>
      let micro := digitsValue ((fraction ++ List.replicate 6 '0').take 6)
      if Moment.offsetInRange (offset.getD 0) then
        match Moment.ofParts? d h m s micro offset with
        | some moment => .ok (.moment moment)
        | none => .error .timeOutOfRange
      else .error .offsetOutOfRange

/-- A date or moment in the notation of timestamps. -/
def readTime (s : String) : Except Fault Value :=
  match TimeParts.ofChars? (dropFinalBreak s) with
  | some t => timeValue t
  | none => .error .noOperation

/-- The value of a scalar under its tag. -/
def scalarValue (tag : Tag) (s : String) : Read Value :=
  let value (r : Except Fault Value) : Read Value :=
    match r with
    | .ok v => .ok v
    | .error e => badScalar e
  match tag with
  | .plain .null => .ok .null
  | .plain .bool =>
    match readBool? s with
    | some b => .ok (.bool b)
    | none => badScalar .missingField
  | .plain .int => value ((readWhole s).map .int)
  | .plain .real => value ((readRealScalar s).map .real)
  | .plain .time => value (readTime s)
  | .plain .text => .ok (.text s)
  | .bytes =>
    if s.toList.all (·.toNat < 128) then
      match Base64.decode? s with
      | some bs => .ok (.bytes bs)
      | none => malformed
    else malformed
  | _ => malformed

/-! ## Merging -/

/-- The key of an entry as an ordinary one, where it is a default key. -/
def ordinaryKey : Node → Node
  | .scalar (.plain .default) s => .scalar (.plain .text) s
  | k => k

mutual
/-- A node in which every map has taken in what its merge keys bring. -/
def unmerge : Node → Read Node
  | .scalar t s => .ok (.scalar t s)
  | .list t ns => (unmergeAll ns).map (.list t)
  | .map t es =>
    if t = .map || t = .set then
      (unmergedUnder es).bind fun front => (unmergeEntries es).map fun own => .map t (front ++ own)
    else .ok (.map t es)
  termination_by structural n => n

/-- The nodes of a list without merge keys. -/
def unmergeAll : List Node → Read (List Node)
  | [] => .ok []
  | n :: ns => (unmerge n).bind fun m => (unmergeAll ns).map (m :: ·)
  termination_by structural ns => ns

/-- The own entries of a map. -/
def unmergeEntries : List (Node × Node) → Read (List (Node × Node))
  | [] => .ok []
  | (k, v) :: es =>
    if k.tag = .plain .merge then unmergeEntries es
    else (unmerge k).bind fun k => (unmerge v).bind fun v =>
      (unmergeEntries es).map ((ordinaryKey k, v) :: ·)
  termination_by structural es => es

/-- The entries that merge keys bring in, without merge keys of their own. -/
def unmergedUnder : List (Node × Node) → Read (List (Node × Node))
  | [] => .ok []
  | (k, v) :: es =>
    if k.tag = .plain .merge then
      (unmergedFrom v).bind fun front => (unmergedUnder es).map (front ++ ·)
    else unmergedUnder es
  termination_by structural es => es

/-- The entries of a map, or of a list of maps, under a merge key. -/
def unmergedFrom : Node → Read (List (Node × Node))
  | .map _ es => (unmergedUnder es).bind fun front => (unmergeEntries es).map (front ++ ·)
  | .list _ ns => unmergedFromAll ns
  | .scalar _ _ => malformed
  termination_by structural n => n

/-- The entries of the maps of a list, those of the last map first. -/
def unmergedFromAll : List Node → Read (List (Node × Node))
  | [] => .ok []
  | n :: ns =>
    match n with
    | .map _ es =>
      (unmergedUnder es).bind fun front => (unmergeEntries es).bind fun own =>
        (unmergedFromAll ns).map (· ++ (front ++ own))
    | _ => malformed
  termination_by structural ns => ns
end

/-! ## Values -/

/-- The text of a scalar; a map that stands for one has it under its default key. -/
def scalarText? : Node → Option String
  | .scalar _ s => some s
  | .map _ es => defaultText? es
  | .list _ _ => none
where
  /-- The text under the default key. -/
  defaultText? : List (Node × Node) → Option String
    | [] => none
    | (k, v) :: es => if k.tag = .plain .default then scalarText? v else defaultText? es

/-- Whether a tag is one of scalars. -/
def Tag.isScalar : Tag → Bool
  | .plain _ | .bytes => true
  | _ => false

/-- Whether a tag is known. -/
def Tag.isKnown : Tag → Bool
  | .plain .merge | .plain .default | .other _ => false
  | _ => true

/-- Whether a node can be a key of a map. -/
def isSingle (n : Node) : Bool := n.tag.isScalar

/-- The value of a node whose tag does not fit its form. -/
def misfit (depth : Nat) (tag : Tag) (text : Option String) : Content Value :=
  if tag.isScalar then
    match text with
    | some s =>
      match scalarValue tag s with
      | .ok v => .ok v
      | .error e => faultAt depth e
    | none => faultAt depth .malformed
  else faultAt (if tag.isKnown then depth + 1 else depth) .malformed

mutual
/-- The value of a node at a depth of the tree. -/
def content (depth : Nat) : Node → Content Value
  | .scalar tag s => misfit depth tag (some s)
  | .list tag ns =>
    if tag = .list then (contents (depth + 1) ns).map .list
    else if tag = .pairs then (pairContents (depth + 1) ns).map .list
    else misfit depth tag none
  | .map tag es =>
    if tag = .map then (entryContents (depth + 1) [] es).map .map
    else if tag = .set then (entryContents (depth + 1) [] es).map fun es => .set (es.map Prod.fst)
    else misfit depth tag (scalarText?.defaultText? es)
  termination_by structural n => n

/-- The values of the nodes of a list. -/
def contents (depth : Nat) : List Node → Content (List Value)
  | [] => .ok []
  | n :: ns => (both (content depth n) (contents depth ns)).map fun (v, vs) => v :: vs
  termination_by structural ns => ns

/-- The entries of a map, put to those before. -/
def entryContents (depth : Nat) (done : List (Value × Value)) :
    List (Node × Node) → Content (List (Value × Value))
  | [] => .ok done
  | (k, v) :: es =>
    match both (both (content depth k) (if isSingle k then .ok () else faultAt depth .malformed))
        (content depth v) with
    | .ok ((key, _), value) => entryContents depth (putEntry Value.same key value done) es
    | .error e => (both (.error e : Content Unit) (entryContents depth done es)).map Prod.snd
  termination_by structural es => es

/-- The values of a list of maps with one entry each, as lists of two. -/
def pairContents (depth : Nat) : List Node → Content (List Value)
  | [] => .ok []
  | n :: ns =>
    let pair : Content Value :=
      match n with
      | .map _ [(k, v)] => (both (content depth k) (content depth v)).map fun (k, v) => .list [k, v]
      | _ => faultAt depth .malformed
    (both pair (pairContents depth ns)).map fun (v, vs) => v :: vs
  termination_by structural ns => ns
end

/-- **The value of a YAML text**, null for an empty one. -/
def read (s : String) : Read Value :=
  (Token.ofText s).bind fun ts => (Node.ofTokens ts).bind fun n =>
    match n with
    | none => .ok .null
    | some n => (unmerge n).bind fun n =>
      match content 0 n with
      | .ok v => .ok v
      | .error (_, e) => .error e

end Taskboard.Yaml
