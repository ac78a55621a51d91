/-!
# Text/Find — parts of a text

A text inside a text, and a text cut at a character: `partsAt` and `joinParts` undo each other.
-/

namespace Taskboard

/-- Whether a list of characters stands somewhere in another. -/
def occursIn (needle : List Char) : List Char → Bool
  | [] => needle.isEmpty
  | c :: cs => needle.isPrefixOf (c :: cs) || occursIn needle cs

/-- Occurring is being a contiguous part. -/
theorem occursIn_iff {needle hay : List Char} : occursIn needle hay = true ↔ needle <:+: hay := by
  induction hay with
  | nil => simp [occursIn]
  | cons c cs ih =>
    rw [List.infix_cons_iff, ← ih, occursIn, Bool.or_eq_true, List.isPrefixOf_iff_prefix]

/-- Whether a text stands somewhere in another. -/
def contains (needle hay : String) : Bool := occursIn needle.toList hay.toList

/-- Whether a text starts with another. -/
def startsWith (head whole : String) : Bool := head.toList.isPrefixOf whole.toList

/-- Whether a text ends with another. -/
def endsWith (tail whole : String) : Bool := tail.toList.isSuffixOf whole.toList

/-- The parts of a text between the places of a character, at least one. -/
def partsAt (sep : Char) : List Char → List (List Char)
  | [] => [[]]
  | c :: cs =>
    if c = sep then [] :: partsAt sep cs
    else match partsAt sep cs with
      | [] => [[c]]
      | p :: ps => (c :: p) :: ps

/-- The parts with a character between them. -/
def joinParts (sep : Char) : List (List Char) → List Char
  | [] => []
  | [p] => p
  | p :: ps => p ++ sep :: joinParts sep ps

theorem partsAt_ne_nil (sep : Char) (cs : List Char) : partsAt sep cs ≠ [] := by
  cases cs with
  | nil => simp [partsAt]
  | cons c cs => grind [partsAt]

/-- Nothing is lost between the parts. -/
@[simp] theorem joinParts_partsAt (sep : Char) (cs : List Char) :
    joinParts sep (partsAt sep cs) = cs := by
  induction cs with
  | nil => rfl
  | cons c cs ih =>
    obtain ⟨p, ps, h⟩ := List.exists_cons_of_ne_nil (partsAt_ne_nil sep cs)
    rw [h] at ih
    by_cases hc : c = sep <;> cases ps <;> simp_all [partsAt, joinParts]

theorem partsAt_of_not_mem {sep : Char} {p : List Char} (h : sep ∉ p) : partsAt sep p = [p] := by
  induction p with
  | nil => rfl
  | cons c cs ih =>
    rw [List.mem_cons, not_or] at h
    simp [partsAt, ih h.2, Ne.symm h.1]

/-- A text comes apart at a separator: the parts before it, and those behind. -/
theorem partsAt_append_sep (sep : Char) (cs ds : List Char) :
    partsAt sep (cs ++ sep :: ds) = partsAt sep cs ++ partsAt sep ds := by
  induction cs with
  | nil => simp [partsAt]
  | cons c cs ih =>
    rw [List.cons_append, partsAt, partsAt, ih]
    split
    · rfl
    · obtain ⟨p, ps, hps⟩ := List.exists_cons_of_ne_nil (partsAt_ne_nil sep cs)
      rw [hps]
      rfl

theorem partsAt_append {sep : Char} {p : List Char} (h : sep ∉ p) (cs : List Char) :
    partsAt sep (p ++ sep :: cs) = p :: partsAt sep cs := by
  rw [partsAt_append_sep, partsAt_of_not_mem h, List.singleton_append]

/-- Parts that lack the character come apart as they were. -/
theorem partsAt_joinParts {sep : Char} : ∀ {ps : List (List Char)}, ps ≠ [] →
    (∀ p ∈ ps, sep ∉ p) → partsAt sep (joinParts sep ps) = ps
  | [p], _, h => partsAt_of_not_mem (h p List.mem_cons_self)
  | p :: q :: ps, _, h => by
    obtain ⟨hp, hrest⟩ := List.forall_mem_cons.mp h
    rw [joinParts, partsAt_append hp, partsAt_joinParts (List.cons_ne_nil q ps) hrest]
    exact List.cons_ne_nil q ps

end Taskboard
