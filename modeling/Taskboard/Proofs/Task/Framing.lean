import Taskboard.Proofs.Task.Document

/-!
# Proofs/Task/Framing — where the head of a task file begins and ends

A delimiter is a line of three dashes with blanks or tabs behind them (`IsDashes`).  Of the
delimiters of a text only the first line and the first one after it count: what stands between them is
the head, with its line breaks, and what stands behind the second one is the body, whatever lines it
has.

* `Task.ofDocument_of_lines` — a text with a head, by its lines.
* `Task.ofDocument_cuts` — **the three ways in which a text is cut**, for any reading of heads.
-/

namespace Taskboard

/-- Blanks and tabs, or nothing. -/
def AreBlanks (cs : List Char) : Prop := ∀ c ∈ cs, c = ' ' ∨ c = '\t'

instance (cs : List Char) : Decidable (AreBlanks cs) :=
  List.decidableBAll (fun c => c = ' ' ∨ c = '\t') cs

/-- A line that delimits a head: three dashes, and blanks or tabs behind them. -/
def IsDashes (line : List Char) : Prop :=
  ∃ blanks, AreBlanks blanks ∧ line = '-' :: '-' :: '-' :: blanks

namespace Framing

variable {line : List Char} {lines head body : List (List Char)} {s : String}

theorem isDelimiter_iff : isDelimiter line = true ↔ IsDashes line := by
  unfold isDelimiter
  split
  next blanks =>
    rw [List.all_eq_true]
    constructor
    · intro h
      exact ⟨blanks, fun c hc => by simpa using h c hc, rfl⟩
    · rintro ⟨others, hblanks, heq⟩ c hc
      obtain rfl : blanks = others := by simpa using heq
      simpa using hblanks c hc
  next hne =>
    constructor
    · intro h
      cases h
    · rintro ⟨blanks, -, rfl⟩
      exact absurd rfl (hne blanks)

instance (line : List Char) : Decidable (IsDashes line) := decidable_of_iff _ isDelimiter_iff

theorem isDelimiter_eq_false_iff : isDelimiter line = false ↔ ¬ IsDashes line := by
  rw [← isDelimiter_iff, Bool.not_eq_true]

/-- Lines without a delimiter have nothing behind one. -/
theorem beforeDelimiter_eq_none (h : ∀ l ∈ lines, ¬ IsDashes l) : beforeDelimiter lines = none := by
  induction lines with
  | nil => rfl
  | cons l ls ih =>
    obtain ⟨hl, hls⟩ := List.forall_mem_cons.mp h
    rw [beforeDelimiter, isDelimiter_eq_false_iff.mpr hl, if_neg Bool.false_ne_true, ih hls]
    rfl

/-! ## The three ways -/

/-- **A text with two delimiters** is cut by them. -/
theorem ofText_of_lines {first last : List Char}
    (hlines : partsAt '\n' s.toList = first :: (head ++ last :: body)) (hfirst : IsDashes first)
    (hhead : ∀ l ∈ head, ¬ IsDashes l) (hlast : IsDashes last) :
    ofText s = .framed ('\n' :: head.flatMap (· ++ ['\n']))
      ((joinParts '\n' body).dropWhile (· = '\n')) := by
  have hbefore : beforeDelimiter (head ++ last :: body) = some (head, body) :=
    beforeDelimiter_append (fun l hl => isDelimiter_eq_false_iff.mpr (hhead l hl))
      (isDelimiter_iff.mpr hlast) body
  rw [ofText, hlines]
  dsimp only
  rw [if_pos (isDelimiter_iff.mpr hfirst), hbefore]

/-- **A text with one delimiter**, its first line, is not cut. -/
theorem ofText_of_one {first : List Char} {rest : List (List Char)}
    (hlines : partsAt '\n' s.toList = first :: rest) (hfirst : IsDashes first)
    (hrest : ∀ l ∈ rest, ¬ IsDashes l) : ofText s = .unterminated := by
  rw [ofText, hlines]
  dsimp only
  rw [if_pos (isDelimiter_iff.mpr hfirst), beforeDelimiter_eq_none hrest]

/-- The first line of a text is what stands before its first line break. -/
theorem head_partsAt (cs : List Char) :
    ∃ rest, partsAt '\n' cs = cs.takeWhile (· ≠ '\n') :: rest := by
  induction cs with
  | nil => exact ⟨[], rfl⟩
  | cons c cs ih =>
    obtain ⟨rest, hrest⟩ := ih
    rw [partsAt, List.takeWhile_cons]
    split
    next h => exact ⟨partsAt '\n' cs, by simp [h]⟩
    next h => exact ⟨rest, by simp [hrest, h]⟩

/-- **A text that does not begin with a delimiter** is body. -/
theorem ofText_of_none (h : ¬ IsDashes (s.toList.takeWhile (· ≠ '\n'))) : ofText s = .bare := by
  obtain ⟨rest, hrest⟩ := head_partsAt s.toList
  rw [ofText, hrest]
  dsimp only
  rw [isDelimiter_eq_false_iff.mpr h, if_neg Bool.false_ne_true]

end Framing

namespace Task

variable (reading : YamlReading) (id : String) (modified : Option Moment)

/-- **A text with a head**, by its lines: the head may have none, and nothing need follow it. -/
theorem ofDocument_of_lines {text : String} {first last : List Char} {head body : List (List Char)}
    (hlines : partsAt '\n' text.toList = first :: (head ++ last :: body)) (hfirst : IsDashes first)
    (hhead : ∀ l ∈ head, ¬ IsDashes l) (hlast : IsDashes last) :
    ofDocument reading id text modified =
      (readHead reading id (String.ofList ('\n' :: head.flatMap (· ++ ['\n'])))).map
        fun attributes => ⟨id, attributes, String.ofList ((joinParts '\n' body).dropWhile (· = '\n')), modified⟩ := by
  rw [ofDocument, Framing.ofText_of_lines hlines hfirst hhead hlast]

/-- The lines of a text that is put together of a head and a body. -/
theorem lines_of_parts {opening closing head body : String} (hopening : AreBlanks opening.toList)
    (hclosing : AreBlanks closing.toList) :
    partsAt '\n' ("---" ++ opening ++ "\n" ++ head ++ "\n---" ++ closing ++ "\n" ++ body).toList =
      ('-' :: '-' :: '-' :: opening.toList) :: (partsAt '\n' head.toList ++
        ('-' :: '-' :: '-' :: closing.toList) :: partsAt '\n' body.toList) := by
  have hline : ∀ {blanks : List Char}, AreBlanks blanks → '\n' ∉ '-' :: '-' :: '-' :: blanks := by
    intro blanks hblanks hmem
    have hbreak : '\n' ∈ blanks := by simpa using hmem
    rcases hblanks _ hbreak with h | h <;> exact absurd h (by decide)
  have htext : ("---" ++ opening ++ "\n" ++ head ++ "\n---" ++ closing ++ "\n" ++ body).toList =
      ('-' :: '-' :: '-' :: opening.toList) ++ '\n' :: (head.toList ++ '\n' ::
        (('-' :: '-' :: '-' :: closing.toList) ++ '\n' :: body.toList)) := by
    simp [String.toList_append]
  rw [htext, partsAt_append (hline hopening), partsAt_append_sep, partsAt_append (hline hclosing)]

/-- **How a text is cut into head and body**, whatever reads the head.  A text that begins with a
delimiter and has a head without one before the next delimiter gets its attributes of the head, with
the line breaks around it, and its content of what follows, without the line breaks at its start.  A
text that does not begin with a delimiter is its own content, and one that has no second delimiter
is refused. -/
theorem ofDocument_cuts :
    (∀ opening closing head body : String, AreBlanks opening.toList → AreBlanks closing.toList →
      (∀ line ∈ partsAt '\n' head.toList, ¬ IsDashes line) →
        ofDocument reading id
            ("---" ++ opening ++ "\n" ++ head ++ "\n---" ++ closing ++ "\n" ++ body) modified =
          (readHead reading id ("\n" ++ head ++ "\n")).map fun attributes =>
            ⟨id, attributes, String.ofList (body.toList.dropWhile (· = '\n')), modified⟩) ∧
      (∀ text : String, ¬ IsDashes (text.toList.takeWhile (· ≠ '\n')) →
        ofDocument reading id text modified = .ok ⟨id, [], text, modified⟩) ∧
      (∀ (text : String) (first : List Char) (rest : List (List Char)),
        partsAt '\n' text.toList = first :: rest → IsDashes first →
          (∀ line ∈ rest, ¬ IsDashes line) →
            ofDocument reading id text modified = .error (.head id .unterminated)) ∧
      (Fault.head id .unterminated).kind = .badValue ∧
      (Fault.head id .unterminated).message? = some ("Unterminated front matter in " ++ id) := by
  refine ⟨?_, ?_, ?_, rfl, rfl⟩
  · intro opening closing head body hopening hclosing hhead
    have hbetween : String.ofList ('\n' :: (partsAt '\n' head.toList).flatMap (· ++ ['\n'])) =
        "\n" ++ head ++ "\n" := by
      rw [flatMap_partsAt, ← String.toList_inj]
      simp [String.toList_append]
    rw [ofDocument_of_lines reading id modified (lines_of_parts hopening hclosing)
      ⟨_, hopening, rfl⟩ hhead ⟨_, hclosing, rfl⟩, hbetween, joinParts_partsAt]
  · intro text hfirst
    rw [ofDocument, Framing.ofText_of_none hfirst]
  · intro text first rest hlines hfirst hrest
    rw [ofDocument, Framing.ofText_of_one hlines hfirst hrest]

/-- A reading of heads that gives back what it was given. -/
def echo : YamlReading := fun head => .ok (.map [(.text "head", .text head)])

/-- Dashes within lines of the head, longer dashes, and a delimiter in the body cut nothing. -/
theorem ofDocument_cuts_dashes :
    AreBlanks " \t".toList ∧ AreBlanks "".toList ∧
      (∀ line ∈ partsAt '\n' "title: a---b\n---- no".toList, ¬ IsDashes line) ∧
      ofDocument echo "t" ("---" ++ " \t" ++ "\n" ++ "title: a---b\n---- no" ++ "\n---" ++ "" ++
          "\n" ++ "\n\nbody\n---\nmore\n") none =
        .ok ⟨"t", [("head", .text "\ntitle: a---b\n---- no\n")], "body\n---\nmore\n", none⟩ := by
  have hopening : AreBlanks " \t".toList := by decide
  have hclosing : AreBlanks "".toList := by decide
  have hhead : ∀ line ∈ partsAt '\n' "title: a---b\n---- no".toList, ¬ IsDashes line := by decide
  refine ⟨hopening, hclosing, hhead, ?_⟩
  rw [(ofDocument_cuts echo "t" none).1 " \t" "" "title: a---b\n---- no" "\n\nbody\n---\nmore\n"
    hopening hclosing hhead]
  rfl

end Task

end Taskboard
