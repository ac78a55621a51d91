import Mathlib.Control.Monad.Basic
import Taskboard.Filter.Rule
import Taskboard.Proofs.Text.Lowercase

/-!
# Proofs/Filter/Literal — matching without regard to case finds literal parts

An operand that stands in a value as it is, in the same case, is found without regard to case as
well, unless the lower case of one of its capital sigmas depends on what stands around it
(`OccursAlike`): both sides are put in lower case apart from each other.

* `literal_parts_match` — **when a literal part, start or end matches**, and what this means for
  tasks that are kept for a text in an attribute.
* `word_start_does_not_match` — a part that ends in a capital sigma within a word is not found.
-/

namespace Taskboard

/-- **A part that reads alike in a text and alone**, somewhere in the text. -/
def OccursAlike (part whole : String) : Prop :=
  ∃ before after, whole.toList = before ++ part.toList ++ after ∧
    KeepsCase before part.toList after

/-- A part without capital sigmas reads alike anywhere. -/
theorem occursAlike_of_infix {part whole : String} (hsigma : 'Σ' ∉ part.toList)
    (h : part.toList <:+: whole.toList) : OccursAlike part whole := by
  obtain ⟨before, after, heq⟩ := h
  exact ⟨before, after, heq.symm, keepsCase_of_not_mem hsigma before after⟩

theorem OccursAlike.contains_lowerText {part whole : String} (h : OccursAlike part whole) :
    contains (lowerText part) (lowerText whole) = true := by
  obtain ⟨before, after, heq, hkeeps⟩ := h
  exact occursIn_iff.mpr (hkeeps.infix_lowerText heq)

/-! ## Comparisons of captions -/

variable {value operand : Value} {a b : String}

theorem compareCaptions_eq (ha : value.caption = .ok a) (hb : operand.caption = .ok b)
    (holds : String → String → Bool) :
    compareCaptions holds value operand = .ok (holds (lowerText a) (lowerText b)) := by
  rw [compareCaptions, ha, hb]
  rfl

theorem compareValues_contains (ha : value.caption = .ok a) (hb : operand.caption = .ok b) :
    compareValues value "contains" operand = .ok (contains (lowerText b) (lowerText a)) := by
  have hoperator : Comparison.ofOperator? "contains" = some .contains := rfl
  rw [compareValues, hoperator]
  exact compareCaptions_eq ha hb fun x y => contains y x

theorem compareValues_starts_with (ha : value.caption = .ok a) (hb : operand.caption = .ok b)
    {after : List Char} (h : a.toList = b.toList ++ after) :
    compareValues value "starts_with" operand = .ok (decide (KeepsCase [] b.toList after)) := by
  have hstart : startsWith (lowerText b) (lowerText a) = decide (KeepsCase [] b.toList after) :=
    Bool.eq_iff_iff.mpr
      (by rw [startsWith, List.isPrefixOf_iff_prefix, prefix_lowerText_iff h, decide_eq_true_iff])
  have hoperator : Comparison.ofOperator? "starts_with" = some .startsWith := rfl
  rw [compareValues, hoperator, ← hstart]
  exact compareCaptions_eq ha hb fun x y => startsWith y x

theorem compareValues_ends_with (ha : value.caption = .ok a) (hb : operand.caption = .ok b)
    {before : List Char} (h : a.toList = before ++ b.toList) :
    compareValues value "ends_with" operand = .ok (decide (KeepsCase before b.toList [])) := by
  have hend : endsWith (lowerText b) (lowerText a) = decide (KeepsCase before b.toList []) :=
    Bool.eq_iff_iff.mpr
      (by rw [endsWith, List.isSuffixOf_iff_suffix, suffix_lowerText_iff h, decide_eq_true_iff])
  have hoperator : Comparison.ofOperator? "ends_with" = some .endsWith := rfl
  rw [compareValues, hoperator, ← hend]
  exact compareCaptions_eq ha hb fun x y => endsWith y x

/-! ## Tasks that are kept -/

/-- What a task has that is kept for a text in an attribute. -/
theorem exists_of_hasTags {t : Task} {key text : String} (h : hasTags t [(key, text)] = .ok true) :
    ∃ v s, t.get? key = some v ∧ v.caption = .ok s ∧ text.toList <:+: s.toList := by
  rw [hasTags] at h
  split at h
  next => cases h
  next v hv =>
    obtain ⟨s, hs, h⟩ := bind_eq_ok.mp h
    refine ⟨v, s, hv, hs, occursIn_iff.mp ?_⟩
    split at h
    next hin => exact hin
    next => cases h

theorem mem_of_keepTagged {tags : List (String × String)} : ∀ {tasks kept : List Task},
    keepTagged tags tasks = .ok kept → ∀ t ∈ kept, t ∈ tasks ∧ hasTags t tags = .ok true
  | [], kept, h => by
    obtain rfl := Except.ok.inj h
    exact List.forall_mem_nil _
  | u :: us, kept, h => by
    obtain ⟨held, hheld, h⟩ := bind_eq_ok.mp h
    obtain ⟨rest, hrest, rfl⟩ := map_eq_ok.mp h
    have hothers : ∀ t ∈ rest, t ∈ u :: us ∧ hasTags t tags = .ok true := fun t ht =>
      (mem_of_keepTagged hrest t ht).imp_left (List.mem_cons_of_mem u)
    cases held with
    | false => exact hothers
    | true => exact List.forall_mem_cons.mpr ⟨⟨List.mem_cons_self, hheld⟩, hothers⟩

/-- A task whose attribute contains a text, read alike there, passes the rule that asks for it. -/
theorem holds_of_occursAlike {t : Task} {key text s : String} {v : Value}
    (hv : t.get? key = some v) (hs : v.caption = .ok s) (h : OccursAlike text s) :
    (Rule.leaf ⟨key, "contains", .text text⟩).holds t = true := by
  have hanswer := compareValues_contains hs (Value.caption_text text)
  rw [h.contains_lowerText] at hanswer
  rw [Rule.leaf, Rule.holds, Condition.holds, hv]
  simp only [hanswer]

/-! ## Literal parts -/

/-- **When a literal part matches without regard to case**: a part somewhere if it reads alike in
the value and alone, a start or an end exactly if it does.  So a task that is kept for a text in an
attribute passes the rule that asks for the text, if the text reads alike there, and each text
without a capital sigma does. -/
theorem literal_parts_match (ha : value.caption = .ok a) (hb : operand.caption = .ok b) :
    (OccursAlike b a → compareValues value "contains" operand = .ok true) ∧
      (∀ after, a.toList = b.toList ++ after →
        compareValues value "starts_with" operand = .ok (decide (KeepsCase [] b.toList after))) ∧
      (∀ before, a.toList = before ++ b.toList →
        compareValues value "ends_with" operand = .ok (decide (KeepsCase before b.toList []))) ∧
      (∀ key tasks kept, keepTagged [(key, b)] tasks = .ok kept → ∀ t ∈ kept,
        ∃ v s, t.get? key = some v ∧ v.caption = .ok s ∧ b.toList <:+: s.toList ∧
          (OccursAlike b s → t ∈ (Rule.leaf ⟨key, "contains", .text b⟩).keep tasks)) ∧
      ('Σ' ∉ b.toList → ∀ s : String, b.toList <:+: s.toList → OccursAlike b s) := by
  refine ⟨fun h => ?_, fun _ => compareValues_starts_with ha hb,
    fun _ => compareValues_ends_with ha hb, fun key tasks kept hkept t ht => ?_,
    fun hsigma _ => occursAlike_of_infix hsigma⟩
  · rw [compareValues_contains ha hb, h.contains_lowerText]
  · obtain ⟨hmem, htags⟩ := mem_of_keepTagged hkept t ht
    obtain ⟨v, s, hv, hs, hinfix⟩ := exists_of_hasTags htags
    exact ⟨v, s, hv, hs, hinfix, fun h =>
      List.mem_filter.mpr ⟨hmem, holds_of_occursAlike hv hs h⟩⟩

/-- A first word, which ends in a capital sigma. -/
theorem literal_parts_match_word :
    compareValues (.text "ΦΩΣ ΤΟΥ") "contains" (.text "ΦΩΣ") = .ok true ∧
      compareValues (.text "ΦΩΣ ΤΟΥ") "starts_with" (.text "ΦΩΣ") = .ok true := by
  have hkeeps : KeepsCase [] "ΦΩΣ".toList " ΤΟΥ".toList := by decide +kernel
  have hwhole : "ΦΩΣ ΤΟΥ".toList = "ΦΩΣ".toList ++ " ΤΟΥ".toList := by decide
  obtain ⟨hcontains, hstarts, -⟩ :=
    literal_parts_match (Value.caption_text "ΦΩΣ ΤΟΥ") (Value.caption_text "ΦΩΣ")
  exact ⟨hcontains ⟨[], _, hwhole, hkeeps⟩,
    (hstarts _ hwhole).trans (congrArg Except.ok (decide_eq_true hkeeps))⟩

/-- A task named by a word with a capital sigma inside. -/
def morningStar : Task := ⟨"star", [("name", .text "ΦΩΣΦΟΡΟΣ")], "", none⟩

/-- **A part that ends in a capital sigma within a word is not found**, nor is a lone capital sigma
at the end of a word: their lower case has the other form.  Without regard to case less is found
than with it. -/
theorem word_start_does_not_match :
    "ΦΩΣ".toList <+: "ΦΩΣΦΟΡΟΣ".toList ∧ "Σ".toList <:+ "ΦΩΣ".toList ∧
      compareValues (.text "ΦΩΣΦΟΡΟΣ") "contains" (.text "ΦΩΣ") = .ok false ∧
      compareValues (.text "ΦΩΣΦΟΡΟΣ") "starts_with" (.text "ΦΩΣ") = .ok false ∧
      compareValues (.text "ΦΩΣ") "ends_with" (.text "Σ") = .ok false ∧
      keepTagged [("name", "ΦΩΣ")] [morningStar] = .ok [morningStar] ∧
      (Rule.leaf ⟨"name", "contains", .text "ΦΩΣ"⟩).keep [morningStar] = [] := by
  refine ⟨by decide, by decide, by decide +kernel, by decide +kernel, by decide +kernel, rfl, ?_⟩
  have hfails : (Rule.leaf ⟨"name", "contains", .text "ΦΩΣ"⟩).holds morningStar = false := by
    decide +kernel
  exact List.filter_eq_nil_iff.mpr (List.forall_mem_singleton.mpr (Bool.eq_false_iff.mp hfails))

end Taskboard
