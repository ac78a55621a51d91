import Taskboard.Text.Lowercase

/-!
# Proofs/Text/Lowercase — the lower case of a part of a text

Each character has its lower case by itself, but for the capital sigma: it has one form at the end
of a word and another elsewhere.  So the lower case of a part, read alone, stands in the lower case
of the whole exactly if every capital sigma of the part is final in the whole as it is in the part
(`KeepsCase`).

* `toList_lowerText_append` — **lower case can be cut anywhere**, if each part is read amid the
  others.
* `lowerAmid_eq_iff` — a part reads alike in two places exactly if its capital sigmas do.
-/

namespace Taskboard

/-! ## A character amid others -/

/-- A capital sigma between two texts is final: a letter stands before it and none behind. -/
def isFinal (before after : List Char) : Bool := meetsCased before.reverse && !meetsCased after

/-- The lower case of a character, which ends a word or does not. -/
def lowerForm (final : Bool) (c : Char) : List Char :=
  if c = 'Σ' then if final then ['ς'] else ['σ']
  else if c = 'İ' then ['i', Char.ofNat 0x307]
  else [lowerChar c]

/-- The lower case of a part between two texts. -/
def lowerAmid (before after : List Char) : List Char → List Char
  | [] => []
  | c :: cs => lowerForm (isFinal before (cs ++ after)) c ++ lowerAmid (before ++ [c]) after cs

theorem length_lowerForm (final final' : Bool) (c : Char) :
    (lowerForm final c).length = (lowerForm final' c).length := by
  unfold lowerForm
  cases final <;> cases final' <;> split <;> rfl

/-- Only the capital sigma has two forms. -/
theorem lowerForm_eq_iff {final final' : Bool} {c : Char} :
    lowerForm final c = lowerForm final' c ↔ (c = 'Σ' → final = final') := by
  by_cases hc : c = 'Σ'
  · cases final <;> cases final' <;> simp [lowerForm, hc]
  · simp [lowerForm, hc]

/-! ## Cutting a text -/

/-- The letter before a character is the one before its forerunners, or among them. -/
theorem meetsCased_concat (before : List Char) (c : Char) :
    meetsCased (before ++ [c]).reverse
      = if inRanges caseIgnorableBounds c.toNat then meetsCased before.reverse
        else inRanges casedBounds c.toNat := by
  rw [List.reverse_append, List.reverse_singleton, List.singleton_append]
  unfold meetsCased
  rw [List.dropWhile_cons]
  by_cases hc : inRanges caseIgnorableBounds c.toNat = true
  · rw [if_pos hc, if_pos hc]
  · rw [if_neg hc, if_neg hc]

theorem lowerFrom_eq_lowerAmid (cs : List Char) : ∀ before : List Char,
    lowerFrom (meetsCased before.reverse) cs = lowerAmid before [] cs := by
  induction cs with
  | nil => exact fun _ => rfl
  | cons c cs ih =>
    intro before
    rw [lowerAmid, ← ih (before ++ [c]), meetsCased_concat, List.append_nil]
    rfl

theorem toList_lowerText (s : String) : (lowerText s).toList = lowerAmid [] [] s.toList := by
  rw [lowerText, String.toList_ofList]
  exact lowerFrom_eq_lowerAmid s.toList []

theorem lowerAmid_append (xs ys : List Char) : ∀ before after : List Char,
    lowerAmid before after (xs ++ ys)
      = lowerAmid before (ys ++ after) xs ++ lowerAmid (before ++ xs) after ys := by
  induction xs with
  | nil => simp [lowerAmid]
  | cons x xs ih =>
    intro before after
    simp only [List.cons_append, lowerAmid, ih, List.append_assoc, List.nil_append]

/-- **Lower case can be cut anywhere**, if each part is read amid the others. -/
theorem toList_lowerText_append {s : String} {before part after : List Char}
    (h : s.toList = before ++ part ++ after) :
    (lowerText s).toList
      = lowerAmid [] (part ++ after) before ++ lowerAmid before after part
        ++ lowerAmid (before ++ part) [] after := by
  rw [toList_lowerText, h, lowerAmid_append, lowerAmid_append]
  simp

/-! ## A part in two places -/

theorem length_lowerAmid (cs : List Char) : ∀ before after before' after' : List Char,
    (lowerAmid before after cs).length = (lowerAmid before' after' cs).length := by
  induction cs with
  | nil => exact fun _ _ _ _ => rfl
  | cons c cs ih =>
    intro before after before' after'
    rw [lowerAmid, lowerAmid, List.length_append, List.length_append,
      ih _ _ (before' ++ [c]) after', length_lowerForm]

/-- **A part reads alike in two places** exactly if each of its capital sigmas is final in both or
in none. -/
theorem lowerAmid_eq_iff (cs : List Char) : ∀ {before after before' after' : List Char},
    lowerAmid before after cs = lowerAmid before' after' cs ↔
      ∀ u w, cs = u ++ 'Σ' :: w →
        isFinal (before ++ u) (w ++ after) = isFinal (before' ++ u) (w ++ after') := by
  induction cs with
  | nil => simp [lowerAmid]
  | cons c cs ih =>
    intro before after before' after'
    have hcut : lowerAmid before after (c :: cs) = lowerAmid before' after' (c :: cs) ↔
        lowerForm (isFinal before (cs ++ after)) c = lowerForm (isFinal before' (cs ++ after')) c ∧
          lowerAmid (before ++ [c]) after cs = lowerAmid (before' ++ [c]) after' cs := by
      rw [lowerAmid, lowerAmid]
      exact ⟨fun h => List.append_inj h (length_lowerForm _ _ _), fun ⟨h, h'⟩ => by rw [h, h']⟩
    rw [hcut, lowerForm_eq_iff, ih]
    constructor
    · rintro ⟨hhead, htail⟩ u w h
      -- the sigma is the first character, or it stands among the others
      cases u with
      | nil =>
        obtain ⟨rfl, rfl⟩ := List.cons_eq_cons.mp h
        simpa using hhead rfl
      | cons d u =>
        obtain ⟨rfl, rfl⟩ := List.cons_eq_cons.mp h
        simpa using htail u w rfl
    · intro h
      refine ⟨?_, fun u w hcs => ?_⟩
      · rintro rfl
        simpa using h [] cs rfl
      · simpa using h (c :: u) w (by rw [hcs, List.cons_append])

/-! ## Parts that keep their lower case -/

/-- **A part keeps its lower case between two texts**: each of its capital sigmas is final there
exactly if it is final in the part alone.  What stands around the part decides only on its first
sigma, if no letter stands before it in the part, and on its last one, if none stands behind. -/
def KeepsCase (before part after : List Char) : Prop :=
  ∀ u w, part = u ++ 'Σ' :: w → isFinal (before ++ u) (w ++ after) = isFinal u w

theorem keepsCase_iff {before part after : List Char} :
    KeepsCase before part after ↔ lowerAmid before after part = lowerAmid [] [] part := by
  rw [lowerAmid_eq_iff]
  simp [KeepsCase]

instance (before part after : List Char) : Decidable (KeepsCase before part after) :=
  decidable_of_iff _ keepsCase_iff.symm

/-- Without a capital sigma the lower case is kept anywhere. -/
theorem keepsCase_of_not_mem {part : List Char} (h : 'Σ' ∉ part) (before after : List Char) :
    KeepsCase before part after := fun u w hpart => absurd (hpart ▸ by simp) h

/-- The lower case of a part that keeps it is a part of the lower case of the whole. -/
theorem KeepsCase.infix_lowerText {s t : String} {before after : List Char}
    (h : KeepsCase before t.toList after) (hs : s.toList = before ++ t.toList ++ after) :
    (lowerText t).toList <:+: (lowerText s).toList := by
  rw [toList_lowerText_append hs, toList_lowerText t, ← keepsCase_iff.mp h]
  exact ⟨_, _, rfl⟩

/-- **At the start of a text** it is one exactly if the lower case is kept. -/
theorem prefix_lowerText_iff {s t : String} {after : List Char}
    (hs : s.toList = t.toList ++ after) :
    (lowerText t).toList <+: (lowerText s).toList ↔ KeepsCase [] t.toList after := by
  have hwhole : (lowerText s).toList = lowerAmid [] after t.toList ++ lowerAmid t.toList [] after :=
    @toList_lowerText_append s [] t.toList after hs
  rw [hwhole, toList_lowerText t, keepsCase_iff]
  constructor
  · rintro ⟨rest, h⟩
    exact (List.append_inj_left h (length_lowerAmid _ _ _ _ _)).symm
  · intro h
    rw [h]
    exact List.prefix_append _ _

/-- **At the end of a text** likewise. -/
theorem suffix_lowerText_iff {s t : String} {before : List Char}
    (hs : s.toList = before ++ t.toList) :
    (lowerText t).toList <:+ (lowerText s).toList ↔ KeepsCase before t.toList [] := by
  have hwhole : (lowerText s).toList
      = lowerAmid [] t.toList before ++ lowerAmid before [] t.toList := by
    have hcut := @toList_lowerText_append s before t.toList [] (by rw [hs, List.append_nil])
    rwa [lowerAmid, List.append_nil, List.append_nil] at hcut
  rw [hwhole, toList_lowerText t, keepsCase_iff]
  constructor
  · rintro ⟨rest, h⟩
    exact (List.append_inj_right' h (length_lowerAmid _ _ _ _ _)).symm
  · intro h
    rw [h]
    exact List.suffix_append _ _

end Taskboard
