import Taskboard.Proofs.Yaml.RoundTrip
import Taskboard.Task.Document

/-!
# Proofs/Task/Document — tasks are read as they were written

The lines of a head hold no delimiter, so the text of a task is cut where its parts were put
together. What is lost are line breaks at the start of a content behind a head.

* `Framing.ofText_document` — the head and the body of a task's text.
* `Task.ofText_document` — **a task with attributes that come back comes back itself.**
-/

namespace Taskboard

open Yaml

variable {cs ds e : List Char}

/-! ## Lines -/

/-- The lines of a text, each with its break, are the text with a break behind it. -/
theorem flatMap_partsAt (sep : Char) (cs : List Char) :
    (partsAt sep cs).flatMap (· ++ [sep]) = cs ++ [sep] := by
  induction cs with
  | nil => rfl
  | cons c cs ih =>
    rw [partsAt]
    split
    next h => rw [List.flatMap_cons, ih, h]; rfl
    next =>
      obtain ⟨p, ps, hps⟩ := List.exists_cons_of_ne_nil (partsAt_ne_nil sep cs)
      rw [hps, List.flatMap_cons] at ih
      rw [hps]
      simp only [List.flatMap_cons, List.cons_append, ih]

namespace Framing

/-- A text that begins with a delimiter begins with three dashes. -/
theorem not_isDelimiter (h : IsUndashed (cs ++ ds)) : isDelimiter cs = false := by
  obtain ⟨c, hc, hne⟩ := h
  unfold isDelimiter
  split
  next =>
    simp only [List.cons_append, List.take_succ_cons, List.take_zero, List.mem_cons,
      List.not_mem_nil, or_false, or_self] at hc
    exact absurd hc hne
  next => rfl

/-- The lines of a text, the first one at its start. None of the others is a delimiter. -/
theorem exists_lines (h : Undashed e) :
    ∃ p ps rest, partsAt '\n' e = p :: ps ∧ e = p ++ rest ∧ ∀ q ∈ ps, isDelimiter q = false := by
  induction e with
  | nil => exact ⟨[], [], [], rfl, rfl, by simp⟩
  | cons c e ih =>
    obtain ⟨p, ps, rest, hparts, heq, hps⟩ := ih h.2
    rw [partsAt]
    split
    next hc =>
      have hp : isDelimiter p = false := not_isDelimiter (heq ▸ h.1 hc)
      exact ⟨[], p :: ps, c :: e, by rw [hparts], rfl, List.forall_mem_cons.mpr ⟨hp, hps⟩⟩
    next => exact ⟨c :: p, ps, rest, by rw [hparts], by rw [heq]; rfl, hps⟩

/-- **No line of a tidy text is a delimiter.** -/
theorem not_isDelimiter_lines (hstart : IsUndashed e) (h : Undashed e) :
    ∀ p ∈ partsAt '\n' e, isDelimiter p = false := by
  obtain ⟨p, ps, rest, hparts, heq, hps⟩ := exists_lines h
  rw [hparts]
  exact List.forall_mem_cons.mpr ⟨not_isDelimiter (heq ▸ hstart), hps⟩

theorem beforeDelimiter_append {ls : List (List Char)} (h : ∀ l ∈ ls, isDelimiter l = false)
    {d : List Char} (hd : isDelimiter d = true) (rest : List (List Char)) :
    beforeDelimiter (ls ++ d :: rest) = some (ls, rest) := by
  induction ls with
  | nil => rw [List.nil_append, beforeDelimiter, if_pos hd]
  | cons l ls ih =>
    obtain ⟨hl, hls⟩ := List.forall_mem_cons.mp h
    rw [List.cons_append, beforeDelimiter, hl, if_neg Bool.false_ne_true, ih hls]
    rfl

/-- **A text of a head between delimiters and a content behind an empty line** is cut into the head
and the content without the line breaks at its start. -/
theorem ofText_framed (hstart : IsUndashed e) (h : Undashed e) {s : String}
    (hs : s.toList = "---\n".toList ++ e ++ "\n---\n\n".toList ++ cs) :
    ofText s = .framed ('\n' :: (e ++ ['\n'])) (cs.dropWhile (· = '\n')) := by
  have hparts : partsAt '\n' s.toList
      = "---".toList :: (partsAt '\n' e ++ "---".toList :: [] :: partsAt '\n' cs) := by
    have hlines : s.toList = "---".toList ++ '\n' :: (e ++ '\n' :: ("---".toList
        ++ '\n' :: ([] ++ '\n' :: cs))) := by
      rw [hs]
      simp
    rw [hlines, partsAt_append (by decide), partsAt_append_sep, partsAt_append (by decide),
      partsAt_append (by simp)]
  have hcontent : joinParts '\n' ([] :: partsAt '\n' cs) = '\n' :: cs := by
    obtain ⟨p, ps, hps⟩ := List.exists_cons_of_ne_nil (partsAt_ne_nil '\n' cs)
    rw [hps, joinParts, ← hps, joinParts_partsAt, List.nil_append]
    exact List.cons_ne_nil _ _
  rw [ofText, hparts]
  dsimp only
  rw [if_pos (by decide), beforeDelimiter_append (not_isDelimiter_lines hstart h) (by decide)]
  dsimp only
  rw [flatMap_partsAt, hcontent, List.dropWhile_cons_of_pos (by decide)]

end Framing

namespace Task

/-! ## Heads -/

/-- White space at the end goes, down to a character that is none. -/
theorem trimEnd_eq {s : String} (hs : s.toList = e ++ ['\n']) (h : SolidEnd e) :
    (trimEnd s).toList = e := by
  obtain ⟨c, hc, hsolid⟩ := h
  obtain ⟨f, rfl⟩ := List.getLast?_eq_some_iff.mp hc
  have hbreak : isBlank '\n' = true := by decide
  simp [trimEnd, hs, hbreak, hsolid]

/-- The entries of a map with different texts for keys are its attributes. -/
theorem headAttributes_textEntries {as done : List (String × Value)}
    (hkeys : ((done ++ as).map Prod.fst).Nodup) :
    headAttributes (textEntries as) done = .ok (done ++ as) := by
  induction as generalizing done with
  | nil => rw [List.append_nil]; rfl
  | cons a as ih =>
    obtain ⟨k, v⟩ := a
    have hnew : ∀ e ∈ done, (e.1 == k) = false := fun e he => beq_false_of_ne fun heq => by
      rw [List.map_append, List.nodup_append] at hkeys
      exact hkeys.2.2 _ (List.mem_map_of_mem he) _ List.mem_cons_self heq
    have hmoved : done ++ (k, v) :: as = (done ++ [(k, v)]) ++ as := by simp
    rw [hmoved] at hkeys ⊢
    rw [← ih hkeys, ← putEntry_new v hnew]
    rfl

/-- A head that is read as a map of texts has its entries for attributes. -/
theorem readHead_of_object {reading : YamlReading} {head : String} {as : List (String × Value)}
    (hread : reading head = .ok (.object as)) (hkeys : (as.map Prod.fst).Nodup) (id : String) :
    readHead reading id head = .ok as := by
  rw [readHead, hread, object_eq]
  exact @headAttributes_textEntries _ [] hkeys

/-! ## Documents -/

/-- The content that comes back: behind a head, line breaks at its start are lost. -/
def keptContent (t : Task) : String :=
  if t.attributes.isEmpty then t.content
  else String.ofList (t.content.toList.dropWhile (· = '\n'))

/-- Without attributes the content is the text, which must not begin like a head. -/
theorem ofText_content {t : Task} {modified : Option Moment} (h : t.attributes = [])
    (hline : ∀ line ∈ (partsAt '\n' t.content.toList).head?, Framing.isDelimiter line = false) :
    t.document = .ok t.content ∧
      ofText t.id t.content modified = .ok ⟨t.id, [], t.content, modified⟩ := by
  have hbare : Framing.ofText t.content = .bare := by
    obtain ⟨p, ps, hps⟩ := List.exists_cons_of_ne_nil (partsAt_ne_nil '\n' t.content.toList)
    rw [hps] at hline
    rw [Framing.ofText, hps]
    dsimp only
    rw [hline p rfl, if_neg Bool.false_ne_true]
  constructor
  · rw [document, h, List.isEmpty_nil, if_pos rfl]
  · rw [ofText, ofDocument, hbare]

/-- With attributes a head stands before the content, and line breaks between them are lost. -/
theorem exists_document {t : Task} (hne : t.attributes ≠ [])
    (hkeys : (t.attributes.map Prod.fst).Nodup) (hall : ∀ a ∈ t.attributes, KeptAttribute a.1 a.2)
    (hlast : ∀ a ∈ t.attributes.getLast?, SolidValue a.2) (modified : Option Moment) :
    ∃ text, t.document = .ok text ∧ ofText t.id text modified
      = .ok ⟨t.id, t.attributes, String.ofList (t.content.toList.dropWhile (· = '\n')),
        modified⟩ := by
  obtain ⟨e, s, hwrite, hs, htidy, hundashed, hsolid, hread⟩ := exists_write hne hkeys hall
  have hdocument : t.document = .ok ("---\n" ++ trimEnd s ++ "\n---\n\n" ++ t.content) := by
    rw [document, List.isEmpty_eq_false_iff.mpr hne, if_neg Bool.false_ne_true]
    exact map_eq_ok.mpr ⟨s, hwrite, rfl⟩
  have htext : ("---\n" ++ trimEnd s ++ "\n---\n\n" ++ t.content).toList
      = "---\n".toList ++ e ++ "\n---\n\n".toList ++ t.content.toList := by
    simp only [String.toList_append, trimEnd_eq hs (hsolid hlast)]
  have hhead := readHead_of_object (hread _ String.toList_ofList) hkeys t.id
  refine ⟨_, hdocument, ?_⟩
  rw [ofText, ofDocument, Framing.ofText_framed hundashed htidy.undashed htext]
  exact map_eq_ok.mpr ⟨_, hhead, rfl⟩

/-- **A task is read as it was written**, without line breaks at the start of a content behind a
head. -/
theorem ofText_document {t : Task} (hkeys : (t.attributes.map Prod.fst).Nodup)
    (hall : ∀ a ∈ t.attributes, KeptAttribute a.1 a.2)
    (hlast : ∀ a ∈ t.attributes.getLast?, SolidValue a.2)
    (hbare : t.attributes = [] → ∀ line ∈ (partsAt '\n' t.content.toList).head?,
      Framing.isDelimiter line = false) (modified : Option Moment) :
    ∃ text, t.document = .ok text ∧
      ofText t.id text modified = .ok ⟨t.id, t.attributes, t.keptContent, modified⟩ := by
  by_cases hempty : t.attributes = []
  · obtain ⟨hdocument, hread⟩ := @ofText_content _ modified hempty (hbare hempty)
    refine ⟨_, hdocument, ?_⟩
    rw [hread, keptContent, hempty, List.isEmpty_nil, if_pos rfl]
  · obtain ⟨text, hdocument, hread⟩ := exists_document hempty hkeys hall hlast modified
    refine ⟨text, hdocument, ?_⟩
    rw [hread, keptContent, List.isEmpty_eq_false_iff.mpr hempty, if_neg Bool.false_ne_true]

/-- A short text of letters under a short key comes back. -/
theorem isKept_of_ascii {s : String} {m : Nat} (hline : '\x85' ∉ s.toList) (hm : m < Page.width) :
    IsKept m s.toList := ⟨fun h => absurd h hline, fun _ => .inl hm⟩

/-- A task with a list of tags comes back. -/
theorem tagged_task_comes_back :
    let t : Task := ⟨"t", [("status", .text "done"), ("tags", .list [.text "a", .text "b"])],
      "Body\n", none⟩
    ∃ text, t.document = .ok text ∧ ofText "t" text none = .ok t := by
  intro t
  have htext (s : String) (m : Nat) (hs : '\x85' ∉ s.toList) (hm : m + levelWidth < Page.width) :
      KeptValue m (.text s) := .text (isKept_of_ascii hs hm)
  have hcontent : t.keptContent = t.content := by decide
  suffices hback : ∃ text, t.document = .ok text ∧
      ofText t.id text none = .ok ⟨t.id, t.attributes, t.keptContent, none⟩ by
    rwa [hcontent] at hback
  refine ofText_document (t := t) (by decide) ?_ ?_ (fun h => absurd h (List.cons_ne_nil _ _)) none
  · refine List.forall_mem_cons.mpr ⟨.line (by decide) (by decide) ?_,
      List.forall_mem_singleton.mpr (.line (by decide) (by decide) ?_)⟩
    · exact htext "done" 0 (by decide) (by decide)
    · exact List.forall_mem_cons.mpr ⟨htext "a" 0 (by decide) (by decide),
        List.forall_mem_singleton.mpr (htext "b" 0 (by decide) (by decide))⟩
  · intro a ha
    cases ha
    refine .list fun v hv => ?_
    cases hv
    exact .text fun _ => ⟨'b', rfl, by decide⟩

/-- **A line break at the start of a content behind a head is lost.** -/
theorem leading_break_is_lost : ∃ text task,
    (⟨"t", [("a", .int 1)], "\nhi", none⟩ : Task).document = .ok text ∧
    ofText "t" text none = .ok task ∧ task.content ≠ "\nhi" := by
  have hone : KeptAttribute "a" (.int 1) :=
    .line (by decide) (by decide) (.int (Nat.le_trans digitCount_le (by decide)))
  obtain ⟨text, hdocument, hread⟩ := exists_document (t := ⟨"t", [("a", .int 1)], "\nhi", none⟩)
    (List.cons_ne_nil _ _) (by decide) (List.forall_mem_singleton.mpr hone) (fun a ha => by
      cases ha
      exact .other (fun _ => Value.noConfusion) fun _ => Value.noConfusion) none
  exact ⟨text, _, hdocument, hread, by decide⟩

end Task

end Taskboard
