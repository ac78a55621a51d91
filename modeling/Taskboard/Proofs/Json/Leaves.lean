import Taskboard.Proofs.Json.RoundTrip

/-!
# Proofs/Json/Leaves — what stands in a document stands in a scalar of it

The scalars in a value, at any depth and keys among them, are its leaves (`Value.leaves`).
Brackets, commas, colons and blanks frame them in a document, so a word without such characters
stands in the document of a plain value exactly if it stands in the text of one of its leaves
(`Json.infix_writeAt_iff`), whatever the layout.
-/

namespace Taskboard

namespace Value

/-! ## Leaves -/

mutual
/-- **The scalars in a value** at any depth, keys among them. -/
def leaves : Value → List Value
  | .list xs => leavesAll xs
  | .set xs => leavesAll xs
  | .map es => leavesEntries es
  | v => [v]
  termination_by structural v => v

/-- The scalars in the members of a list. -/
def leavesAll : List Value → List Value
  | [] => []
  | v :: vs => v.leaves ++ leavesAll vs
  termination_by structural vs => vs

/-- The scalars in the entries of a map. -/
def leavesEntries : List (Value × Value) → List Value
  | [] => []
  | (k, v) :: es => k.leaves ++ v.leaves ++ leavesEntries es
  termination_by structural es => es
end

theorem mem_leavesAll {x : Value} {vs : List Value} :
    x ∈ leavesAll vs ↔ ∃ v ∈ vs, x ∈ v.leaves := by
  induction vs with
  | nil => simp [leavesAll]
  | cons v vs ih => simp [leavesAll, ih]

theorem mem_leavesEntries {x : Value} {es : List (Value × Value)} :
    x ∈ leavesEntries es ↔ ∃ e ∈ es, x ∈ e.1.leaves ∨ x ∈ e.2.leaves := by
  induction es with
  | nil => simp [leavesEntries]
  | cons e es ih => simp [leavesEntries, ih, or_assoc]

mutual
/-- The texts in a value are its leaves that are texts. -/
theorem text_mem_leaves_iff {s : String} : ∀ v : Value, .text s ∈ v.leaves ↔ s ∈ v.texts
  | .null | .bool _ | .int _ | .real _ | .date _ | .moment _ | .bytes _ => by
    simp [leaves, texts]
  | .text t => by simp [leaves, texts]
  | .list xs => text_mem_leavesAll_iff xs
  | .set xs => text_mem_leavesAll_iff xs
  | .map es => text_mem_leavesEntries_iff es
  termination_by structural v => v

theorem text_mem_leavesAll_iff {s : String} : ∀ vs : List Value,
    .text s ∈ leavesAll vs ↔ s ∈ textsAll vs
  | [] => by simp [leavesAll, textsAll]
  | v :: vs => by
    rw [leavesAll, textsAll, List.mem_append, List.mem_append, text_mem_leaves_iff v,
      text_mem_leavesAll_iff vs]
  termination_by structural vs => vs

theorem text_mem_leavesEntries_iff {s : String} : ∀ es : List (Value × Value),
    .text s ∈ leavesEntries es ↔ s ∈ textsEntries es
  | [] => by simp [leavesEntries, textsEntries]
  | (k, v) :: es => by
    simp only [leavesEntries, textsEntries, List.mem_append, text_mem_leaves_iff k,
      text_mem_leaves_iff v, text_mem_leavesEntries_iff es]
  termination_by structural es => es
end

/-- A value without members. -/
def IsScalar : Value → Prop
  | .list _ | .set _ | .map _ => False
  | _ => True

mutual
theorem isScalar_of_mem_leaves {x : Value} : ∀ v : Value, x ∈ v.leaves → x.IsScalar
  | .null, h | .bool _, h | .int _, h | .real _, h | .text _, h | .date _, h | .moment _, h
  | .bytes _, h => List.mem_singleton.1 h ▸ trivial
  | .list xs, h => isScalar_of_mem_leavesAll xs h
  | .set xs, h => isScalar_of_mem_leavesAll xs h
  | .map es, h => isScalar_of_mem_leavesEntries es h
  termination_by structural v => v

theorem isScalar_of_mem_leavesAll {x : Value} : ∀ vs : List Value, x ∈ leavesAll vs → x.IsScalar
  | v :: vs, h =>
    (List.mem_append.1 h).elim (isScalar_of_mem_leaves v) (isScalar_of_mem_leavesAll vs)
  termination_by structural vs => vs

theorem isScalar_of_mem_leavesEntries {x : Value} :
    ∀ es : List (Value × Value), x ∈ leavesEntries es → x.IsScalar
  | (k, v) :: es, h => by
    rcases List.mem_append.1 h with h | h
    · exact (List.mem_append.1 h).elim (isScalar_of_mem_leaves k) (isScalar_of_mem_leaves v)
    · exact isScalar_of_mem_leavesEntries es h
  termination_by structural es => es
end

/-! ## Finite values -/

/-- **A value without infinite or undefined numbers**, at any depth and in keys. -/
def AllFinite (v : Value) : Prop := ∀ x, .real x ∈ v.leaves → x.isFinite = true

theorem allFinite_text (s : String) : (Value.text s).AllFinite := by simp [AllFinite, leaves]

theorem allFinite_list {xs : List Value} :
    (Value.list xs).AllFinite ↔ ∀ x ∈ xs, x.AllFinite := by
  simp only [AllFinite, leaves, mem_leavesAll]
  exact ⟨fun h x hx r hr => h r ⟨x, hx, hr⟩, fun h r ⟨x, hx, hr⟩ => h x hx r hr⟩

theorem allFinite_map {es : List (Value × Value)} :
    (Value.map es).AllFinite ↔ ∀ e ∈ es, e.1.AllFinite ∧ e.2.AllFinite := by
  simp only [AllFinite, leaves, mem_leavesEntries]
  constructor
  · exact fun h e he => ⟨fun r hr => h r ⟨e, he, .inl hr⟩, fun r hr => h r ⟨e, he, .inr hr⟩⟩
  · rintro h r ⟨e, he, hr | hr⟩
    · exact (h e he).1 r hr
    · exact (h e he).2 r hr

end Value

namespace Json

open Value

-- lists of characters are gone through one by one, also where an importing module knows other ways
attribute [local instance (high)] List.decidableBAll

/-! ## Words between frames -/

/-- A character that frames the scalars of a document. -/
def isFrame (c : Char) : Bool := isJsonBlank c || "[]\x7b\x7d,:".toList.contains c

/-- A part of a scalar's text: some characters, none of which frames scalars. -/
def IsWord (word : List Char) : Prop := word ≠ [] ∧ ∀ c ∈ word, isFrame c = false

instance (word : List Char) : Decidable (IsWord word) := by unfold IsWord; infer_instance

variable {word : List Char}

theorem IsWord.not_mem (h : IsWord word) {c : Char} (hc : isFrame c = true) : c ∉ word := by
  intro hmem
  rw [h.2 c hmem] at hc
  cases hc

/-- A word that starts a text goes no further than the first character that it lacks. -/
theorem prefix_of_not_mem {c : Char} (hc : c ∉ word) {a b : List Char}
    (hword : word <+: a ++ c :: b) : word <+: a := by
  rcases List.prefix_or_prefix_of_prefix hword (List.prefix_append a (c :: b)) with hpre | hpre
  · exact hpre
  · obtain ⟨rest, rfl⟩ := hpre
    cases rest with
    | nil => simp
    | cons d rest =>
      obtain ⟨tail, heq⟩ := hword
      rw [List.append_assoc, List.append_cancel_left_eq, List.cons_append] at heq
      obtain ⟨rfl, -⟩ := List.cons_eq_cons.1 heq
      exact absurd (by simp) hc

/-- **A word stands on one side of a character that it lacks.** -/
theorem infix_append_cons_iff {c : Char} (hc : c ∉ word) {a b : List Char} :
    word <:+: a ++ c :: b ↔ word <:+: a ∨ word <:+: b := by
  constructor
  · intro hword
    induction a with
    | nil =>
      rcases List.infix_cons_iff.1 hword with hpre | hin
      · exact .inl (prefix_of_not_mem hc (a := []) hpre).isInfix
      · exact .inr hin
    | cons x a ih =>
      rcases List.infix_cons_iff.1 hword with hpre | hin
      · exact .inl (prefix_of_not_mem hc (a := x :: a) hpre).isInfix
      · exact (ih hin).imp_left List.infix_cons
  · rintro (hword | hword)
    · exact hword.trans (List.prefix_append a (c :: b)).isInfix
    · exact hword.trans ((List.suffix_cons c b).trans (List.suffix_append a (c :: b))).isInfix

theorem infix_cons_iff_of_not_mem (hne : word ≠ []) {c : Char} (hc : c ∉ word) {b : List Char} :
    word <:+: c :: b ↔ word <:+: b := by
  have hiff := infix_append_cons_iff hc (a := []) (b := b)
  rwa [List.nil_append, List.infix_nil, or_iff_right hne] at hiff

theorem infix_frame_iff (h : IsWord word) {c : Char} (hc : isFrame c = true) {a b : List Char} :
    word <:+: a ++ c :: b ↔ word <:+: a ∨ word <:+: b := infix_append_cons_iff (h.not_mem hc)

theorem infix_frame_cons_iff (h : IsWord word) {c : Char} (hc : isFrame c = true)
    {b : List Char} : word <:+: c :: b ↔ word <:+: b :=
  infix_cons_iff_of_not_mem h.1 (h.not_mem hc)

/-- Frames before a text hold no word. -/
theorem infix_frames_append_iff (h : IsWord word) {gap : List Char}
    (hgap : ∀ c ∈ gap, isFrame c = true) {b : List Char} :
    word <:+: gap ++ b ↔ word <:+: b := by
  induction gap with
  | nil => rfl
  | cons c gap ih =>
    obtain ⟨hc, hgap⟩ := List.forall_mem_cons.1 hgap
    rw [List.cons_append, infix_frame_cons_iff h hc, ih hgap]

/-- Frames alone hold no word. -/
theorem not_infix_frames (h : IsWord word) {gap : List Char}
    (hgap : ∀ c ∈ gap, isFrame c = true) : ¬ word <:+: gap := by
  have hiff := infix_frames_append_iff h hgap (b := [])
  rw [List.append_nil, List.infix_nil] at hiff
  exact fun hin => h.1 (hiff.1 hin)

/-- Frames behind a text hold no word either. -/
theorem infix_append_frames_iff (h : IsWord word) {gap : List Char}
    (hgap : ∀ c ∈ gap, isFrame c = true) {a : List Char} :
    word <:+: a ++ gap ↔ word <:+: a := by
  cases gap with
  | nil => rw [List.append_nil]
  | cons c gap =>
    obtain ⟨hc, hgap⟩ := List.forall_mem_cons.1 hgap
    rw [infix_frame_iff h hc, or_iff_left (not_infix_frames h hgap)]

theorem isFrame_of_isGap {gap : List Char} (h : IsGap gap) : ∀ c ∈ gap, isFrame c = true :=
  fun c hc => by rw [isFrame, h c hc, Bool.true_or]

/-- A word stands in one of the texts that are joined. -/
theorem infix_joined_iff (h : IsWord word) (layout : Layout) (level : Nat) : ∀ ts : List String,
    word <:+: joined layout level ts ↔ ∃ t ∈ ts, word <:+: t.toList
  | [] => by simp [joined, h.1]
  | [t] => by simp [joined_singleton]
  | t :: u :: ts => by
    obtain ⟨gap, hgap, hsep⟩ := exists_separator layout level
    rw [joined_cons (by simp), hsep, List.append_assoc, List.cons_append,
      infix_frame_iff h (by decide), infix_frames_append_iff h (isFrame_of_isGap hgap),
      infix_joined_iff h layout level (u :: ts)]
    simp only [List.mem_cons, exists_eq_or_imp]

/-! ## Words in documents -/

variable {dates : DateRule}

/-- Brackets and indentation around members hold no word. -/
theorem infix_bracketed_iff (h : IsWord word) (layout : Layout) (level : Nat) {left right : Char}
    (hleft : isFrame left = true) (hright : isFrame right = true) (ts : List String) :
    word <:+: left :: ((breakLine layout (level + 1)).toList
        ++ (joined layout (level + 1) ts ++ ((breakLine layout level).toList ++ [right]))) ↔
      ∃ t ∈ ts, word <:+: t.toList := by
  have hbreak (level : Nat) := isFrame_of_isGap (isGap_breakLine layout level)
  rw [infix_frame_cons_iff h hleft, infix_frames_append_iff h (hbreak _),
    infix_append_frames_iff h, infix_joined_iff h]
  exact List.forall_mem_append.2 ⟨hbreak level, List.forall_mem_singleton.2 hright⟩

/-- An entry holds the words of its key and those of its value. -/
theorem infix_entry_iff (h : IsWord word) (key value : String) :
    word <:+: (key ++ ": " ++ value).toList ↔ word <:+: key.toList ∨ word <:+: value.toList := by
  have hcolon : (key ++ ": " ++ value).toList = key.toList ++ ':' :: ' ' :: value.toList := by simp
  rw [hcolon, infix_frame_iff h (by decide), infix_frame_cons_iff h (by decide)]

mutual
/-- **A word stands in a document exactly if it stands in a leaf of the value.** -/
theorem infix_writeAt_iff (h : IsWord word) (layout : Layout) : ∀ (v : Value) (level : Nat),
    IsPlain dates v → (word <:+: (writeAt layout level v).toList ↔
      ∃ x ∈ v.leaves, word <:+: (writeAt layout 0 x).toList)
  | .null, _, _ | .bool _, _, _ | .int _, _, _ | .real _, _, _ | .text _, _, _
  | .date _, _, _ | .moment _, _, _ | .bytes _, _, _ => by
    simp only [leaves, List.mem_singleton, exists_eq_left]
    rfl
  | .list [], level, _ => by
    rw [writeAt, leaves, leavesAll]
    exact iff_of_false (not_infix_frames h (by decide)) (by simp)
  | .list (x :: xs), level, hv => by
    rw [toList_writeAt_list, infix_bracketed_iff h layout level (by decide) (by decide),
      exists_infix_writeAll_iff h layout (x :: xs) _ (isPlain_list.1 hv)]
    rfl
  | .map [], level, _ => by
    rw [writeAt, leaves, leavesEntries]
    exact iff_of_false (not_infix_frames h (by decide)) (by simp)
  | .map (e :: es), level, hv => by
    rw [toList_writeAt_map, infix_bracketed_iff h layout level (by decide) (by decide),
      exists_infix_writeEntries_iff h layout (e :: es) _ (isPlain_map.1 hv)]
    rfl
  termination_by structural v => v

theorem exists_infix_writeAll_iff (h : IsWord word) (layout : Layout) :
    ∀ (xs : List Value) (level : Nat), (∀ x ∈ xs, IsPlain dates x) →
      ((∃ t ∈ writeAll layout level xs, word <:+: t.toList) ↔
        ∃ x ∈ leavesAll xs, word <:+: (writeAt layout 0 x).toList)
  | [], _, _ => by simp [writeAll, leavesAll]
  | x :: xs, level, hxs => by
    obtain ⟨hx, hrest⟩ := List.forall_mem_cons.1 hxs
    have hmember := infix_writeAt_iff h layout x level hx
    have hothers := exists_infix_writeAll_iff h layout xs level hrest
    simp only [writeAll, leavesAll, List.mem_cons, List.mem_append, or_and_right, exists_or,
      exists_eq_left, hmember, hothers]
  termination_by structural xs => xs

theorem exists_infix_writeEntries_iff (h : IsWord word) (layout : Layout) :
    ∀ (es : List (Value × Value)) (level : Nat), (∀ e ∈ es, IsPlainEntry dates e) →
      ((∃ t ∈ writeEntries layout level es, word <:+: t.toList) ↔
        ∃ x ∈ leavesEntries es, word <:+: (writeAt layout 0 x).toList)
  | [], _, _ => by simp [writeEntries, leavesEntries]
  | (k, v) :: es, level, hes => by
    obtain ⟨⟨⟨key, rfl⟩, hv⟩, hrest⟩ := List.forall_mem_cons.1 hes
    have hvalue := infix_writeAt_iff h layout v level hv
    have hothers := exists_infix_writeEntries_iff h layout es level hrest
    have hkey : writeAt layout 0 (.text key) = quoted layout.asciiOnly key := rfl
    simp only [writeEntries, leavesEntries, leaves, List.mem_cons, List.not_mem_nil, or_false,
      List.mem_append, or_and_right, exists_or, exists_eq_left, infix_entry_iff h, hkey, hvalue,
      hothers]
  termination_by structural es => es
end

end Json

end Taskboard
