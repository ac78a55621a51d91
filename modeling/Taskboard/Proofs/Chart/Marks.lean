import Taskboard.Proofs.Calendar.ShortText
import Taskboard.Proofs.Chart.Plain
import Taskboard.Proofs.Json.Escapes

/-!
# Proofs/Chart/Marks — what the check for executable text sees

The check looks for marks in a figure's document, where a text stands in quotes with its escapes.
The last character of an escape can stand for the first one of a mark, so a text may seem marked
that is not (`SeemsMarked`).  And a document with the name of a number that JSON lacks has each key
once, so a mark under a key that is repeated may not be in it.

* `hasMarker_writeAt_iff` — a document has a mark exactly if a text of the value seems marked.
* `check_finds_marks` — **when a figure with traces is refused.**
-/

namespace Taskboard

namespace Figure

open Json Value

-- lists of characters are gone through one by one, also where an importing module knows other ways
attribute [local instance (high)] List.decidableBAll

/-! ## Marks in texts -/

/-- **A value carries executable text**: a mark of it stands in one of its texts. -/
def IsMarked (v : Value) : Prop := ∃ s ∈ v.texts, hasMarker s = true

theorem hasMarker_iff {s : String} :
    hasMarker s = true ↔ ∃ m ∈ unsafeMarkers, m.toList <:+: s.toList := by
  simp only [hasMarker, List.any_eq_true, contains, occursIn_iff]

/-- A character that stands for a letter at the end of its escape. -/
def ShowsAs (letter c : Char) : Prop :=
  c = letter ∨ c = '\x0c' ∧ letter = 'f' ∨ IsCoded c ∧ Nat.digitChar (c.toNat % 16) = letter

/-- **A text seems marked in a document**: a mark stands in it, or would with another character in
the place of its first one. -/
def SeemsMarked (s : String) : Prop :=
  ∃ m ∈ unsafeMarkers, ∃ letter rest c, m.toList = letter :: rest ∧ ShowsAs letter c ∧
    c :: rest <:+: s.toList

/-- What is marked seems so. -/
theorem seemsMarked_of_hasMarker {s : String} (h : hasMarker s = true) : SeemsMarked s := by
  obtain ⟨m, hm, hin⟩ := hasMarker_iff.1 h
  have hne : ∀ m ∈ unsafeMarkers, m.toList ≠ [] := by decide
  obtain ⟨letter, rest, hcons⟩ := List.exists_cons_of_ne_nil (hne m hm)
  exact ⟨m, hm, letter, rest, letter, hcons, .inl rfl, hcons ▸ hin⟩

/-- **Among printable ASCII characters nothing else seems marked.** -/
theorem seemsMarked_iff_of_printable {s : String} (h : ∀ c ∈ s.toList, ¬ IsCoded c) :
    SeemsMarked s ↔ hasMarker s = true := by
  refine ⟨?_, seemsMarked_of_hasMarker⟩
  rintro ⟨m, hm, letter, rest, c, hcons, hshows, hin⟩
  have hc : ¬ IsCoded c := h c (hin.subset List.mem_cons_self)
  rcases hshows with rfl | ⟨rfl, -⟩ | ⟨hcoded, -⟩
  · exact hasMarker_iff.2 ⟨m, hm, hcons ▸ hin⟩
  · exact absurd (by decide) hc
  · exact absurd hcoded hc

/-- What a document needs of a mark: its characters need no escape, none of them frames scalars, and
escapes have no part of it but the first character. -/
structure IsMark (letter second : Char) (rest : List Char) : Prop where
  first : letter ∈ ['e', 'f', 'F']
  apart : ¬ MayFollow letter second
  plain : ∀ c ∈ second :: rest, escapeChar true c = [c]
  word : IsWord (letter :: second :: rest)
  call : '(' ∈ second :: rest

theorem exists_isMark {m : String} (hm : m ∈ unsafeMarkers) :
    ∃ letter second rest, m.toList = letter :: second :: rest ∧ IsMark letter second rest := by
  simp only [unsafeMarkers, List.mem_cons, List.not_mem_nil, or_false] at hm
  rcases hm with rfl | rfl | rfl
  · exact ⟨'f', 'u', "nction(".toList, rfl, by decide, by decide, by decide, by decide, by decide⟩
  · exact ⟨'e', 'v', "al(".toList, rfl, by decide, by decide, by decide, by decide, by decide⟩
  · exact ⟨'F', 'u', "nction(".toList, rfl, by decide, by decide, by decide, by decide, by decide⟩

/-! ## Marks in documents -/

variable {dates : DateRule} {letter second : Char} {rest : List Char}

/-- The text of a scalar that is no text has no call in it. -/
theorem paren_not_mem_writeAt {x : Value} (hx : x.IsScalar) (htext : ∀ s, x ≠ .text s) :
    '(' ∉ (writeAt compactLayout 0 x).toList := by
  have hparen : isNumeric '(' = false := by decide
  cases x with
  | text s => exact absurd rfl (htext s)
  | bool b => cases b <;> (rw [writeAt]; decide)
  | int n => exact fun h => Bool.eq_false_iff.1 hparen (isNumeric_intText n _ h)
  | real x => exact fun h => Bool.eq_false_iff.1 hparen (isNumeric_realText x _ h)
  | list | map | set => exact hx.elim
  | null | date | moment | bytes => exact (by decide : '(' ∉ "null".toList)

/-- **A document has a mark exactly if a text of the value shows it.** -/
theorem IsMark.infix_writeAt_iff (hmark : IsMark letter second rest) {v : Value}
    (hv : IsPlain dates v) :
    letter :: second :: rest <:+: (writeAt compactLayout 0 v).toList ↔
      ∃ s ∈ v.texts, ∃ c, ShowsAs letter c ∧ c :: second :: rest <:+: s.toList := by
  have hquote : letter ≠ '"' := by
    have hall : ∀ c ∈ ['e', 'f', 'F'], c ≠ '"' := by decide
    exact hall letter hmark.first
  have htext (s : String) : letter :: second :: rest <:+: (writeAt compactLayout 0 (.text s)).toList
      ↔ ∃ c, ShowsAs letter c ∧ c :: second :: rest <:+: s.toList := by
    have hquoted := infix_quoted_iff hquote hmark.apart hmark.plain s
    simp only [getLast?_escapeChar_iff hmark.first] at hquoted
    exact hquoted
  rw [Json.infix_writeAt_iff hmark.word compactLayout v 0 hv]
  constructor
  · rintro ⟨x, hx, hin⟩
    have hparen : '(' ∈ (writeAt compactLayout 0 x).toList :=
      hin.subset (List.mem_cons_of_mem _ hmark.call)
    cases x with
    | text s => exact ⟨s, (text_mem_leaves_iff v).1 hx, (htext s).1 hin⟩
    | _ => exact absurd hparen (paren_not_mem_writeAt (isScalar_of_mem_leaves v hx) nofun)
  · rintro ⟨s, hs, hin⟩
    exact ⟨.text s, (text_mem_leaves_iff v).2 hs, (htext s).2 hin⟩

/-- **A document has a mark exactly if a text of the value seems marked.** -/
theorem hasMarker_writeAt_iff {v : Value} (hv : IsPlain dates v) :
    hasMarker (writeAt compactLayout 0 v) = true ↔ ∃ s ∈ v.texts, SeemsMarked s := by
  rw [hasMarker_iff]
  constructor
  · rintro ⟨m, hm, hin⟩
    obtain ⟨letter, second, rest, hcons, hmark⟩ := exists_isMark hm
    obtain ⟨s, hs, c, hshows, hin⟩ := (hmark.infix_writeAt_iff hv).1 (hcons ▸ hin)
    exact ⟨s, hs, m, hm, letter, second :: rest, c, hcons, hshows, hin⟩
  · rintro ⟨s, hs, m, hm, letter, rest, c, hcons, hshows, hin⟩
    obtain ⟨letter, second, rest, hcons', hmark⟩ := exists_isMark hm
    obtain ⟨rfl, rfl⟩ := List.cons_eq_cons.1 (hcons'.symm.trans hcons)
    exact ⟨m, hm, hcons ▸ (hmark.infix_writeAt_iff hv).2 ⟨s, hs, c, hshows, hin⟩⟩

/-- **A mark in a text of a plain value is in the value's document.** -/
theorem hasMarker_writeAt {v : Value} (hv : IsPlain dates v) (h : IsMarked v) :
    hasMarker (writeAt compactLayout 0 v) = true := by
  obtain ⟨s, hs, hmark⟩ := h
  exact (hasMarker_writeAt_iff hv).2 ⟨s, hs, seemsMarked_of_hasMarker hmark⟩

/-! ## Texts that are written -/

/-- A stamp is made of digits and the characters between them. -/
theorem paren_not_mem_padZeros (width n : Nat) : '(' ∉ (padZeros width (natText n)).toList := by
  rw [padZeros_natText, String.toList_ofList]
  exact fun h => absurd ((digits_paddedDigits width n).2 _ h) (by decide)

theorem paren_not_mem_isoText (d : Date) : '(' ∉ d.isoText.toList := by
  simp [Date.isoText, paren_not_mem_padZeros]

theorem paren_not_mem_momentText {m : Moment} {t : String} (h : m.isoText = .ok t) :
    '(' ∉ t.toList := by
  have hclock : '(' ∉ m.clockText.toList := by
    unfold Moment.clockText
    dsimp only
    split <;> simp [paren_not_mem_padZeros]
  have hbase : '(' ∉ (m.date.isoText ++ "T" ++ m.clockText).toList := by
    simp [paren_not_mem_isoText, hclock]
  rw [Moment.isoText, Moment.text] at h
  split at h
  next =>
    obtain rfl := Except.ok.inj h
    exact hbase
  next seconds hoffset =>
    have hsign : '(' ∉ (if seconds < 0 then "-" else "+").toList := by
      split <;> decide
    have htext : '(' ∉ (Moment.offsetText seconds).toList := by
      unfold Moment.offsetText
      dsimp only
      split <;> simp [paren_not_mem_padZeros, hsign]
    split at h
    next =>
      obtain rfl := Except.ok.inj h
      rw [String.toList_append, List.mem_append, not_or]
      exact ⟨hbase, htext⟩
    next => cases h

/-- A text with a call is the text of a key only if it is the key. -/
theorem mem_texts_key_iff {s t : String} (hs : '(' ∈ s.toList) {k : Value}
    (h : keyText k = .ok t) : s = t ↔ s ∈ k.texts := by
  have hother (hk : k.texts = []) (ht : '(' ∉ t.toList) : s = t ↔ s ∈ k.texts :=
    iff_of_false (fun heq => ht (heq ▸ hs)) (by simp [hk])
  cases k with
  | text t => cases h; simp [texts]
  | int n =>
    rw [keyText, wholeText] at h
    split at h
    · cases h
    · cases h
      exact hother rfl fun hin => absurd (isNumeric_intText n _ hin) (by decide)
  | real x =>
    cases h
    exact hother rfl fun hin => absurd (isNumeric_realText x _ hin) (by decide)
  | bool b => cases b <;> cases h <;> exact hother rfl (by decide)
  | null => cases h; exact hother rfl (by decide)
  | _ => cases h

mutual
/-- **The plain form of a value has the texts of the value**, among those with a call in them: dates
and the keys that are no texts have none. -/
theorem mem_texts_plain_iff {s : String} (hs : '(' ∈ s.toList) : ∀ (v : Value) {p : Value},
    plain isoDates v = .ok p → (s ∈ p.texts ↔ s ∈ v.texts)
  | .null, _, h | .bool _, _, h | .real _, _, h | .text _, _, h => by cases h; rfl
  | .int n, _, h => by
    obtain ⟨_, -, rfl⟩ := map_eq_ok.1 h
    rfl
  | .date d, p, h => by
    obtain rfl : .text d.isoText = p := Except.ok.inj h
    refine iff_of_false (fun hin => ?_) (by simp [texts])
    exact paren_not_mem_isoText d (List.mem_singleton.1 hin ▸ hs)
  | .moment m, _, h => by
    obtain ⟨t, ht, rfl⟩ := map_eq_ok.1 h
    refine iff_of_false (fun hin => ?_) (by simp [texts])
    exact paren_not_mem_momentText ht (List.mem_singleton.1 hin ▸ hs)
  | .list xs, _, h => by
    obtain ⟨ys, hys, rfl⟩ := map_eq_ok.1 h
    exact mem_texts_plainAll_iff hs xs hys
  | .map es, _, h => by
    obtain ⟨fs, hfs, rfl⟩ := map_eq_ok.1 h
    exact mem_texts_plainEntries_iff hs es hfs
  termination_by structural v => v

theorem mem_texts_plainAll_iff {s : String} (hs : '(' ∈ s.toList) : ∀ (xs : List Value)
    {ys : List Value}, plainAll isoDates xs = .ok ys → (s ∈ textsAll ys ↔ s ∈ textsAll xs)
  | [], _, h => by cases h; rfl
  | x :: xs, _, h => by
    obtain ⟨y, hy, h⟩ := bind_eq_ok.1 h
    obtain ⟨ys, hys, rfl⟩ := map_eq_ok.1 h
    rw [textsAll, textsAll, List.mem_append, List.mem_append, mem_texts_plain_iff hs x hy,
      mem_texts_plainAll_iff hs xs hys]
  termination_by structural xs => xs

theorem mem_texts_plainEntries_iff {s : String} (hs : '(' ∈ s.toList) :
    ∀ (es : List (Value × Value)) {fs : List (Value × Value)},
      plainEntries isoDates es = .ok fs → (s ∈ textsEntries fs ↔ s ∈ textsEntries es)
  | [], _, h => by cases h; rfl
  | (k, v) :: es, _, h => by
    obtain ⟨t, ht, h⟩ := bind_eq_ok.1 h
    obtain ⟨w, hw, h⟩ := bind_eq_ok.1 h
    obtain ⟨fs, hfs, rfl⟩ := map_eq_ok.1 h
    simp only [textsEntries, List.mem_append, texts, List.mem_singleton,
      mem_texts_key_iff hs ht, mem_texts_plain_iff hs v hw, mem_texts_plainEntries_iff hs es hfs]
  termination_by structural es => es
end

theorem textsEntries_append (es fs : List (Value × Value)) :
    textsEntries (es ++ fs) = textsEntries es ++ textsEntries fs := by
  induction es with
  | nil => rfl
  | cons e es ih =>
    obtain ⟨k, v⟩ := e
    simp only [List.cons_append, textsEntries, ih, List.append_assoc]

mutual
/-- A faithful value keeps its texts. -/
theorem texts_strict : ∀ v : Value, Faithful v → (strict v).texts = v.texts
  | .null, _ | .bool _, _ | .int _, _ | .text _, _ => rfl
  | .real x, _ => by
    rw [strict]
    split <;> rfl
  | .list xs, h => textsAll_strictAll xs h
  | .map es, ⟨h, hkeys⟩ => @textsEntries_strictEntries es [] h hkeys (by simp)
  termination_by structural v => v

theorem textsAll_strictAll : ∀ xs : List Value, FaithfulAll xs →
    textsAll (strictAll xs) = textsAll xs
  | [], _ => rfl
  | x :: xs, ⟨hx, hxs⟩ => by
    rw [strictAll, textsAll, texts_strict x hx, textsAll_strictAll xs hxs, textsAll]
  termination_by structural xs => xs

theorem textsEntries_strictEntries : ∀ (es : List (Value × Value)) {seen : List (String × Value)},
    FaithfulEntries es → ((named es).map Prod.fst).Nodup →
      (∀ k ∈ (named es).map Prod.fst, k ∉ seen.map Prod.fst) →
      textsEntries (strictEntries (seen.map fun (k, v) => (.text k, v)) es)
        = textsEntries (seen.map fun (k, v) => (.text k, v)) ++ textsEntries es
  | [], seen, _, _, _ => (List.append_nil _).symm
  | (k, v) :: es, seen, h, hkeys, hseen => by
    obtain ⟨⟨k, rfl⟩, hv, hes⟩ := h
    rw [named, List.map_cons, List.nodup_cons] at hkeys
    rw [named, List.map_cons, List.forall_mem_cons] at hseen
    rw [strictEntries, putEntry_text, putEntry_of_not_mem hseen.1,
      textsEntries_strictEntries es hes hkeys.2 (not_mem_concat hkeys.1 hseen.2),
      List.map_append, textsEntries_append]
    simp [textsEntries, texts_strict v hv]
  termination_by structural es => es
end

theorem mem_textsEntries_putEntry {s : String} {eq : Value → Value → Bool} {k v : Value} :
    ∀ {es : List (Value × Value)}, s ∈ textsEntries (putEntry eq k v es) →
      s ∈ textsEntries es ∨ s ∈ k.texts ∨ s ∈ v.texts
  | [], h => by simpa [putEntry, textsEntries] using h
  | (l, w) :: es, h => by
    rw [putEntry] at h
    split at h
    · simp only [textsEntries, List.mem_append] at h ⊢
      tauto
    · have hmore := @mem_textsEntries_putEntry s eq k v es
      simp only [textsEntries, List.mem_append] at h ⊢
      tauto

mutual
/-- No text comes to a value. -/
theorem mem_texts_of_mem_strict {s : String} : ∀ v : Value, s ∈ (strict v).texts → s ∈ v.texts
  | .null, h | .bool _, h | .int _, h | .text _, h | .date _, h | .moment _, h | .bytes _, h
  | .set _, h => h
  | .real x, h => by
    rw [strict] at h
    split at h <;> exact h
  | .list xs, h => mem_texts_of_mem_strictAll xs h
  | .map es, h => (mem_texts_of_mem_strictEntries es h).resolve_left (by simp [textsEntries])
  termination_by structural v => v

theorem mem_texts_of_mem_strictAll {s : String} : ∀ xs : List Value,
    s ∈ textsAll (strictAll xs) → s ∈ textsAll xs
  | x :: xs, h => by
    rw [strictAll, textsAll, List.mem_append] at h
    exact List.mem_append.2
      (h.imp (mem_texts_of_mem_strict x) (mem_texts_of_mem_strictAll xs))
  termination_by structural xs => xs

theorem mem_texts_of_mem_strictEntries {s : String} : ∀ (es : List (Value × Value))
    {seen : List (Value × Value)}, s ∈ textsEntries (strictEntries seen es) →
      s ∈ textsEntries seen ∨ s ∈ textsEntries es
  | [], _, h => .inl h
  | (k, v) :: es, _, h => by
    rw [textsEntries, List.mem_append, List.mem_append]
    rcases mem_texts_of_mem_strictEntries es h with hput | hes
    · exact (mem_textsEntries_putEntry hput).imp_right fun hin =>
        .inl (hin.imp_right (mem_texts_of_mem_strict v))
    · exact .inr (.inr hes)
  termination_by structural es => es
end

theorem mem_texts_of_mem_documented {s : String} {p : Value} (h : s ∈ (documented p).texts) :
    s ∈ p.texts := by
  rw [documented] at h
  split at h
  · exact mem_texts_of_mem_strict p h
  · exact h

/-! ## The check -/

/-- **A figure is written with all of its texts**: its keys differ, or its document has no name of a
number that JSON lacks. -/
def KeepsTexts (p : Value) : Prop :=
  Faithful p ∨ namesLacking (writeAt compactLayout 0 p) = false

theorem isPlain_documented {p : Value} (hp : IsPlain dates p) : IsPlain dates (documented p) := by
  rw [documented]
  split
  · exact isPlain_of_faithful _ (isStrict_strict p hp).faithful
  · exact hp

theorem texts_documented {p : Value} (h : KeepsTexts p) : (documented p).texts = p.texts := by
  rw [documented]
  split
  next hnames =>
    rcases h with h | h
    · exact texts_strict p h
    · exact absurd hnames (Bool.eq_false_iff.1 h)
  next => rfl

/-- **With traces the whole document is searched** for marks. -/
theorem flaw?_of_filled {v p data : Value} (hp : plain isoDates v = .ok p)
    (hdata : v.field? "data" = .ok (some data)) (hfilled : isFilledList data = true) :
    flaw? v = .ok (if hasMarker (writeAt compactLayout 0 (documented p)) then some .executable
      else none) := by
  have htrue : v.isTrue = true := by
    cases v with
    | map es =>
      cases es with
      | nil => cases hdata
      | cons => rfl
    | _ => cases hdata
  have hdocument : document v = .ok (writeAt compactLayout 0 (documented p)) :=
    map_eq_ok.2 ⟨p, hp, rfl⟩
  simp only [flaw?, htrue, hdata, hdocument, Except.bind, Except.map, Option.getD_some, hfilled,
    if_true, Bool.not_true, Bool.false_eq_true, if_false]

theorem paren_mem_of_seemsMarked {s : String} (h : SeemsMarked s) : '(' ∈ s.toList := by
  obtain ⟨m, hm, letter, rest, c, hcons, -, hin⟩ := h
  obtain ⟨_, second, rest, hcons', hmark⟩ := exists_isMark hm
  obtain ⟨rfl, rfl⟩ := List.cons_eq_cons.1 (hcons'.symm.trans hcons)
  exact hin.subset (List.mem_cons_of_mem _ hmark.call)

/-- A document has a mark exactly if a text that is written seems marked. -/
theorem flaw?_eq_none_iff {v p data : Value} (hp : plain isoDates v = .ok p)
    (hdata : v.field? "data" = .ok (some data)) (hfilled : isFilledList data = true) :
    flaw? v = .ok none ↔ ∀ s ∈ (documented p).texts, ¬ SeemsMarked s := by
  have hiff := hasMarker_writeAt_iff (isPlain_documented (isPlain_of_plain v hp))
  rw [flaw?_of_filled hp hdata hfilled]
  by_cases hmark : ∃ s ∈ (documented p).texts, SeemsMarked s
  · rw [if_pos (hiff.2 hmark)]
    obtain ⟨s, hs, hseems⟩ := hmark
    exact iff_of_false (by simp) fun hnone => hnone s hs hseems
  · rw [if_neg (mt hiff.1 hmark)]
    exact iff_of_true rfl fun s hs hseems => hmark ⟨s, hs, hseems⟩

/-- **When a figure with traces is refused.** It is found fit, or it is refused for executable text.
It is fit exactly if no text that is written seems marked, and so if none of its own texts does.  If
it is written with all of them, it is fit in no other case; and if they are of printable ASCII
characters, it is fit exactly if it carries no executable text. -/
theorem check_finds_marks {v p data : Value} (hp : plain isoDates v = .ok p)
    (hdata : v.field? "data" = .ok (some data)) (hfilled : isFilledList data = true) :
    (flaw? v = .ok none ∨ flaw? v = .ok (some .executable)) ∧
    (flaw? v = .ok none ↔ ∀ s ∈ (documented p).texts, ¬ SeemsMarked s) ∧
    ((∀ s ∈ v.texts, ¬ SeemsMarked s) → flaw? v = .ok none) ∧
    (KeepsTexts p → (flaw? v = .ok none ↔ ∀ s ∈ v.texts, ¬ SeemsMarked s)) ∧
    (KeepsTexts p → (∀ s ∈ v.texts, ∀ c ∈ s.toList, ¬ IsCoded c) →
      (flaw? v = .ok none ↔ ¬ IsMarked v)) := by
  have hfit := flaw?_eq_none_iff hp hdata hfilled
  have hown {s : String} (hseems : SeemsMarked s) : s ∈ p.texts ↔ s ∈ v.texts :=
    mem_texts_plain_iff (paren_mem_of_seemsMarked hseems) v hp
  have hnone (h : ∀ s ∈ v.texts, ¬ SeemsMarked s) : flaw? v = .ok none :=
    hfit.2 fun s hs hseems => h s ((hown hseems).1 (mem_texts_of_mem_documented hs)) hseems
  have hkept (hkeeps : KeepsTexts p) : flaw? v = .ok none ↔ ∀ s ∈ v.texts, ¬ SeemsMarked s := by
    refine ⟨fun h s hs hseems => hfit.1 h s ?_ hseems, hnone⟩
    rw [texts_documented hkeeps]
    exact (hown hseems).2 hs
  refine ⟨?_, hfit, hnone, hkept, fun hkeeps hprintable => ?_⟩
  · rw [flaw?_of_filled hp hdata hfilled]
    split
    · exact .inr rfl
    · exact .inl rfl
  · rw [hkept hkeeps]
    constructor
    · rintro h ⟨s, hs, hmark⟩
      exact h s hs (seemsMarked_of_hasMarker hmark)
    · intro h s hs hseems
      exact h ⟨s, hs, (seemsMarked_iff_of_printable (hprintable s hs)).1 hseems⟩

/-- A figure with an undefined number and a key that is a truth value. -/
def evaluation : Value :=
  .map [(.text "data", .list [.text "evaluation (1)", .real .nan]), (.bool true, .text "function")]

/-- It is fit: no text of it has a mark. -/
theorem evaluation_is_fit : ∃ p data, plain isoDates evaluation = .ok p ∧
    evaluation.field? "data" = .ok (some data) ∧ isFilledList data = true ∧ KeepsTexts p ∧
    (∀ s ∈ evaluation.texts, ∀ c ∈ s.toList, ¬ IsCoded c) ∧ ¬ IsMarked evaluation ∧
    flaw? evaluation = .ok none := by
  have hkeeps : KeepsTexts (.map [(.text "data", .list [.text "evaluation (1)", .real .nan]),
      (.text "true", .text "function")]) := by
    refine .inl ⟨⟨⟨_, rfl⟩, ⟨trivial, trivial, trivial⟩, ⟨_, rfl⟩, trivial, trivial⟩, ?_⟩
    simp [named]
  have hprintable : ∀ s ∈ evaluation.texts, ∀ c ∈ s.toList, ¬ IsCoded c := by decide
  have hclean : ¬ IsMarked evaluation := by
    rintro ⟨s, hs, hmark⟩
    have hall : ∀ s ∈ evaluation.texts, hasMarker s = false := by decide
    rw [hall s hs] at hmark
    cases hmark
  obtain ⟨-, -, -, -, hiff⟩ := @check_finds_marks evaluation _ _ rfl rfl rfl
  exact ⟨_, _, rfl, rfl, rfl, hkeeps, hprintable, hclean, (hiff hkeeps hprintable).2 hclean⟩

/-- A form feed before the rest of a mark. -/
def formFeed : Value := .map [(.text "data", .list [.text "\x0cunction("])]

/-- An undefined number, and a call under a key that is repeated. -/
def repeatedKey : Value :=
  .map [(.text "data", .list [.real .nan]),
    (.text "layout", .map [(.bool true, .text "eval("), (.text "true", .text "x")])]

/-- **A figure without executable text is refused, and one with it is found fit**: the escape of a
form feed ends in an f, and of a repeated key only the last value is written. -/
theorem check_misses_marks :
    (¬ IsMarked formFeed ∧ flaw? formFeed = .ok (some .executable)) ∧
    IsMarked repeatedKey ∧ flaw? repeatedKey = .ok none := by
  refine ⟨⟨?_, ?_⟩, ⟨"eval(", by decide, by decide⟩, ?_⟩
  · rintro ⟨s, hs, hmark⟩
    have hall : ∀ s ∈ formFeed.texts, hasMarker s = false := by decide
    rw [hall s hs] at hmark
    cases hmark
  · have hseems : SeemsMarked "\x0cunction(" :=
      ⟨"function(", by decide, 'f', _, '\x0c', rfl, .inr (.inl ⟨rfl, rfl⟩), List.infix_rfl⟩
    have hplain : IsPlain isoDates formFeed := rfl
    have hmarker := (hasMarker_writeAt_iff (isPlain_documented hplain)).2
      ⟨_, by decide +kernel, hseems⟩
    rw [flaw?_of_filled hplain rfl rfl, hmarker]
    rfl
  · have hplain : plain isoDates repeatedKey = .ok (.map [(.text "data", .list [.real .nan]),
        (.text "layout", .map [(.text "true", .text "eval("), (.text "true", .text "x")])]) := rfl
    have hmarker : hasMarker (writeAt compactLayout 0 (documented (.map [
        (.text "data", .list [.real .nan]),
        (.text "layout", .map [(.text "true", .text "eval("), (.text "true", .text "x")])])))
        = false := by decide +kernel
    rw [flaw?_of_filled hplain rfl rfl, hmarker]
    rfl

end Figure

end Taskboard
