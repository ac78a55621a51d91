import Mathlib.Control.Monad.Basic
import Taskboard.Filter.Compare
import Taskboard.Proofs.Calendar.ShortText
import Taskboard.Proofs.Number.Leading
import Taskboard.Proofs.Pattern.Reader
import Taskboard.Proofs.Value.Numbers
import Taskboard.Proofs.Value.Printing

/-!
# Proofs/Filter/Compare — when a comparison has an answer

A comparison fails where one side cannot be told: its number, where a whole number lies beyond the
doubles or an information separator stands before the digits of a text (`Value.TellsNumber`); its
text, where a whole number is too long or a moment too far from UTC (`Value.Captioned`); the
pattern, where a count of repetitions is too large or two flags exclude each other.

* `Value.exists_leadingNumber_iff` — the values whose leading number can be told.
* `compareValues_answers` — **exactly these comparisons have an answer**, and where there is no
  number, no pattern or no operator it is false.
-/

namespace Taskboard

open Pattern (HasLargeCount MayTurnOn flagOf?)

/-! ## Leading numbers -/

/-- The number at the start of a text can be read if there is one. -/
def LeadReadable (s : String) : Prop :=
  leadingNumberText? s ≠ none → ∀ c ∈ s.toList.takeWhile isBlank, isSeparator c = false

theorem exists_readLead_iff (s : String) :
    (∃ x, (match leadingNumberText? s with
      | none => .ok none
      | some t => (readReal t).map some : Except Fault (Option Binary64)) = .ok x) ↔
      LeadReadable s := by
  unfold LeadReadable
  cases h : leadingNumberText? s with
  | none => exact iff_of_true ⟨none, rfl⟩ fun hne => absurd rfl hne
  | some t =>
    dsimp only
    rw [exists_map_eq_ok, exists_readReal_leading_iff h]
    exact ⟨fun hclean _ => hclean, fun hclean => hclean nofun⟩

/-- A text starts with what is no blank. -/
def StartsBare (s : String) : Prop := ∃ c cs, s.toList = c :: cs ∧ isBlank c = false

namespace StartsBare

theorem leadReadable {s : String} (h : StartsBare s) : LeadReadable s := by
  obtain ⟨c, cs, hs, hc⟩ := h
  intro _
  rw [hs, List.takeWhile_cons_of_neg (by simp [hc])]
  exact List.forall_mem_nil _

theorem append {s : String} (h : StartsBare s) (t : String) : StartsBare (s ++ t) := by
  obtain ⟨c, cs, hs, hc⟩ := h
  exact ⟨c, cs ++ t.toList, by rw [String.toList_append, hs, List.cons_append], hc⟩

theorem padZeros (width n : Nat) : StartsBare (padZeros width (natText n)) := by
  obtain ⟨hne, hdigits⟩ := digits_paddedDigits width n
  obtain ⟨c, cs, hcs⟩ := List.exists_cons_of_ne_nil hne
  refine ⟨c, cs, by rw [padZeros_natText, String.toList_ofList, hcs], ?_⟩
  have hdigit : c.isDigit = true := hdigits c (hcs ▸ List.mem_cons_self)
  obtain ⟨hlow, hhigh⟩ := Char.isDigit_iff_toNat.mp hdigit
  have hcodes : ∀ n < 58, 48 ≤ n → isBlank (Char.ofNat n) = false := by decide
  exact Char.ofNat_toNat c ▸ hcodes c.toNat (Nat.lt_succ_of_le hhigh) hlow

theorem isoText (d : Date) : StartsBare d.isoText :=
  ((((padZeros 4 d.year).append _).append _).append _).append _

theorem momentText {m : Moment} {separator s : String} (h : m.text separator = .ok s) :
    StartsBare s := by
  have hbase := ((isoText m.date).append separator).append m.clockText
  unfold Moment.text at h
  dsimp only at h
  split at h
  next => exact Except.ok.inj h ▸ hbase
  next =>
    split at h
    next => exact Except.ok.inj h ▸ hbase.append _
    next => cases h

end StartsBare

namespace Value

/-- **A value whose leading number can be told.** -/
def TellsNumber : Value → Prop
  | .bool _ | .real _ => True
  | .int n => (Value.int n).inReals = true
  | .text s => LeadReadable s
  | v => v.Shown

variable {v : Value} {s : String}

/-- Only a text can start with a blank. -/
theorem startsBare_shown (h : v.shown = .ok s) (hnumber : v.isNumber = false)
    (htext : ∀ t, v ≠ .text t) : StartsBare s := by
  cases v with
  | text t => exact absurd rfl (htext t)
  | bool _ | int _ | real _ => cases hnumber
  | null => exact Except.ok.inj h ▸ ⟨'N', _, rfl, rfl⟩
  | date d => exact Except.ok.inj h ▸ .isoText d
  | moment m => exact .momentText h
  | bytes bs => exact Except.ok.inj h ▸ ⟨'b', _, String.toList_ofList, rfl⟩
  | list xs =>
    obtain ⟨ts, -, rfl⟩ := map_eq_ok.mp h
    exact (StartsBare.append ⟨'[', [], rfl, rfl⟩ _).append _
  | map es =>
    obtain ⟨ts, -, rfl⟩ := map_eq_ok.mp h
    exact (StartsBare.append ⟨'\x7b', [], rfl, rfl⟩ _).append _
  | set xs =>
    cases xs with
    | nil => exact Except.ok.inj h ▸ ⟨'s', _, rfl, rfl⟩
    | cons x xs =>
      obtain ⟨ts, -, rfl⟩ := map_eq_ok.mp h
      exact (StartsBare.append ⟨'\x7b', [], rfl, rfl⟩ _).append _

theorem leadingNumber_eq (hnumber : v.isNumber = false) :
    v.leadingNumber = v.shown.bind fun s =>
      match leadingNumberText? s with
      | none => .ok none
      | some t => (readReal t).map some := by
  cases v with
  | bool _ | int _ | real _ => cases hnumber
  | _ => rfl

theorem exists_leadingNumber_iff_shown (hnumber : v.isNumber = false) (htext : ∀ t, v ≠ .text t) :
    (∃ x, v.leadingNumber = .ok x) ↔ v.Shown := by
  rw [leadingNumber_eq hnumber, ← exists_shown_iff]
  cases h : v.shown with
  | error e => exact iff_of_false not_exists_error not_exists_error
  | ok s =>
    have hlead := (startsBare_shown h hnumber htext).leadReadable
    exact iff_of_true ((exists_readLead_iff s).mpr hlead) ⟨s, rfl⟩

/-- **The leading number of a value can be told exactly if it tells one.** -/
theorem exists_leadingNumber_iff (v : Value) :
    (∃ x, v.leadingNumber = .ok x) ↔ v.TellsNumber := by
  cases v with
  | bool b => exact iff_of_true ⟨none, rfl⟩ trivial
  | real x => exact iff_of_true ⟨some x, rfl⟩ trivial
  | int n =>
    simp only [leadingNumber, exists_map_eq_ok, TellsNumber, inReals, toReal]
    generalize Binary64.ofInt? n = x
    cases x with
    | none => exact iff_of_false not_exists_error Bool.false_ne_true
    | some x => exact iff_of_true ⟨x, rfl⟩ rfl
  | text s => exact exists_readLead_iff s
  | _ => exact exists_leadingNumber_iff_shown rfl (by simp)

end Value

/-! ## Comparisons -/

/-- The text of a pattern that is one, or is merely malformed. -/
def PatternSettled (s : String) : Prop :=
  ∀ e, Pattern.read [.ignoreCase] s = .error e → e = .malformed

/-- **A comparison whose two sides can be told** as its operator takes them. -/
def Comparable (value : Value) (operator : String) (operand : Value) : Prop :=
  match Comparison.ofOperator? operator with
  | some .greater | some .less | some .greaterOrEqual | some .lessOrEqual =>
    value.TellsNumber ∧ operand.TellsNumber
  | some .pattern =>
    value.Captioned ∧ operand.Shown ∧ ∀ s, operand.shown = .ok s → PatternSettled s
  | _ => value.Captioned ∧ operand.Captioned

variable {value operand : Value} {operator : String}

theorem exists_compareNumbers_iff (holds : Binary64 → Binary64 → Bool) :
    (∃ b, compareNumbers holds value operand = .ok b) ↔
      value.TellsNumber ∧ operand.TellsNumber := by
  rw [compareNumbers, exists_bind_eq_ok fun _ => exists_map_eq_ok,
    Value.exists_leadingNumber_iff, Value.exists_leadingNumber_iff]

theorem exists_compareCaptions_iff (holds : String → String → Bool) :
    (∃ b, compareCaptions holds value operand = .ok b) ↔
      value.Captioned ∧ operand.Captioned := by
  rw [compareCaptions, exists_bind_eq_ok fun _ => exists_map_eq_ok, Value.exists_caption_iff,
    Value.exists_caption_iff]

theorem matchesPattern_eq {s text : String} (hpattern : operand.shown = .ok s)
    (hcaption : value.caption = .ok text) :
    matchesPattern value operand =
      match Pattern.read [.ignoreCase] s with
      | .ok p => .ok (p.pattern.occursIn p.groups p.flags text)
      | .error e =>
        match e.fault? with
        | some f => .error f
        | none => .ok false := by
  rw [matchesPattern, hpattern, hcaption]
  rfl

theorem exists_matchesPattern_iff :
    (∃ b, matchesPattern value operand = .ok b) ↔
      value.Captioned ∧ operand.Shown ∧ ∀ s, operand.shown = .ok s → PatternSettled s := by
  rw [← Value.exists_caption_iff, ← Value.exists_shown_iff]
  cases hpattern : operand.shown with
  | error e =>
    refine iff_of_false ?_ fun h => not_exists_error h.2.1
    rw [matchesPattern, hpattern]
    exact not_exists_error
  | ok s =>
    cases hcaption : value.caption with
    | error e =>
      refine iff_of_false ?_ fun h => not_exists_error h.1
      rw [matchesPattern, hpattern, hcaption]
      exact not_exists_error
    | ok text =>
      rw [matchesPattern_eq hpattern hcaption]
      have hsettled : (∀ t, Except.ok (ε := Fault) s = .ok t → PatternSettled t) ↔
          PatternSettled s :=
        ⟨fun h => h s rfl, fun h t ht => Except.ok.inj ht ▸ h⟩
      rw [and_iff_right ⟨text, rfl⟩, and_iff_right ⟨s, rfl⟩, hsettled, PatternSettled]
      cases Pattern.read [.ignoreCase] s with
      | ok p => exact iff_of_true ⟨_, rfl⟩ nofun
      | error e =>
        simp only [Except.error.injEq, forall_eq']
        cases e with
        | malformed => exact iff_of_true ⟨false, rfl⟩ rfl
        | countTooLarge | countTooLong | flagsExclude =>
          exact iff_of_false not_exists_error nofun

/-- **Exactly the comparable ones have an answer.** -/
theorem exists_compareValues_iff :
    (∃ b, compareValues value operator operand = .ok b) ↔ Comparable value operator operand := by
  unfold compareValues Comparable
  cases Comparison.ofOperator? operator with
  | none => exact exists_compareCaptions_iff _
  | some c =>
    cases c with
    | greater | less | greaterOrEqual | lessOrEqual => exact exists_compareNumbers_iff _
    | pattern => exact exists_matchesPattern_iff
    | equal | unequal | contains | startsWith | endsWith => exact exists_compareCaptions_iff _

/-! ## Where there is nothing to compare -/

/-- A value that has no number at its start, or an undefined one. -/
def Value.Unordered (v : Value) : Prop :=
  v.leadingNumber = .ok none ∨ v.leadingNumber = .ok (some .nan)

theorem compareNumbers_of_unordered {holds : Binary64 → Binary64 → Bool}
    (hnan : ∀ x, holds .nan x = false ∧ holds x .nan = false) (hvalue : value.TellsNumber)
    (hoperand : operand.TellsNumber) (h : value.Unordered ∨ operand.Unordered) :
    compareNumbers holds value operand = .ok false := by
  obtain ⟨a, ha⟩ := (Value.exists_leadingNumber_iff value).mpr hvalue
  obtain ⟨b, hb⟩ := (Value.exists_leadingNumber_iff operand).mpr hoperand
  simp only [Value.Unordered, ha, hb, Except.ok.injEq] at h
  rw [compareNumbers, ha, hb]
  refine congrArg Except.ok ?_
  rcases h with (rfl | rfl) | (rfl | rfl)
  · rfl
  · cases b with
    | none => rfl
    | some y => exact (hnan y).1
  · cases a <;> rfl
  · cases a with
    | none => rfl
    | some x => exact (hnan x).2

theorem lt_nan (x : Binary64) : Binary64.nan.lt x = false ∧ x.lt .nan = false := by
  refine ⟨rfl, ?_⟩
  unfold Binary64.lt
  cases x.place? <;> rfl

theorem le_nan (x : Binary64) : Binary64.nan.le x = false ∧ x.le .nan = false := by
  refine ⟨rfl, ?_⟩
  unfold Binary64.le
  cases x.place? <;> rfl

/-- **What has no number stands in no order.** -/
theorem compareValues_of_unordered (horder : operator ∈ [">", "<", ">=", "<="])
    (h : Comparable value operator operand) (hnone : value.Unordered ∨ operand.Unordered) :
    compareValues value operator operand = .ok false := by
  simp only [List.mem_cons, List.not_mem_nil, or_false] at horder
  rcases horder with rfl | rfl | rfl | rfl
  · exact compareNumbers_of_unordered (fun x => (lt_nan x).symm) h.1 h.2 hnone
  · exact compareNumbers_of_unordered lt_nan h.1 h.2 hnone
  · exact compareNumbers_of_unordered (fun x => (le_nan x).symm) h.1 h.2 hnone
  · exact compareNumbers_of_unordered le_nan h.1 h.2 hnone

/-- **A malformed pattern occurs nowhere.** -/
theorem compareValues_of_malformed {s : String} (h : Comparable value "regex" operand)
    (hs : operand.shown = .ok s) (hmalformed : Pattern.read [.ignoreCase] s = .error .malformed) :
    compareValues value "regex" operand = .ok false := by
  obtain ⟨text, htext⟩ := (Value.exists_caption_iff value).mpr h.1
  have heq := matchesPattern_eq hs htext
  rw [hmalformed] at heq
  exact heq

/-- **An operator of no known name holds for nothing.** -/
theorem compareValues_of_unknown (hunknown : Comparison.ofOperator? operator = none)
    (h : Comparable value operator operand) :
    compareValues value operator operand = .ok false := by
  unfold Comparable at h
  rw [hunknown] at h
  obtain ⟨a, ha⟩ := (Value.exists_caption_iff value).mpr h.1
  obtain ⟨b, hb⟩ := (Value.exists_caption_iff operand).mpr h.2
  rw [compareValues, hunknown]
  dsimp only
  rw [compareCaptions, ha, hb]
  rfl

/-! ## Patterns without large counts -/

/-- A flag that is off at the start is on only if the text has its letter. -/
theorem mem_of_mayTurnOn {cs : List Char} {f : Flag} {letter : Char} (hoff : f ∉ [Flag.ignoreCase])
    (hletter : ∀ c, flagOf? c = some f → c = letter) (h : MayTurnOn [.ignoreCase] cs f) :
    letter ∈ cs := by
  obtain ⟨c, hc, hf⟩ := h.resolve_left hoff
  exact hletter c hf ▸ hc

/-- **A text without digits of a large count** and without one of two letters is a pattern, or it is
merely malformed. -/
theorem patternSettled_of_small {s : String} (hcount : ¬HasLargeCount s.toList)
    (hflags : ¬('a' ∈ s.toList ∧ 'u' ∈ s.toList)) : PatternSettled s := by
  intro e he
  obtain hmalformed | hlarge | ⟨hascii, hunicode⟩ := Pattern.read_error he
  · exact hmalformed
  · exact absurd hlarge hcount
  · have ha : 'a' ∈ s.toList := mem_of_mayTurnOn (by decide)
      (fun c hc => by unfold flagOf? at hc; split at hc <;> simp_all) hascii
    have hu : 'u' ∈ s.toList := mem_of_mayTurnOn (by decide)
      (fun c hc => by unfold flagOf? at hc; split at hc <;> simp_all) hunicode
    exact absurd ⟨ha, hu⟩ hflags

/-! ## Answers -/

/-- **When a comparison has an answer**, and what it is where there is no number, no pattern or no
operator.  The second part names the patterns that are always settled. -/
theorem compareValues_answers (value operand : Value) (operator : String) :
    ((∃ b, compareValues value operator operand = .ok b) ↔ Comparable value operator operand) ∧
      (∀ s, ¬HasLargeCount s.toList → ¬('a' ∈ s.toList ∧ 'u' ∈ s.toList) → PatternSettled s) ∧
      (Comparable value operator operand →
        (operator ∈ [">", "<", ">=", "<="] → value.Unordered ∨ operand.Unordered →
          compareValues value operator operand = .ok false) ∧
        (∀ s, operator = "regex" → operand.shown = .ok s →
          Pattern.read [.ignoreCase] s = .error .malformed →
            compareValues value operator operand = .ok false) ∧
        (Comparison.ofOperator? operator = none →
          compareValues value operator operand = .ok false)) := by
  refine ⟨exists_compareValues_iff, fun s => patternSettled_of_small, fun h => ⟨?_, ?_, ?_⟩⟩
  · intro horder hnone
    exact compareValues_of_unordered horder h hnone
  · rintro s rfl hs hmalformed
    exact compareValues_of_malformed h hs hmalformed
  · intro hunknown
    exact compareValues_of_unknown hunknown h

/-- A text without a number, a pattern that does not close its group, and an unknown operator. -/
theorem compareValues_answers_false :
    compareValues (.text "high") ">" (.int 1) = .ok false ∧
      compareValues (.text "x") "regex" (.text "(x") = .ok false ∧
      compareValues (.text "x") "like" (.text "x") = .ok false := by
  have hread : Pattern.read [.ignoreCase] "(x" = .error .malformed := rfl
  have hlead : leadingNumberText? "high" = none := by decide
  have hone : (Value.int 1).inReals = true := by decide +kernel
  have hnumbers : Comparable (.text "high") ">" (.int 1) := ⟨fun h => absurd hlead h, hone⟩
  have hpattern : Comparable (.text "x") "regex" (.text "(x") := by
    refine ⟨trivial, trivial, fun s hs e he => ?_⟩
    obtain rfl := Except.ok.inj hs
    exact Except.error.inj (he.symm.trans hread)
  have hcaptions : Comparable (.text "x") "like" (.text "x") := ⟨trivial, trivial⟩
  have hunordered : (Value.text "high").Unordered := .inl (by decide +kernel)
  exact ⟨((compareValues_answers _ _ _).2.2 hnumbers).1 (by decide) (.inl hunordered),
    ((compareValues_answers _ _ _).2.2 hpattern).2.1 "(x" rfl rfl hread,
    ((compareValues_answers _ _ _).2.2 hcaptions).2.2 rfl⟩

/-- **Comparisons without an answer**: of a whole number beyond the doubles, of a number behind an
information separator, with patterns that have too large a count or two alphabets, and of the text
of a whole number with too many digits. -/
theorem compareValues_fails :
    compareValues (.int (Int.pow 10 400)) ">" (.int 1) = .error .numberTooLarge ∧
      compareValues (.text "\x1c5") "<=" (.int 5) = .error .unreadableNumber ∧
      compareValues (.text "x") "regex" (.text "a\x7b4294967295\x7d") = .error .numberTooLarge ∧
      compareValues (.text "x") "regex" (.text "(?a)(?u)x") = .error .flagsExclude ∧
      compareValues (.int (Nat.pow 10 5000)) "==" (.text "x") = .error .tooManyDigits := by
  decide +kernel

end Taskboard
