import Taskboard.Proofs.Chart.Traces
import Taskboard.Proofs.Value.Measures

/-!
# Proofs/Chart/Lines — the lines of a text and the quotes on them

A text that is put together from items, with line breaks between, has a line for each item and one
more for each line break in an item.  What stands in double quotes is read back by cutting a line at
its quotes and taking every second part (`readQuoted`).

* `lineCount_intercalate` — lines and line breaks of a text that is put together.
* `readQuoted_listed` — texts in quotes are read back.
* `breaks_axesLines`, `readQuoted_axesLines` — **the lines of a diagram with axes.**
-/

namespace Taskboard

-- sums are those of the naturals, also where an importing module knows other ones
attribute [local instance (high)] Zero.ofOfNat0

/-! ## Lines -/

/-- How many line breaks a text has. -/
def lineBreaks (s : String) : Nat := s.toList.count '\n'

/-- How many lines a text has. -/
def lineCount (s : String) : Nat := (partsAt '\n' s.toList).length

@[simp] theorem lineBreaks_append (s t : String) :
    lineBreaks (s ++ t) = lineBreaks s + lineBreaks t := by
  rw [lineBreaks, String.toList_append, List.count_append]
  rfl

theorem length_partsAt (sep : Char) (cs : List Char) :
    (partsAt sep cs).length = cs.count sep + 1 := by
  induction cs with
  | nil => rfl
  | cons c cs ih =>
    rw [partsAt, List.count_cons]
    split
    next hc => rw [List.length_cons, ih, if_pos (beq_iff_eq.mpr hc)]
    next hc =>
      obtain ⟨p, ps, hps⟩ := List.exists_cons_of_ne_nil (partsAt_ne_nil sep cs)
      rw [hps] at ih ⊢
      rw [if_neg (by simpa using hc)]
      exact ih

/-- A text has one line more than line breaks. -/
theorem lineCount_eq (s : String) : lineCount s = lineBreaks s + 1 := length_partsAt '\n' s.toList

/-- **Texts with line breaks between** have a line each, and one more for each of their own line
breaks. -/
theorem lineCount_intercalate : ∀ {ts : List String}, ts ≠ [] →
    lineCount (String.intercalate "\n" ts) = ts.length + (ts.map lineBreaks).sum
  | [t], _ => by
    rw [String.intercalate_singleton, lineCount_eq]
    simp [Nat.add_comm]
  | t :: u :: ts, _ => by
    have ih := lineCount_intercalate (List.cons_ne_nil u ts)
    have hbreak : lineBreaks "\n" = 1 := by decide
    rw [lineCount_eq] at ih ⊢
    rw [String.intercalate_cons_cons, lineBreaks_append, lineBreaks_append, hbreak, List.map_cons,
      List.sum_cons, List.length_cons]
    omega

/-- Other characters in place of others break no line. -/
theorem lineBreaks_replaceChar {old new : Char} (hold : old ≠ '\n') (hnew : new ≠ '\n')
    (s : String) : lineBreaks (replaceChar old new s) = lineBreaks s := by
  unfold lineBreaks replaceChar
  rw [String.toList_ofList]
  induction s.toList with
  | nil => rfl
  | cons c cs ih =>
    rw [List.map_cons, List.count_cons, List.count_cons, ih]
    by_cases hc : c = old
    · rw [if_pos hc, hc]
      simp [hold, hnew]
    · rw [if_neg hc]

/-- The texts of numbers break no line. -/
theorem lineBreaks_of_isNumberText {t : String} (h : Value.IsNumberText t) : lineBreaks t = 0 := by
  refine List.count_eq_zero_of_not_mem fun hmem => ?_
  exact absurd (h.2 _ hmem) (by decide)

@[simp] theorem lineBreaks_inQuotes (s : String) : lineBreaks (inQuotes s) = lineBreaks s := by
  rw [inQuotes, lineBreaks_append, lineBreaks_append]
  exact Nat.zero_add _

/-- The texts of numbers have no quotes. -/
theorem quote_not_mem_of_isNumberText {t : String} (h : Value.IsNumberText t) : '"' ∉ t.toList :=
  fun hmem => absurd (h.2 _ hmem) (by decide)

/-! ## Line breaks -/

/-- The line breaks of some texts. -/
def breaks (ts : List String) : Nat := (ts.map lineBreaks).sum

@[simp] theorem breaks_nil : breaks [] = 0 := rfl

@[simp] theorem breaks_cons (t : String) (ts : List String) :
    breaks (t :: ts) = lineBreaks t + breaks ts := by
  simp [breaks]

@[simp] theorem breaks_append (ts us : List String) :
    breaks (ts ++ us) = breaks ts + breaks us := by
  simp [breaks]

/-- The line breaks of the words of some things are those of each of them. -/
theorem breaks_flatMap {α : Type} (words : α → List String) (xs : List α) :
    breaks (xs.flatMap words) = (xs.map fun x => breaks (words x)).sum := by
  induction xs with
  | nil => rfl
  | cons x xs ih => rw [List.flatMap_cons, breaks_append, ih, List.map_cons, List.sum_cons]

theorem breaks_flatten (tss : List (List String)) : breaks tss.flatten = (tss.map breaks).sum := by
  induction tss with
  | nil => rfl
  | cons ts tss ih => rw [List.flatten_cons, breaks_append, ih, List.map_cons, List.sum_cons]

/-- What is done to texts breaks no lines if it breaks none of each text. -/
theorem breaks_map {f : String → String} (h : ∀ t, lineBreaks (f t) = lineBreaks t)
    (ts : List String) : breaks (ts.map f) = breaks ts := by
  rw [breaks, List.map_map]
  exact congrArg List.sum (List.map_congr_left fun t _ => h t)

/-! ## Quotes -/

/-- A text that can stand in double quotes. -/
def unquoted (s : String) : String := replaceChar '"' '\'' s

@[simp] theorem lineBreaks_unquoted (s : String) : lineBreaks (unquoted s) = lineBreaks s :=
  lineBreaks_replaceChar (by decide) (by decide) s

theorem quote_not_mem_unquoted (s : String) : '"' ∉ (unquoted s).toList := by
  rw [unquoted, replaceChar, String.toList_ofList]
  intro hmem
  obtain ⟨c, -, hc⟩ := List.mem_map.mp hmem
  split at hc
  next => exact absurd hc (by decide)
  next hne => exact hne hc

/-- Every second element of a list. -/
def everySecond {α : Type} : List α → List α
  | _ :: b :: rest => b :: everySecond rest
  | _ => []

/-- The texts that stand in double quotes, each of which ends where the next quote is. -/
def readQuoted (line : String) : List String :=
  (everySecond (partsAt '"' line.toList)).map String.ofList

theorem readQuoted_of_not_mem {s : String} (h : '"' ∉ s.toList) : readQuoted s = [] := by
  rw [readQuoted, partsAt_of_not_mem h]
  rfl

/-- The first text in quotes is read back. -/
theorem readQuoted_append {a t : String} (ha : '"' ∉ a.toList) (ht : '"' ∉ t.toList)
    (rest : String) : readQuoted (a ++ inQuotes t ++ rest) = t :: readQuoted rest := by
  have hlist : (a ++ inQuotes t ++ rest).toList
      = a.toList ++ '"' :: (t.toList ++ '"' :: rest.toList) := by
    simp [inQuotes]
  rw [readQuoted, hlist, partsAt_append ha, partsAt_append ht, everySecond, List.map_cons,
    String.ofList_toList]
  rfl

/-- **Texts in quotes with commas between** are read back. -/
theorem readQuoted_listed : ∀ {a b : String} {ts : List String}, '"' ∉ a.toList → '"' ∉ b.toList →
    (∀ t ∈ ts, '"' ∉ t.toList) → readQuoted (a ++ listed (ts.map inQuotes) ++ b) = ts
  | a, b, [], ha, hb, _ => by
    refine readQuoted_of_not_mem ?_
    simp [listed, ha, hb]
  | a, b, [t], ha, hb, ht => by
    have hone : listed ([t].map inQuotes) = inQuotes t := String.intercalate_singleton
    rw [hone, readQuoted_append ha (ht t List.mem_cons_self), readQuoted_of_not_mem hb]
  | a, b, t :: u :: ts, ha, hb, hts => by
    have hmore : listed ((t :: u :: ts).map inQuotes)
        = inQuotes t ++ (", " ++ listed ((u :: ts).map inQuotes)) := by
      rw [← String.append_assoc]
      exact String.intercalate_cons_cons
    rw [hmore, ← String.append_assoc, String.append_assoc,
      readQuoted_append ha (hts t List.mem_cons_self),
      readQuoted_listed (by decide) hb fun v hv => hts v (List.mem_cons_of_mem t hv)]

/-! ## Diagrams with axes -/

/-- Commas and blanks aside, a list of texts has the characters of the texts. -/
theorem count_listed {c : Char} (hc : c ∉ ", ".toList) : ∀ ts : List String,
    (listed ts).toList.count c = (ts.map fun t => t.toList.count c).sum
  | [] => rfl
  | [t] => by
    rw [listed, String.intercalate_singleton]
    simp
  | t :: u :: ts => by
    have ih := count_listed hc (u :: ts)
    rw [listed] at ih
    rw [listed, String.intercalate_cons_cons, String.toList_append, String.toList_append,
      List.count_append, List.count_append, ih, List.count_eq_zero_of_not_mem hc, Nat.add_zero]
    rfl

@[simp] theorem lineBreaks_listed (ts : List String) : lineBreaks (listed ts) = breaks ts :=
  count_listed (by decide) ts

section

variable {title axisTitle bound mark : String} {labels values : List String}

/-- A diagram with axes breaks where its texts do. -/
theorem breaks_axesLines (hbound : lineBreaks bound = 0) (hmark : lineBreaks mark = 0)
    (hvalues : breaks values = 0) : breaks (axesLines title labels axisTitle bound mark values)
      = lineBreaks title + breaks labels + lineBreaks axisTitle := by
  have hplain : lineBreaks "xychart-beta" = 0 ∧ lineBreaks "    title " = 0 ∧
      lineBreaks "    x-axis [" = 0 ∧ lineBreaks "]" = 0 ∧ lineBreaks "    y-axis " = 0 ∧
      lineBreaks " 0 --> " = 0 ∧ lineBreaks "    " = 0 ∧ lineBreaks " [" = 0 := by decide
  obtain ⟨h1, h2, h3, h4, h5, h6, h7, h8⟩ := hplain
  simp only [axesLines, breaks_cons, breaks_nil, lineBreaks_append, lineBreaks_inQuotes,
    lineBreaks_listed, breaks_map lineBreaks_inQuotes, hbound, hmark, hvalues, h1, h2, h3, h4, h5,
    h6, h7, h8]
  omega

/-- **Titles in quotes are read back**, whatever is read from the line of the labels. -/
theorem readQuoted_axesLines (htitle : '"' ∉ title.toList) (haxisTitle : '"' ∉ axisTitle.toList)
    (hbound : '"' ∉ bound.toList) (hmark : '"' ∉ mark.toList)
    (hvalues : ∀ t ∈ values, '"' ∉ t.toList) :
    (axesLines title labels axisTitle bound mark values).map readQuoted = [[], [title],
      readQuoted ("    x-axis [" ++ listed (labels.map inQuotes) ++ "]"), [axisTitle], []] := by
  have hlisted : '"' ∉ (listed values).toList := by
    rw [← List.count_eq_zero, count_listed (by decide), List.sum_eq_zero_iff_forall_eq_nat]
    intro n hn
    obtain ⟨t, ht, rfl⟩ := List.mem_map.mp hn
    exact List.count_eq_zero_of_not_mem (hvalues t ht)
  have hfirst : readQuoted "xychart-beta" = [] := readQuoted_of_not_mem (by decide)
  have hsecond : readQuoted ("    title " ++ inQuotes title) = [title] := by
    rw [← String.append_empty (s := "    title " ++ inQuotes title),
      readQuoted_append (by decide) htitle, readQuoted_of_not_mem (by decide)]
  have hfourth : readQuoted ("    y-axis " ++ inQuotes axisTitle ++ " 0 --> " ++ bound)
      = [axisTitle] := by
    rw [String.append_assoc, readQuoted_append (by decide) haxisTitle, readQuoted_of_not_mem]
    simp [hbound]
  have hfifth : readQuoted ("    " ++ mark ++ " [" ++ listed values ++ "]") = [] := by
    refine readQuoted_of_not_mem ?_
    simp [hmark, hlisted]
  simp only [axesLines, List.map_cons, List.map_nil, hfirst, hsecond, hfourth, hfifth]

/-- Labels in quotes are read back. -/
theorem readQuoted_labels (hlabels : ∀ t ∈ labels, '"' ∉ t.toList) :
    readQuoted ("    x-axis [" ++ listed (labels.map inQuotes) ++ "]") = labels :=
  readQuoted_listed (by decide) (by decide) hlabels

end

/-- Numbers in a diagram are written without line breaks and quotes. -/
theorem breaks_numbers {vs : List Value} {places : Nat} {ts : List String}
    (h : vs.mapM (·.compactNumber places) = .ok ts) :
    breaks ts = 0 ∧ ∀ t ∈ ts, '"' ∉ t.toList := by
  have hnumber : ∀ t ∈ ts, Value.IsNumberText t := fun t ht => by
    obtain ⟨v, -, hv⟩ := exists_left_of_forall₂ (mapM_eq_ok.mp h) ht
    exact Value.isNumberText_of_compactNumber hv
  constructor
  · rw [breaks, List.sum_eq_zero_iff_forall_eq_nat]
    intro n hn
    obtain ⟨t, ht, rfl⟩ := List.mem_map.mp hn
    exact lineBreaks_of_isNumberText (hnumber t ht)
  · exact fun t ht => quote_not_mem_of_isNumberText (hnumber t ht)

end Taskboard
