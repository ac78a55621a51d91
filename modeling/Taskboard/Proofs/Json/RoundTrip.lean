import Taskboard.Proofs.Json.Plain
import Taskboard.Proofs.Json.Scalars
import Taskboard.Proofs.Number.Whole

/-!
# Proofs/Json/RoundTrip — documents are read as they were written

A value is *faithful* (`Json.Faithful`) if JSON can hold it as it is: whole numbers are short enough
to be written, and the keys of a map are texts that differ.

* `Json.read_writeAt_of_isPlain` — the document of a plain value is read as the value with each key
  once (`Json.merged`), in any layout.
* `Json.read_write` — **a faithful value is written, and its document is read as the value.**
-/

namespace Taskboard.Json

variable {dates : DateRule}

/-! ## Faithful values -/

/-- The entries of a map under texts. -/
def named : List (Value × Value) → List (String × Value)
  | [] => []
  | (.text k, v) :: es => (k, v) :: named es
  | _ :: es => named es

mutual
/-- **A value that JSON can hold as it is.** -/
def Faithful : Value → Prop
  | .null | .bool _ | .real _ | .text _ => True
  | .int n => IsShort n
  | .list xs => FaithfulAll xs
  | .map es => FaithfulEntries es ∧ ((named es).map Prod.fst).Nodup
  | _ => False
  termination_by structural v => v

/-- The members of a list are faithful. -/
def FaithfulAll : List Value → Prop
  | [] => True
  | x :: xs => Faithful x ∧ FaithfulAll xs
  termination_by structural xs => xs

/-- The values of some entries are faithful, and their keys are texts. -/
def FaithfulEntries : List (Value × Value) → Prop
  | [] => True
  | (k, v) :: es => (∃ s, k = .text s) ∧ Faithful v ∧ FaithfulEntries es
  termination_by structural es => es
end

theorem map_named : ∀ {es : List (Value × Value)}, FaithfulEntries es →
    (named es).map (fun (k, v) => (Value.text k, v)) = es
  | [], _ => rfl
  | (k, v) :: es, h => by
    obtain ⟨⟨s, rfl⟩, -, hes⟩ := h
    rw [named, List.map_cons, map_named hes]

/-! ## Repeated keys -/

mutual
/-- **A value with each key once**: the last value of a repeated key counts, in the place of the
first. -/
def merged : Value → Value
  | .list xs => .list (mergedAll xs)
  | .map es => .map ((mergedEntries [] es).map fun (k, v) => (.text k, v))
  | v => v
  termination_by structural v => v

/-- The members of a list with each key once. -/
def mergedAll : List Value → List Value
  | [] => []
  | x :: xs => merged x :: mergedAll xs
  termination_by structural xs => xs

/-- The entries of a map under texts with each key once, put to those before. -/
def mergedEntries (done : List (String × Value)) : List (Value × Value) → List (String × Value)
  | [] => done
  | (.text k, v) :: es => mergedEntries (putEntry (· == ·) k (merged v) done) es
  | _ :: es => mergedEntries done es
  termination_by structural es => es
end

/-! ## The layout -/

/-- A gap between tokens. -/
def IsGap (cs : List Char) : Prop := ∀ c ∈ cs, isJsonBlank c = true

theorem skipBlanks_gap {g r : List Char} (hgap : IsGap g)
    (hrest : ∀ c ∈ r.head?, isJsonBlank c = false) : skipBlanks (g ++ r) = r :=
  (span_append hgap hrest).2

theorem isGap_breakLine (layout : Layout) (level : Nat) :
    IsGap (breakLine layout level).toList := by
  unfold breakLine
  cases layout.indent with
  | none => simp [IsGap]
  | some n =>
    intro c hc
    rw [String.toList_ofList, List.mem_cons] at hc
    rcases hc with rfl | hc
    · rfl
    · rw [List.eq_of_mem_replicate hc]
      rfl

/-- What stands between two members: a comma and a gap. -/
theorem exists_separator (layout : Layout) (level : Nat) :
    ∃ gap, IsGap gap ∧ (separator layout level).toList = ',' :: gap := by
  unfold separator
  cases layout.indent with
  | none =>
    refine ⟨[' '], by simp [IsGap, isJsonBlank], ?_⟩
    change (", " : String).toList = [',', ' ']
    decide
  | some n => exact ⟨_, isGap_breakLine layout level, by simp⟩

/-- What may follow a value: no part of a number. -/
theorem endsNumber_gap {g : List Char} {c : Char} {r : List Char} (hgap : IsGap g)
    (hc : isDigit c = false ∧ c ≠ '.' ∧ c ≠ 'e' ∧ c ≠ 'E') : EndsNumber (g ++ c :: r) := by
  have hblank {d : Char} (h : isJsonBlank d = true) :
      isDigit d = false ∧ d ≠ '.' ∧ d ≠ 'e' ∧ d ≠ 'E' := by
    simp only [isJsonBlank, Bool.or_eq_true, decide_eq_true_eq] at h
    rcases h with ((rfl | rfl) | rfl) | rfl <;> decide
  rcases g with _ | ⟨d, ds⟩
  · rintro _ ⟨rfl⟩
    exact hc
  · rintro _ ⟨rfl⟩
    exact hblank (hgap d List.mem_cons_self)

/-! ## The first character of a value -/

/-- Whether a value starts here: no blank, and no bracket or brace that closes. -/
def StartsValue (cs : List Char) : Prop :=
  ∃ c ds, cs = c :: ds ∧ isJsonBlank c = false ∧ c ≠ ']' ∧ c ≠ '\x7d'

/-- The first characters of atoms. -/
def isAtomStart (c : Char) : Bool := c.isDigit || "-ntfNI".toList.contains c

theorem isAtomStart_ne {c d : Char} (hc : isAtomStart c = true) (hd : isAtomStart d = false) :
    c ≠ d := by
  rintro rfl
  rw [hc] at hd
  cases hd

theorem isAtomStart_intText (n : Int) : ∃ c ∈ (intText n).toList.head?, isAtomStart c = true := by
  rw [toList_intText]
  obtain ⟨c, cs, hcs⟩ := List.exists_cons_of_ne_nil (Nat.toDigits_ne_nil (n := n.natAbs) (b := 10))
  have hdigit := isDigit_toDigits (n := n.natAbs) (c := c) (by simp [hcs])
  split
  · exact ⟨'-', by simp, by decide⟩
  · exact ⟨c, by simp [hcs], by simp [isAtomStart, hdigit]⟩

theorem isAtomStart_realText (x : Binary64) :
    ∃ c ∈ (realText x).toList.head?, isAtomStart c = true := by
  rcases x with _ | s | ⟨s, m⟩
  · exact ⟨'N', rfl, by decide⟩
  · cases s
    · exact ⟨'I', rfl, by decide⟩
    · exact ⟨'-', rfl, by decide⟩
  · obtain ⟨n, hfit, htext, -⟩ := Binary64.exists_numeral s m
    obtain ⟨c, cs, hcs⟩ := List.exists_cons_of_ne_nil hfit.whole_ne_nil
    have hdigit := hfit.whole_digits c (by simp [hcs])
    have hreal : realText (.finite s m) = (Binary64.finite s m).text := rfl
    rw [hreal, htext]
    cases s
    · exact ⟨c, by simp [Numeral.text, hcs], by simp [isAtomStart, hdigit]⟩
    · exact ⟨'-', by simp, by decide⟩

theorem startsValue_atom {cs : List Char} (h : ∃ c ∈ cs.head?, isAtomStart c = true) :
    StartsValue cs := by
  obtain ⟨c, hc, hstart⟩ := h
  obtain ⟨ds, rfl⟩ := List.head?_eq_some_iff.1 hc
  refine ⟨c, ds, rfl, ?_, isAtomStart_ne hstart (by decide), isAtomStart_ne hstart (by decide)⟩
  simp [isJsonBlank, isAtomStart_ne hstart (d := ' ') (by decide),
    isAtomStart_ne hstart (d := '\t') (by decide), isAtomStart_ne hstart (d := '\n') (by decide),
    isAtomStart_ne hstart (d := '\r') (by decide)]

theorem readValue_atom {cs : List Char} (h : ∃ c ∈ cs.head?, isAtomStart c = true) (fuel : Nat)
    (rest : List Char) : readValue (fuel + 1) (cs ++ rest) = readAtom (cs ++ rest) := by
  obtain ⟨c, hc, hstart⟩ := h
  obtain ⟨ds, rfl⟩ := List.head?_eq_some_iff.1 hc
  rw [List.cons_append, readValue]
  · rintro r ⟨⟩
    exact absurd hstart (by decide)
  · rintro r ⟨⟩
    exact absurd hstart (by decide)
  · rintro r ⟨⟩
    exact absurd hstart (by decide)

/-- **A value has its first character where its text starts.** -/
theorem startsValue_writeAt (layout : Layout) (level : Nat) :
    ∀ v : Value, StartsValue (writeAt layout level v).toList
  | .null | .date _ | .moment _ | .bytes _ | .set _ =>
    startsValue_atom ⟨'n', by simp [writeAt], by decide⟩
  | .bool true => startsValue_atom ⟨'t', by rw [writeAt]; decide, by decide⟩
  | .bool false => startsValue_atom ⟨'f', by rw [writeAt]; decide, by decide⟩
  | .int n => startsValue_atom (isAtomStart_intText n)
  | .real x => startsValue_atom (isAtomStart_realText x)
  | .text s => ⟨'"', _, by rw [writeAt, quoted, String.toList_ofList]; rfl, by decide⟩
  | .list [] => ⟨'[', [']'], by rw [writeAt]; decide, by decide⟩
  | .list (x :: xs) => ⟨'[', _, by simp [writeAt]; rfl, by decide⟩
  | .map [] => ⟨'\x7b', ['\x7d'], by rw [writeAt]; decide, by decide⟩
  | .map (e :: es) => ⟨'\x7b', _, by simp [writeAt]; rfl, by decide⟩

theorem StartsValue.append {cs : List Char} (h : StartsValue cs) (rest : List Char) :
    StartsValue (cs ++ rest) := by
  obtain ⟨c, ds, rfl, hc⟩ := h
  exact ⟨c, ds ++ rest, rfl, hc⟩

theorem StartsValue.not_blank {cs : List Char} (h : StartsValue cs) :
    ∀ c ∈ cs.head?, isJsonBlank c = false := by
  obtain ⟨c, ds, rfl, hc, -⟩ := h
  rintro _ ⟨rfl⟩
  exact hc

/-- A text, by what stands between its quotes. -/
theorem readValue_quoted (ascii : Bool) (s : String) (fuel : Nat) (rest : List Char) :
    readValue (fuel + 1) ((quoted ascii s).toList ++ rest) = .ok (.text s, rest) := by
  have hfuel : s.toList.length < (s.toList.flatMap (escapeChar ascii) ++ '"' :: rest).length + 1 := by
    have := length_le_escaped ascii s.toList
    rw [List.length_append]
    omega
  rw [quoted, String.toList_ofList, List.cons_append, List.cons_append, List.append_assoc,
    List.singleton_append, readValue, readString?_escaped _ _ _ hfuel]
  simp

/-- A list that is not empty, by its members. -/
theorem readValue_list {fuel : Nat} {gap cs rest : List Char} {xs : List Value} (hgap : IsGap gap)
    (hstart : StartsValue cs) (h : readMembers fuel cs = .ok (xs, rest)) :
    readValue (fuel + 1) ('[' :: (gap ++ cs)) = .ok (.list xs, rest) := by
  rw [readValue, skipBlanks_gap hgap hstart.not_blank]
  obtain ⟨c, ds, rfl, -, hc, -⟩ := hstart
  split
  next heq => exact absurd (List.cons_eq_cons.1 heq).1 hc
  next => rw [h]; rfl

/-- A map that is not empty, by its entries. -/
theorem readValue_map {fuel : Nat} {gap cs rest : List Char} {es : List (String × Value)}
    (hgap : IsGap gap) (hstart : StartsValue cs) (h : readEntries fuel [] cs = .ok (es, rest)) :
    readValue (fuel + 1) ('\x7b' :: (gap ++ cs))
      = .ok (.map (es.map fun (k, v) => (.text k, v)), rest) := by
  rw [readValue, skipBlanks_gap hgap hstart.not_blank]
  obtain ⟨c, ds, rfl, -, -, hc⟩ := hstart
  split
  next heq => exact absurd (List.cons_eq_cons.1 heq).1 hc
  next => rw [h]; rfl

/-- The last member of a list. -/
theorem readMembers_last {fuel : Nat} {cs gap rest : List Char} {x : Value} (hgap : IsGap gap)
    (h : readValue fuel cs = .ok (x, gap ++ ']' :: rest)) :
    readMembers (fuel + 1) cs = .ok ([x], rest) := by
  simp only [readMembers, h, skipBlanks_gap (r := ']' :: rest) hgap (by rintro _ ⟨rfl⟩; rfl)]

/-- A member of a list with others behind it. -/
theorem readMembers_more {fuel : Nat} {cs gap behind rest : List Char} {x : Value}
    {xs : List Value} (hgap : IsGap gap) (hstart : StartsValue behind)
    (h : readValue fuel cs = .ok (x, ',' :: (gap ++ behind)))
    (hmore : readMembers fuel behind = .ok (xs, rest)) :
    readMembers (fuel + 1) cs = .ok (x :: xs, rest) := by
  have hcomma : skipBlanks (',' :: (gap ++ behind)) = ',' :: (gap ++ behind) := rfl
  simp only [readMembers, h, hcomma, skipBlanks_gap hgap hstart.not_blank, hmore]
  rfl

/-- The text of an entry: its key in quotes, a colon, a space and its value. -/
def entryText (ascii : Bool) (k : String) (value : List Char) : List Char :=
  '"' :: (k.toList.flatMap (escapeChar ascii) ++ '"' :: ':' :: ' ' :: value)

/-- An entry up to the end of its value. -/
theorem readKey_entryText (ascii : Bool) (k : String) {value : List Char}
    (hstart : StartsValue value) :
    readString? ((k.toList.flatMap (escapeChar ascii) ++ '"' :: ':' :: ' ' :: value).length + 1)
        (k.toList.flatMap (escapeChar ascii) ++ '"' :: ':' :: ' ' :: value)
        = some (k.toList, ':' :: ' ' :: value) ∧
      skipBlanks (':' :: ' ' :: value) = ':' :: ' ' :: value ∧
        skipBlanks (' ' :: value) = value := by
  refine ⟨readString?_escaped _ _ _ ?_, rfl,
    skipBlanks_gap (g := [' ']) (by simp [IsGap, isJsonBlank]) hstart.not_blank⟩
  have := length_le_escaped ascii k.toList
  rw [List.length_append]
  omega

/-- The last entry of a map. -/
theorem readEntries_last {ascii : Bool} {fuel : Nat} {seen : List (String × Value)}
    {gap value rest : List Char} {k : String} {v : Value} (hgap : IsGap gap)
    (hstart : StartsValue value) (h : readValue fuel value = .ok (v, gap ++ '\x7d' :: rest)) :
    readEntries (fuel + 1) seen (entryText ascii k value)
      = .ok (putEntry (· == ·) k v seen, rest) := by
  obtain ⟨hkey, hcolon, hspace⟩ := readKey_entryText ascii k hstart
  simp only [entryText, readEntries, hkey, hcolon, hspace, h, String.ofList_toList,
    skipBlanks_gap (r := '\x7d' :: rest) hgap (by rintro _ ⟨rfl⟩; rfl)]

/-- An entry of a map with others behind it. -/
theorem readEntries_more {ascii : Bool} {fuel : Nat} {seen es : List (String × Value)}
    {gap value behind rest : List Char} {k : String} {v : Value} (hgap : IsGap gap)
    (hstart : StartsValue value) (hbehind : StartsValue behind)
    (h : readValue fuel value = .ok (v, ',' :: (gap ++ behind)))
    (hmore : readEntries fuel (putEntry (· == ·) k v seen) behind = .ok (es, rest)) :
    readEntries (fuel + 1) seen (entryText ascii k value) = .ok (es, rest) := by
  obtain ⟨hkey, hcolon, hspace⟩ := readKey_entryText ascii k hstart
  have hcomma : skipBlanks (',' :: (gap ++ behind)) = ',' :: (gap ++ behind) := rfl
  simp only [entryText, readEntries, hkey, hcolon, hspace, h, String.ofList_toList, hcomma,
    skipBlanks_gap hgap hbehind.not_blank, hmore]

/-! ## Values -/

theorem putEntry_of_not_mem {k : String} {v : Value} {es : List (String × Value)}
    (h : k ∉ es.map Prod.fst) : putEntry (· == ·) k v es = es ++ [(k, v)] :=
  putEntry_new v fun _ he => beq_false_of_ne fun hk => h (hk ▸ List.mem_map_of_mem he)

/-- The text of the members of a list or map. -/
def joined (layout : Layout) (level : Nat) (ts : List String) : List Char :=
  (String.intercalate (separator layout level) ts).toList

theorem joined_cons {layout : Layout} {level : Nat} {t : String} {ts : List String}
    (h : ts ≠ []) : joined layout level (t :: ts)
      = t.toList ++ (separator layout level).toList ++ joined layout level ts := by
  obtain ⟨u, us, rfl⟩ := List.exists_cons_of_ne_nil h
  rw [joined, String.intercalate_cons_cons, String.toList_append, String.toList_append]
  rfl

theorem joined_singleton (layout : Layout) (level : Nat) (t : String) :
    joined layout level [t] = t.toList := by
  rw [joined, String.intercalate_singleton]

theorem toList_writeAt_list (layout : Layout) (level : Nat) (x : Value) (xs : List Value) :
    (writeAt layout level (.list (x :: xs))).toList
      = '[' :: ((breakLine layout (level + 1)).toList
        ++ (joined layout (level + 1) (writeAll layout (level + 1) (x :: xs))
          ++ ((breakLine layout level).toList ++ [']']))) := by
  simp [writeAt, joined]

theorem toList_writeAt_map (layout : Layout) (level : Nat) (e : Value × Value)
    (es : List (Value × Value)) :
    (writeAt layout level (.map (e :: es))).toList
      = '\x7b' :: ((breakLine layout (level + 1)).toList
        ++ (joined layout (level + 1) (writeEntries layout (level + 1) (e :: es))
          ++ ((breakLine layout level).toList ++ ['\x7d']))) := by
  simp [writeAt, joined]

theorem startsValue_joined {layout : Layout} {level : Nat} {t : String} {ts : List String}
    (h : StartsValue t.toList) : StartsValue (joined layout level (t :: ts)) := by
  obtain ⟨c, ds, hcs, hc⟩ := h
  cases ts with
  | nil => exact ⟨c, ds, by rw [joined_singleton, hcs], hc⟩
  | cons u us =>
    rw [joined_cons (by simp), hcs, List.append_assoc, List.cons_append]
    exact ⟨c, _, rfl, hc⟩

theorem entryText_append (ascii : Bool) (k : String) (value rest : List Char) :
    entryText ascii k value ++ rest = entryText ascii k (value ++ rest) := by
  simp [entryText]

theorem length_entryText (ascii : Bool) (k : String) (value : List Char) :
    (entryText ascii k value).length
      = (k.toList.flatMap (escapeChar ascii)).length + value.length + 4 := by
  simp [entryText]
  omega

theorem toList_entry (ascii : Bool) (k text : String) :
    (quoted ascii k ++ ": " ++ text).toList = entryText ascii k text.toList := by
  simp [quoted, entryText]

theorem startsValue_entry (ascii : Bool) (k text : String) :
    StartsValue (quoted ascii k ++ ": " ++ text).toList := by
  rw [toList_entry]
  exact ⟨'"', _, rfl, by decide⟩

theorem startsValue_entries (layout : Layout) (level : Nat) {e : Value × Value}
    {es : List (Value × Value)} (h : IsPlainEntry dates e) :
    StartsValue (joined layout level (writeEntries layout level (e :: es))) := by
  obtain ⟨k, v⟩ := e
  obtain ⟨⟨s, rfl⟩, -⟩ := h
  exact startsValue_joined (startsValue_entry layout.asciiOnly s _)

theorem endsNumber_comma (rest : List Char) : EndsNumber (',' :: rest) :=
  endsNumber_gap (g := []) (by simp [IsGap]) (by decide)

mutual
/-- **A plain value is read as itself, with each key once**, at the start of a text. -/
theorem readValue_writeAt (layout : Layout) : ∀ (v : Value) (level : Nat) {n : Nat}
    {r : List Char}, IsPlain dates v → EndsNumber r →
      (writeAt layout level v).toList.length < n →
      readValue n ((writeAt layout level v).toList ++ r) = .ok (merged v, r)
  | .null, level, fuel + 1, rest, _, _, _ => by
    rw [writeAt, readValue_atom ⟨'n', by decide, by decide⟩]
    rfl
  | .bool b, level, fuel + 1, rest, _, _, _ => by
    cases b
    · rw [writeAt, readValue_atom ⟨'f', by decide, by decide⟩]
      rfl
    · rw [writeAt, readValue_atom ⟨'t', by decide, by decide⟩]
      rfl
  | .int n, level, fuel + 1, rest, h, hrest, _ => by
    rw [writeAt, readValue_atom (isAtomStart_intText n),
      readAtom_intText (isPlain_int_iff.1 h) hrest]
    rfl
  | .real x, level, fuel + 1, rest, _, hrest, _ => by
    rw [writeAt, readValue_atom (isAtomStart_realText x), readAtom_realText x hrest]
    rfl
  | .text s, level, fuel + 1, rest, _, _, _ => by
    rw [writeAt, readValue_quoted]
    rfl
  | .list [], level, fuel + 1, rest, _, _, _ => by
    rw [writeAt]
    rfl
  | .list (x :: xs), level, fuel + 1, rest, h, _, hlen => by
    rw [toList_writeAt_list] at hlen ⊢
    have hstart : StartsValue (joined layout (level + 1) (writeAll layout (level + 1) (x :: xs))) :=
      startsValue_joined (startsValue_writeAt layout (level + 1) x)
    have hmembers := readMembers_writeAll layout (x :: xs) (level + 1) (n := fuel) (r := rest)
      (by simp) (isPlain_list.1 h) (isGap_breakLine layout level) (by simp at hlen; omega)
    have hlist := readValue_list (isGap_breakLine layout (level + 1)) (hstart.append _) hmembers
    simpa [merged] using hlist
  | .map [], level, fuel + 1, rest, _, _, _ => by
    rw [writeAt]
    rfl
  | .map (e :: es), level, fuel + 1, rest, h, _, hlen => by
    rw [toList_writeAt_map] at hlen ⊢
    have hentry := isPlain_map.1 h
    have hstart : StartsValue
        (joined layout (level + 1) (writeEntries layout (level + 1) (e :: es))) :=
      startsValue_entries layout (level + 1) (hentry e List.mem_cons_self)
    have hentries := readEntries_writeEntries layout (e :: es) (level + 1) (n := fuel)
      (r := rest) (s := []) (by simp) hentry (isGap_breakLine layout level)
      (by simp at hlen; omega)
    have hmap := readValue_map (isGap_breakLine layout (level + 1)) (hstart.append _) hentries
    simpa [merged] using hmap
  | .date _, _, _, _, h, _, _ | .moment _, _, _, _, h, _, _ => by
    obtain ⟨t, -, ht⟩ := map_eq_ok.1 h
    cases ht
  termination_by structural v => v

/-- The members of a list up to its bracket. -/
theorem readMembers_writeAll (layout : Layout) : ∀ (xs : List Value) (level : Nat) {n : Nat}
    {g r : List Char}, xs ≠ [] → (∀ x ∈ xs, IsPlain dates x) → IsGap g →
      (joined layout level (writeAll layout level xs)).length + 1 < n →
      readMembers n (joined layout level (writeAll layout level xs) ++ (g ++ ']' :: r))
        = .ok (mergedAll xs, r)
  | [x], level, fuel + 1, gap, rest, _, h, hgap, hlen => by
    rw [writeAll, writeAll, joined_singleton] at hlen ⊢
    refine readMembers_last hgap
      (readValue_writeAt layout x level (List.forall_mem_singleton.1 h) ?_ (by omega))
    exact endsNumber_gap hgap (by decide)
  | x :: y :: ys, level, fuel + 1, gap, rest, _, h, hgap, hlen => by
    obtain ⟨hx, hys⟩ := List.forall_mem_cons.1 h
    obtain ⟨space, hspace, hsep⟩ := exists_separator layout level
    have hstart : StartsValue (joined layout level (writeAll layout level (y :: ys))) :=
      startsValue_joined (startsValue_writeAt layout level y)
    rw [writeAll, joined_cons (by simp [writeAll]), hsep] at hlen ⊢
    simp only [List.append_assoc, List.cons_append, List.length_append, List.length_cons] at hlen ⊢
    refine readMembers_more hspace (hstart.append _)
      (readValue_writeAt layout x level hx (endsNumber_comma _) (by omega)) ?_
    exact readMembers_writeAll layout (y :: ys) level (by simp) hys hgap (by omega)
  termination_by structural xs => xs

/-- The entries of a map up to its brace. -/
theorem readEntries_writeEntries (layout : Layout) : ∀ (es : List (Value × Value)) (level : Nat)
    {n : Nat} {s : List (String × Value)} {g r : List Char}, es ≠ [] →
      (∀ e ∈ es, IsPlainEntry dates e) → IsGap g →
      (joined layout level (writeEntries layout level es)).length + 1 < n →
      readEntries n s
          (joined layout level (writeEntries layout level es) ++ (g ++ '\x7d' :: r))
        = .ok (mergedEntries s es, r)
  | [(k, v)], level, fuel + 1, seen, gap, rest, _, h, hgap, hlen => by
    obtain ⟨⟨k, rfl⟩, hv⟩ := List.forall_mem_singleton.1 h
    rw [writeEntries, writeEntries, joined_singleton, toList_entry] at hlen ⊢
    rw [entryText_append]
    rw [length_entryText] at hlen
    have hval := readValue_writeAt layout v level (n := fuel) hv
      (endsNumber_gap (c := '\x7d') (r := rest) hgap (by decide)) (by omega)
    exact readEntries_last hgap ((startsValue_writeAt layout level v).append _) hval
  | (k, v) :: e :: es, level, fuel + 1, seen, gap, rest, _, h, hgap, hlen => by
    obtain ⟨⟨⟨k, rfl⟩, hv⟩, hes⟩ := List.forall_mem_cons.1 h
    obtain ⟨space, hspace, hsep⟩ := exists_separator layout level
    have hstart : StartsValue (joined layout level (writeEntries layout level (e :: es))) :=
      startsValue_entries layout level (hes e List.mem_cons_self)
    rw [writeEntries, joined_cons (by simp [writeEntries]), hsep, toList_entry] at hlen ⊢
    rw [List.append_assoc, List.append_assoc, entryText_append]
    rw [List.length_append, List.length_append, length_entryText, List.length_cons] at hlen
    have hval := readValue_writeAt layout v level (n := fuel) hv
      (endsNumber_comma (space ++ (joined layout level (writeEntries layout level (e :: es))
        ++ (gap ++ '\x7d' :: rest)))) (by omega)
    have hmore := readEntries_writeEntries layout (e :: es) level (n := fuel)
      (s := putEntry (· == ·) k (merged v) seen) (g := gap) (r := rest) (by simp) hes hgap
      (by omega)
    rw [List.cons_append]
    exact readEntries_more hspace ((startsValue_writeAt layout level v).append _)
      (hstart.append _) hval hmore
  termination_by structural es => es
end

/-! ## Values with each key once -/

/-- Other keys are still new when a key has come to those seen. -/
theorem not_mem_concat {k : String} {v : Value} {ks : List String} {seen : List (String × Value)}
    (hk : k ∉ ks) (h : ∀ l ∈ ks, l ∉ seen.map Prod.fst) :
    ∀ l ∈ ks, l ∉ (seen ++ [(k, v)]).map Prod.fst := by
  intro l hl
  rw [List.map_append, List.mem_append, not_or]
  refine ⟨h l hl, fun hkl => ?_⟩
  obtain rfl : l = k := by simpa using hkl
  exact hk hl

mutual
/-- Faithful values have each key once. -/
theorem merged_of_faithful : ∀ v : Value, Faithful v → merged v = v
  | .null, _ | .bool _, _ | .int _, _ | .real _, _ | .text _, _ => rfl
  | .list xs, h => congrArg Value.list (mergedAll_of_faithful xs h)
  | .map es, ⟨h, hkeys⟩ => by
    rw [merged, mergedEntries_of_faithful es h hkeys (by simp), List.nil_append, map_named h]
  termination_by structural v => v

theorem mergedAll_of_faithful : ∀ xs : List Value, FaithfulAll xs → mergedAll xs = xs
  | [], _ => rfl
  | x :: xs, ⟨hx, hxs⟩ => by rw [mergedAll, merged_of_faithful x hx, mergedAll_of_faithful xs hxs]
  termination_by structural xs => xs

theorem mergedEntries_of_faithful : ∀ (es : List (Value × Value)) {s : List (String × Value)},
    FaithfulEntries es → ((named es).map Prod.fst).Nodup →
      (∀ k ∈ (named es).map Prod.fst, k ∉ s.map Prod.fst) → mergedEntries s es = s ++ named es
  | [], s, _, _, _ => (List.append_nil s).symm
  | (k, v) :: es, seen, h, hkeys, hseen => by
    obtain ⟨⟨k, rfl⟩, hv, hes⟩ := h
    rw [named, List.map_cons, List.nodup_cons] at hkeys
    rw [named, List.map_cons, List.forall_mem_cons] at hseen
    rw [mergedEntries, merged_of_faithful v hv, putEntry_of_not_mem hseen.1,
      mergedEntries_of_faithful es hes hkeys.2 (not_mem_concat hkeys.1 hseen.2), named,
      List.append_assoc, List.singleton_append]
  termination_by structural es => es
end

/-! ## Documents -/

mutual
/-- Faithful values are plain. -/
theorem isPlain_of_faithful : ∀ v : Value, Faithful v → IsPlain dates v
  | .null, _ | .bool _, _ | .real _, _ | .text _, _ => rfl
  | .int _, h => isPlain_int_of_digits h
  | .list xs, h => isPlain_list.2 (isPlain_of_faithfulAll xs h)
  | .map es, h => isPlain_map.2 (isPlainEntry_of_faithful es h.1)
  termination_by structural v => v

theorem isPlain_of_faithfulAll : ∀ xs : List Value, FaithfulAll xs →
    ∀ x ∈ xs, IsPlain dates x
  | [], _ => by simp
  | x :: xs, h =>
    List.forall_mem_cons.2 ⟨isPlain_of_faithful x h.1, isPlain_of_faithfulAll xs h.2⟩
  termination_by structural xs => xs

theorem isPlainEntry_of_faithful : ∀ es : List (Value × Value),
    FaithfulEntries es → ∀ e ∈ es, IsPlainEntry dates e
  | [], _ => by simp
  | (_, v) :: es, h =>
    List.forall_mem_cons.2 ⟨⟨h.1, isPlain_of_faithful v h.2.1⟩, isPlainEntry_of_faithful es h.2.2⟩
  termination_by structural es => es
end

/-- **The document of a plain value is read as the value with each key once.** -/
theorem read_writeAt_of_isPlain (layout : Layout) {v : Value} (h : IsPlain dates v) :
    read (writeAt layout 0 v) = .ok (merged v) := by
  have hskip : skipBlanks (writeAt layout 0 v).toList = (writeAt layout 0 v).toList :=
    skipBlanks_gap (g := []) (by simp [IsGap]) (startsValue_writeAt layout 0 v).not_blank
  have hvalue := readValue_writeAt layout v 0 (r := []) h (by simp [EndsNumber])
    (Nat.lt_succ_self _)
  rw [List.append_nil] at hvalue
  simp only [read, hskip, hvalue]
  rfl

/-- **The document of a faithful value is read as the value.** -/
theorem read_writeAt (layout : Layout) {v : Value} (h : Faithful v) :
    read (writeAt layout 0 v) = .ok v := by
  have hplain : IsPlain noDates v := isPlain_of_faithful v h
  rw [read_writeAt_of_isPlain layout hplain, merged_of_faithful v h]

theorem write_of_faithful (layout : Layout) (dates : DateRule) {v : Value} (h : Faithful v) :
    write layout dates v = .ok (writeAt layout 0 v) := by
  rw [write, isPlain_of_faithful v h]
  rfl

/-- **A faithful value is written, and its document is read as the value.** -/
theorem read_write (layout : Layout) (dates : DateRule) {v : Value} (h : Faithful v) :
    ∃ text, write layout dates v = .ok text ∧ read text = .ok v :=
  ⟨writeAt layout 0 v, write_of_faithful layout dates h, read_writeAt layout h⟩

end Taskboard.Json
