import Taskboard.Chart.Safety
import Taskboard.Proofs.Json.Faithful
import Taskboard.Proofs.Json.Leaves

/-!
# Proofs/Chart/Plain — plain figures are their own plain form

The plain form of a figure is what its document is read as (`Figure.sanitize_eq_ok_iff`), although
the document is written anew where it names a number that JSON lacks.  A plain form is strict
(`Figure.IsStrict`): nothing is left to be merged or to be made null.

* `Figure.isStrict_strict` — **the plain form of a value is strict.**
* `Figure.strict_of_isStrict` — **a strict value is left alone.**
* `Chart.plain_form_is_closed` — a figure in plain form has itself for its plain form, and the
  document that a chart leaves as is read as the figure that it leaves as.
-/

namespace Taskboard

namespace Figure

open Json Value

variable {dates : DateRule}

/-! ## Keys once -/

/-- Texts are the same keys in a map as by themselves. -/
theorem putEntry_text (k : String) (v : Value) : ∀ es : List (String × Value),
    putEntry Value.same (.text k) v (es.map fun (k, v) => (.text k, v))
      = (putEntry (· == ·) k v es).map fun (k, v) => (.text k, v)
  | [] => rfl
  | (l, w) :: es => by
    by_cases hl : l = k
    · simp [putEntry, Value.same, hl]
    · simp [putEntry, Value.same, hl, putEntry_text k v es]

mutual
/-- A finite value has no more to lose than repeated keys. -/
theorem strict_eq_merged : ∀ v : Value, IsPlain dates v → v.AllFinite → strict v = merged v
  | .null, _, _ | .bool _, _, _ | .int _, _, _ | .text _, _, _ | .date _, _, _ | .moment _, _, _ =>
    rfl
  | .real x, _, hfinite => by
    have hx : x.isFinite = true := hfinite x (by simp [leaves])
    rw [strict, if_pos hx]
    rfl
  | .list xs, hv, hfinite => by
    rw [strict, merged, strictAll_eq_mergedAll xs (isPlain_list.1 hv) (allFinite_list.1 hfinite)]
  | .map es, hv, hfinite => by
    have hentries := strictEntries_eq_mergedEntries es [] (isPlain_map.1 hv)
      fun e he => (allFinite_map.1 hfinite e he).2
    rw [strict, merged, ← hentries, List.map_nil]
  termination_by structural v => v

theorem strictAll_eq_mergedAll : ∀ xs : List Value, (∀ x ∈ xs, IsPlain dates x) →
    (∀ x ∈ xs, x.AllFinite) → strictAll xs = mergedAll xs
  | [], _, _ => rfl
  | x :: xs, hplain, hfinite => by
    obtain ⟨hx, hxs⟩ := List.forall_mem_cons.1 hplain
    obtain ⟨hxf, hxsf⟩ := List.forall_mem_cons.1 hfinite
    rw [strictAll, mergedAll, strict_eq_merged x hx hxf, strictAll_eq_mergedAll xs hxs hxsf]
  termination_by structural xs => xs

theorem strictEntries_eq_mergedEntries : ∀ (es : List (Value × Value))
    (seen : List (String × Value)), (∀ e ∈ es, IsPlainEntry dates e) →
      (∀ e ∈ es, e.2.AllFinite) →
      strictEntries (seen.map fun (k, v) => (.text k, v)) es
        = (mergedEntries seen es).map fun (k, v) => (.text k, v)
  | [], _, _, _ => rfl
  | (k, v) :: es, seen, hplain, hfinite => by
    obtain ⟨⟨⟨k, rfl⟩, hv⟩, hes⟩ := List.forall_mem_cons.1 hplain
    obtain ⟨hvf, hesf⟩ := List.forall_mem_cons.1 hfinite
    rw [strictEntries, mergedEntries, strict_eq_merged v hv hvf, putEntry_text,
      strictEntries_eq_mergedEntries es _ hes hesf]
  termination_by structural es => es
end

/-! ## The plain form -/

/-- **A value of strict JSON**: each key of a map stands once, and all numbers are finite. -/
structure IsStrict (v : Value) : Prop where
  faithful : Faithful v
  finite : v.AllFinite

/-- Entries under texts are those of a map of strict JSON. -/
structure IsStrictNamed (es : List (String × Value)) : Prop where
  faithful : FaithfulNamed es
  finite : ∀ e ∈ es, e.2.AllFinite

theorem IsStrictNamed.nil : IsStrictNamed [] := ⟨.nil, List.forall_mem_nil _⟩

theorem IsStrictNamed.putEntry {es : List (String × Value)} (h : IsStrictNamed es) {k : String}
    {v : Value} (hv : IsStrict v) : IsStrictNamed (putEntry (· == ·) k v es) where
  faithful := h.faithful.putEntry hv.faithful
  finite e he := by
    rcases mem_putEntry he with rfl | he
    · exact hv.finite
    · exact h.finite e he

theorem IsStrictNamed.isStrict {es : List (String × Value)} (h : IsStrictNamed es) :
    IsStrict (.map (es.map fun (k, v) => (.text k, v))) where
  faithful := h.faithful.faithful
  finite := allFinite_map.2 (List.forall_mem_map.2 fun e he => ⟨allFinite_text e.1, h.finite e he⟩)

/-- A value that is no number, list, map or set. -/
theorem isStrict_of_leaves {v : Value} (hfaithful : Faithful v) (hleaves : v.leaves = [v])
    (hreal : ∀ x, v ≠ .real x) : IsStrict v :=
  ⟨hfaithful, fun x hx => absurd (List.mem_singleton.1 (hleaves ▸ hx)).symm (hreal x)⟩

mutual
/-- **The plain form of a value is strict.** -/
theorem isStrict_strict : ∀ v : Value, IsPlain dates v → IsStrict (strict v)
  | .null, _ | .bool _, _ | .text _, _ => isStrict_of_leaves trivial rfl (by simp [strict])
  | .int n, hv => isStrict_of_leaves (isPlain_int_iff.1 hv) rfl (by simp [strict])
  | .real x, _ => by
    rw [strict]
    split
    next hx => exact ⟨trivial, by simpa [AllFinite, leaves] using hx⟩
    next => exact isStrict_of_leaves trivial rfl (by simp)
  | .list xs, hv =>
    have hall := isStrict_strictAll xs (isPlain_list.1 hv)
    ⟨hall.1, allFinite_list.2 hall.2⟩
  | .map es, hv => by
    obtain ⟨fs, hfs, hstrict⟩ :=
      @exists_strictEntries es [] (isPlain_map.1 hv) .nil
    rw [strict]
    exact hfs ▸ hstrict.isStrict
  | .date _, hv | .moment _, hv => by
    obtain ⟨t, -, ht⟩ := map_eq_ok.1 hv
    cases ht
  termination_by structural v => v

theorem isStrict_strictAll : ∀ xs : List Value, (∀ x ∈ xs, IsPlain dates x) →
    FaithfulAll (strictAll xs) ∧ ∀ x ∈ strictAll xs, x.AllFinite
  | [], _ => ⟨trivial, List.forall_mem_nil _⟩
  | x :: xs, h => by
    obtain ⟨hx, hxs⟩ := List.forall_mem_cons.1 h
    have hhead := isStrict_strict x hx
    have htail := isStrict_strictAll xs hxs
    exact ⟨⟨hhead.faithful, htail.1⟩, List.forall_mem_cons.2 ⟨hhead.finite, htail.2⟩⟩
  termination_by structural xs => xs

theorem exists_strictEntries : ∀ (es : List (Value × Value)) {seen : List (String × Value)},
    (∀ e ∈ es, IsPlainEntry dates e) → IsStrictNamed seen →
      ∃ fs, strictEntries (seen.map fun (k, v) => (.text k, v)) es
        = fs.map (fun (k, v) => (.text k, v)) ∧ IsStrictNamed fs
  | [], seen, _, hseen => ⟨seen, rfl, hseen⟩
  | (k, v) :: es, seen, h, hseen => by
    obtain ⟨⟨⟨k, rfl⟩, hv⟩, hes⟩ := List.forall_mem_cons.1 h
    obtain ⟨fs, hfs, hstrict⟩ :=
      exists_strictEntries es hes (hseen.putEntry (isStrict_strict v hv) (k := k))
    exact ⟨fs, by rw [strictEntries, putEntry_text, hfs], hstrict⟩
  termination_by structural es => es
end

/-- **A strict value is its own plain form.** -/
theorem strict_of_isStrict {v : Value} (h : IsStrict v) : strict v = v := by
  have hplain : IsPlain noDates v := isPlain_of_faithful v h.faithful
  rw [strict_eq_merged v hplain h.finite, merged_of_faithful v h.faithful]

theorem isStrict_sanitize {v w : Value} (h : sanitize v = .ok w) : IsStrict w := by
  obtain ⟨p, hp, rfl⟩ := map_eq_ok.1 h
  exact isStrict_strict p (isPlain_of_plain v hp)

theorem isPlain_sanitize {v w : Value} (h : sanitize v = .ok w) : IsPlain dates w :=
  isPlain_of_faithful w (isStrict_sanitize h).faithful

theorem sanitize_of_isStrict {v : Value} (h : IsStrict v) : sanitize v = .ok v :=
  map_eq_ok.2 ⟨v, isPlain_of_faithful v h.faithful, strict_of_isStrict h⟩

/-! ## Documents -/

/-- A number that JSON lacks is written by its name. -/
theorem exists_lackingName {x : Binary64} (h : x.isFinite = false) :
    ∃ n ∈ lackingNames, n.toList <:+: (realText x).toList := by
  rcases x with _ | s | _
  · exact ⟨"NaN", by decide, List.infix_rfl⟩
  · refine ⟨"Infinity", by decide, ?_⟩
    cases s
    · exact List.infix_rfl
    · exact ⟨['-'], [], by decide⟩
  · cases h

/-- **A document without these names is that of a finite value.** -/
theorem allFinite_of_not_namesLacking {v : Value} (hv : IsPlain dates v)
    (h : namesLacking (writeAt compactLayout 0 v) = false) : v.AllFinite := by
  have hword : ∀ n ∈ lackingNames, IsWord n.toList := by decide
  intro x hx
  cases hfinite : x.isFinite with
  | true => rfl
  | false =>
    obtain ⟨n, hn, hname⟩ := exists_lackingName hfinite
    have hin : n.toList <:+: (writeAt compactLayout 0 v).toList :=
      (infix_writeAt_iff (hword n hn) compactLayout v 0 hv).2 ⟨.real x, hx, hname⟩
    have hnames : namesLacking (writeAt compactLayout 0 v) = true :=
      List.any_eq_true.2 ⟨n, hn, occursIn_iff.2 hin⟩
    rw [h] at hnames
    cases hnames

/-- What is written of a plain value is read as the value's plain form. -/
theorem read_documented {v : Value} (hv : IsPlain dates v) :
    Json.read (writeAt compactLayout 0 (documented v)) = .ok (strict v) := by
  rw [documented]
  split
  next => exact read_writeAt compactLayout (isStrict_strict v hv).faithful
  next hnames =>
    have hfinite := allFinite_of_not_namesLacking hv (Bool.eq_false_iff.2 hnames)
    rw [read_writeAt_of_isPlain compactLayout hv, strict_eq_merged v hv hfinite]

/-- **The plain form of a value is what its document is read as.** -/
theorem sanitize_eq_ok_iff {v w : Value} :
    sanitize v = .ok w ↔ ∃ s, document v = .ok s ∧ Json.read s = .ok w := by
  constructor
  · intro h
    obtain ⟨p, hp, rfl⟩ := map_eq_ok.1 h
    exact ⟨_, map_eq_ok.2 ⟨p, hp, rfl⟩, read_documented (isPlain_of_plain v hp)⟩
  · rintro ⟨s, hs, hread⟩
    obtain ⟨p, hp, rfl⟩ := map_eq_ok.1 hs
    rw [read_documented (isPlain_of_plain v hp)] at hread
    exact map_eq_ok.2 ⟨p, hp, Except.ok.inj hread⟩

/-- A strict value is written as it is. -/
theorem documented_of_isStrict {v : Value} (h : IsStrict v) : documented v = v := by
  rw [documented, strict_of_isStrict h, ite_self]

/-- **Plain forms are closed**: what is in plain form is finite and its own plain form, and it was
read off a document. -/
theorem isClosed_of_sanitize {v w : Value} (h : sanitize v = .ok w) :
    (∃ s, document v = .ok s ∧ Json.read s = .ok w) ∧ w.AllFinite ∧ sanitize w = .ok w :=
  ⟨sanitize_eq_ok_iff.1 h, (isStrict_sanitize h).finite, sanitize_of_isStrict (isStrict_sanitize h)⟩

end Figure

namespace Chart

open Figure

variable {style : FigureStyle} {w : Value}

/-- The figure of a chart in plain form, before it is checked. -/
def plainFigure (style : FigureStyle) (c : Chart) : Except Fault Value :=
  (c.figure style).bind sanitize

theorem plainFigure_of_render {c : Chart} (h : c.render style = .ok w) :
    c.plainFigure style = .ok w := by
  simp only [render, do_eq_ok] at h
  obtain ⟨f, hf, v, hs, flaw, -, h⟩ := h
  rcases flaw with _ | _ | _ | _ <;> cases h <;> exact bind_eq_ok.mpr ⟨f, hf, hs⟩

/-- The document of a chart is read as the figure that leaves. -/
theorem read_document_of_render {c : Chart} (h : c.render style = .ok w) :
    ∃ s, c.document style = .ok s ∧ Json.read s = .ok w := by
  obtain ⟨f, -, hw⟩ := bind_eq_ok.1 (plainFigure_of_render h)
  obtain ⟨s, hs, hread⟩ := (isClosed_of_sanitize (isClosed_of_sanitize hw).2.2).1
  exact ⟨s, bind_eq_ok.2 ⟨w, h, hs⟩, hread⟩

/-- **To make a figure plain is a closure**: its result is read off its document, has no infinite or
undefined number and is left alone by a second pass.  So the document of a chart is read as exactly
the figure that the chart leaves as. -/
theorem plain_form_is_closed :
    (∀ v w, sanitize v = .ok w →
      (∃ s, Figure.document v = .ok s ∧ Json.read s = .ok w) ∧ w.AllFinite ∧ sanitize w = .ok w) ∧
    ∀ (style : FigureStyle) (c : Chart) (w : Value), c.render style = .ok w →
      ∃ s, c.document style = .ok s ∧ Json.read s = .ok w :=
  ⟨fun _ _ => isClosed_of_sanitize, fun _ _ _ => read_document_of_render⟩

/-- A map with an undefined number under null, an infinite one within a list under a truth value,
and the text null for one more key. -/
def mixedKeys : Value :=
  .map [(.null, .real .nan), (.bool true, .list [.real (.infinite true), .text "y"]),
    (.text "null", .text "x")]

/-- What is left of such a map, and a chart that leaves. -/
theorem plain_form_of_mixedKeys : ∃ w figure,
    w = .map [(.text "null", .text "x"), (.text "true", .list [.null, .text "y"])] ∧
    sanitize mixedKeys = .ok w ∧ (∃ s, Figure.document mixedKeys = .ok s ∧ Json.read s = .ok w) ∧
    w.AllFinite ∧ sanitize w = .ok w ∧
    (Chart.gantt ⟨.text "Plan", .null, []⟩).render {} = .ok figure ∧
    ∃ s, (Chart.gantt ⟨.text "Plan", .null, []⟩).document {} = .ok s ∧
      Json.read s = .ok figure := by
  have hmixed : sanitize mixedKeys
      = .ok (.map [(.text "null", .text "x"), (.text "true", .list [.null, .text "y"])]) := rfl
  have hleaves : ((Chart.gantt ⟨.text "Plan", .null, []⟩).render {}).isOk = true := by
    decide +kernel
  obtain ⟨figure, hfigure⟩ := exists_ok_of_isOk hleaves
  obtain ⟨hdocument, hfinite, hself⟩ := plain_form_is_closed.1 _ _ hmixed
  exact ⟨_, figure, rfl, hmixed, hdocument, hfinite, hself, hfigure,
    plain_form_is_closed.2 _ _ _ hfigure⟩

end Chart

end Taskboard
