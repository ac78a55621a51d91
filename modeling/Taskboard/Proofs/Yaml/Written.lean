import Taskboard.Proofs.Yaml.Ink

/-!
# Proofs/Yaml/Written — nodes on a page

The writer puts nodes down in the forms that are taken as their tokens.

* `writeNode_behind`, `writeItems_form` — **a node behind a mark**, and the members of a list.
* `writeEntries_form` — **the entries of a map**, one after another from a column on.
-/

namespace Taskboard.Yaml

/-! ## Nodes that come back -/

/-- **A node that comes back** from behind a mark at a column. -/
inductive KeptNode : Nat → Node → Prop
  | scalar {m : Nat} {tag : Tag} {text : String} (h : KeptScalar (m + levelWidth) tag text) :
      KeptNode m (.scalar tag text)
  | list {m : Nat} {ns : List Node} (h : ∀ n ∈ ns, KeptNode (m + levelWidth) n) :
      KeptNode m (.list .list ns)

/-- The value of an entry that comes back from behind its key: the members of a list are put below
the key. -/
inductive KeptBelow : Node → Prop
  | scalar {tag : Tag} {text : String} (h : KeptScalar levelWidth tag text) :
      KeptBelow (.scalar tag text)
  | list {ns : List Node} (h : ∀ n ∈ ns, KeptNode 0 n) : KeptBelow (.list .list ns)

/-- **An entry that comes back.** A key in one line must not be longer than the reader looks back.
-/
inductive KeptEntry (k : String) (v : Node) : Prop
  | line (hk : isSimpleKey (keyNode k) = true) (hshort : (keyText k).length ≤ Layout.maxKeyLength)
      (hv : KeptBelow v)
  | marked (hk : isSimpleKey (keyNode k) = false) (hkept : IsKept levelWidth k.toList)
      (hv : KeptNode 0 v)

variable {m : Nat} {n v : Node} {ns : List Node} {p q : Page} {e s : List Char} {k : String}

/-! ## Members of lists -/

/-- A node is put down behind a mark. -/
def WrittenBehind (m : Nat) (n : Node) : Prop :=
  ∀ {p : Page}, p.Marked m → ∀ isEntry : Bool, ∃ ts e, Behind m n ts e
    ∧ p.Adds (' ' :: e) (writeNode m isEntry false n p) ∧ (writeNode m isEntry false n p).Busy

/-- **The members of a list are put down one after another**, where each one is. -/
theorem writeItems_form (hne : ns ≠ []) (hall : ∀ n ∈ ns, WrittenBehind m n)
    (hp : p.Adds s (p.indentTo m)) (hmargin : (p.indentTo m).Margin m) :
    ∃ ts e, Items m ns ts e ∧ p.Adds (s ++ e) (writeItems m ns p) ∧ (writeItems m ns p).Busy := by
  induction ns generalizing p s with
  | nil => exact absurd rfl hne
  | cons n ns ih =>
    obtain ⟨hn, hns⟩ := List.forall_mem_cons.1 hall
    obtain ⟨hmark, hmarked⟩ := hmargin.mark (s := "-") rfl
    obtain ⟨ts, e, hform, hadds, hbusy⟩ := hn hmarked false
    have hfirst := (hp.trans hmark).trans hadds
    rw [writeItems]
    cases ns with
    | nil =>
      rw [writeItems]
      exact ⟨_, _, hform.items, by simpa using hfirst, hbusy⟩
    | cons n' ns =>
      obtain ⟨hline, hmargin'⟩ := Page.indentTo_busy (n := m) hbusy.fresh
      obtain ⟨ts', f, hitems, hadds', hbusy'⟩ := ih (List.cons_ne_nil _ _) hns hline hmargin'
      exact ⟨_, _, .cons hform.items hitems, by simpa using hfirst.trans hadds', hbusy'⟩

/-- **A node that comes back is put down behind a mark.** -/
theorem writeNode_behind (h : KeptNode m n) : WrittenBehind m n := by
  induction h with
  | scalar h =>
    intro p hp isEntry
    obtain ⟨e, hform, hadds, hbusy⟩ := writeScalar_form h p
    rw [hp.lead] at hadds
    exact ⟨_, _, .flat (.scalar hform), hadds, hbusy⟩
  | @list m ns h ih =>
    intro p hp isEntry
    cases ns with
    | nil =>
      have hadds := Page.adds_word "[]" p
      rw [hp.lead] at hadds
      exact ⟨_, _, .flat .empty, hadds, Page.busy_word _ _⟩
    | cons n ns =>
      obtain ⟨hline, hmargin⟩ := hp.indentTo
      obtain ⟨ts, e, hitems, hadds, hbusy⟩ :=
        writeItems_form (List.cons_ne_nil _ _) ih hline hmargin
      have hpage : writeNode m isEntry false (.list .list (n :: ns)) p
          = writeItems (m + levelWidth) (n :: ns) p := by
        simp [writeNode, hp.fresh]
      rw [hpage]
      exact ⟨_, _, .nested hitems, hadds, hbusy⟩

/-! ## Entries of maps -/

/-- The value of an entry behind its key. -/
theorem writeNode_below (h : KeptBelow v) (hp : p.Busy) :
    (∃ ts e, Flat 0 v ts e ∧ p.Adds (' ' :: e) (writeNode 0 true false v p)
        ∧ (writeNode 0 true false v p).Busy)
      ∨ ∃ ns ts e, v = .list .list ns ∧ Items 0 ns ts e
        ∧ p.Adds ('\n' :: e) (writeNode 0 true false v p) ∧ (writeNode 0 true false v p).Busy := by
  cases h with
  | scalar h =>
    obtain ⟨e, hform, hadds, hbusy⟩ := writeScalar_form h p
    rw [hp.lead] at hadds
    exact .inl ⟨_, _, .scalar hform, hadds, hbusy⟩
  | @list ns h =>
    cases ns with
    | nil =>
      have hadds := Page.adds_word "[]" p
      rw [hp.lead] at hadds
      exact .inl ⟨_, _, .empty, hadds, Page.busy_word _ _⟩
    | cons n ns =>
      obtain ⟨hline, hmargin⟩ := Page.indentTo_busy (n := 0) hp.fresh
      obtain ⟨ts, e, hitems, hadds, hbusy⟩ := writeItems_form (List.cons_ne_nil _ _)
        (fun n hn => writeNode_behind (h n hn)) hline hmargin
      have hpage : writeNode 0 true false (.list .list (n :: ns)) p = writeItems 0 (n :: ns) p := by
        simp [writeNode, hp.fresh]
      rw [hpage]
      exact .inr ⟨_, _, _, rfl, hitems, hadds, hbusy⟩

/-- The page behind the key of an entry. -/
def keyed (k : String) (p : Page) : Page :=
  if isSimpleKey (keyNode k) then (writeNode 0 true true (keyNode k) p).close ":"
  else ((writeNode 0 true false (keyNode k) (p.mark "?")).indentTo 0).mark ":"

theorem writeEntries_cons (k : String) (v : Node) (es : List (Node × Node)) (p : Page) :
    writeEntries 0 ((keyNode k, v) :: es) p
      = writeEntries 0 es (writeNode 0 true false v (keyed k (p.indentTo 0))) := rfl

/-- **An entry is put down** at the start of a line. -/
theorem writeEntry_form (h : KeptEntry k v) (hp : p.Margin 0) :
    ∃ ts e, Entry k v ts e ∧ p.Adds e (writeNode 0 true false v (keyed k p))
      ∧ (writeNode 0 true false v (keyed k p)).Busy := by
  cases h with
  | line hk hshort hv =>
    have hsimple := hk
    simp only [isSimpleKey, keyNode, Bool.and_eq_true, Bool.not_eq_true',
      decide_eq_true_eq] at hsimple
    obtain ⟨⟨-, hne⟩, hline⟩ := hsimple
    have hne : k ≠ "" := by simpa using hne
    obtain ⟨hform, hadds⟩ := @writeScalar_key levelWidth _ hne hline p
    rw [hp.lead, List.nil_append] at hadds
    have hkey : IsLineKey _ k (keyText k) := ⟨hform, isInline_keyText hline, hshort⟩
    have hkeyed : p.Adds (keyText k ++ [':']) (keyed k p) := by
      rw [keyed, if_pos hk]
      exact hadds.trans (Page.adds_close ":" _)
    have hbusy : (keyed k p).Busy := by
      rw [keyed, if_pos hk]
      exact Page.busy_close _ _
    rcases writeNode_below hv hbusy with ⟨ts, e, hflat, hadds', hbusy'⟩ |
      ⟨ns, ts, e, rfl, hitems, hadds', hbusy'⟩
    · exact ⟨_, _, .flat hkey hflat, by simpa using hkeyed.trans hadds', hbusy'⟩
    · exact ⟨_, _, .below hkey hitems, by simpa using hkeyed.trans hadds', hbusy'⟩
  | marked hk hkept hv =>
    obtain ⟨hmark, hmarked⟩ := hp.mark (s := "?") rfl
    obtain ⟨g, hform, hadds, hbusy⟩ := writeScalar_form (.text hkept) (p.mark "?")
    rw [hmarked.lead] at hadds
    obtain ⟨hline, hmargin⟩ := Page.indentTo_busy (n := 0) hbusy.fresh
    obtain ⟨hmark', hmarked'⟩ := hmargin.mark (s := ":") rfl
    have hkeyed : keyed k p = ((writeScalar levelWidth false (.plain .text) k
        (p.mark "?")).indentTo 0).mark ":" := by
      rw [keyed, hk, if_neg Bool.false_ne_true]
      rfl
    obtain ⟨ts, e, hbehind, hadds', hbusy'⟩ := writeNode_behind hv hmarked' true
    rw [hkeyed]
    have := (((hmark.trans hadds).trans hline).trans hmark').trans hadds'
    exact ⟨_, _, .marked hform hbehind, by simpa using this, hbusy'⟩

/-- **Entries are put down one after another.** -/
theorem writeEntries_form {es : List (String × Node)} (hne : es ≠ [])
    (hall : ∀ x ∈ es, KeptEntry x.1 x.2) (hp : p.Adds s (p.indentTo 0))
    (hmargin : (p.indentTo 0).Margin 0) :
    ∃ ts e, Entries es ts e
      ∧ p.Adds (s ++ e) (writeEntries 0 (entryNodes es) p) := by
  induction es generalizing p s with
  | nil => exact absurd rfl hne
  | cons x es ih =>
    obtain ⟨k, v⟩ := x
    obtain ⟨hx, hes⟩ := List.forall_mem_cons.1 hall
    obtain ⟨ts, e, hform, hadds, hbusy⟩ := writeEntry_form hx hmargin
    rw [entryNodes_cons, writeEntries_cons]
    cases es with
    | nil => exact ⟨_, _, .one hform, hp.trans hadds⟩
    | cons x' es =>
      obtain ⟨hline, hmargin'⟩ := Page.indentTo_busy (n := 0) hbusy.fresh
      obtain ⟨ts', f, hentries, hadds'⟩ := ih (List.cons_ne_nil _ _) hes hline hmargin'
      exact ⟨_, _, .cons hform hentries, by simpa using (hp.trans hadds).trans hadds'⟩

/-- **The text of a map's node** holds its entries, with a line break at the end. -/
theorem text_entries {es : List (String × Node)} (hne : es ≠ [])
    (hall : ∀ x ∈ es, KeptEntry x.1 x.2) :
    ∃ ts e, Entries es ts e
      ∧ (Node.map .map (entryNodes es)).text.toList = e ++ ['\n'] := by
  obtain ⟨hstart, hmargin⟩ := Page.indentTo_margin (n := 0) Page.margin_empty
  obtain ⟨ts, e, hform, hadds⟩ := writeEntries_form hne hall hstart hmargin
  refine ⟨ts, e, hform, ?_⟩
  obtain ⟨⟨k, v⟩, es, rfl⟩ := List.exists_cons_of_ne_nil hne
  have hpage := hadds.trans (Page.adds_breakLine '\n' _)
  rw [Page.Adds] at hpage
  simpa [Node.text, Page.empty] using congrArg List.reverse hpage

end Taskboard.Yaml
