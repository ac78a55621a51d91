import Taskboard.Proofs.Yaml.Block

/-!
# Proofs/Yaml/Tree — from tokens to nodes

The tokens of a form are read as the node that was put down in it.

* `Items.readBlockList`, `Items.readLoose` — **the members of a list are read back**, in a block of
  their own and right below a key.
* `ofTokens_entries` — **the tokens of entries are read as the map of them.**
-/

namespace Taskboard.Yaml

open Node

variable {m indent fuel : Nat} {plain loose block : Bool} {tag : Tag} {text k : String} {n v : Node}
  {ns more : List Node} {scope scope' : Scope} {ts us rest : List Token} {t : Token} {e : List Char}
  {es : List (String × Node)}

/-! ## Nodes by their first token -/

/-- A token that a node begins with. -/
def BeginsNode : Token → Prop
  | .scalar _ _ | .listOpen | .blockList => True
  | _ => False

theorem takeProperties_of (h : BeginsNode t ∨ t = .entry ∨ t = .blockMap) :
    takeProperties (t :: ts) = (⟨none, none⟩, t :: ts) := by
  cases t <;> simp_all [BeginsNode, takeProperties]

/-- A node without properties is its content. -/
theorem readNode_of (h : BeginsNode t ∨ t = .entry ∨ t = .blockMap) :
    readNode (fuel + 1) block loose scope (t :: ts)
      = readContent fuel block loose false none false scope (t :: ts) := by
  have hprops := @takeProperties_of ts _ h
  have hnone : closeAnchor none = id := rfl
  have hmap (r : NodeRead Node) : r.map id = r := by cases r <;> rfl
  cases t <;> simp_all [readNode, BeginsNode, writtenTag, openAnchor, Except.bind]

theorem not_ends_of_begins (h : BeginsNode t) : endsLooseEntry t = false := by
  cases t <;> simp_all [BeginsNode, endsLooseEntry, endsBlockValue]

/-- A text is read with the tag that it was written with. -/
theorem scalarTag_form (h : ScalarForm indent plain tag text e) :
    scalarTag none false plain text = tag := by
  cases h <;> simp [scalarTag]

theorem readNode_scalar (h : ScalarForm indent plain tag text e) (hfuel : 2 ≤ fuel) :
    readNode fuel block loose scope (.scalar text plain :: rest)
      = .ok (.scalar tag text, scope, rest) := by
  obtain ⟨fuel, rfl⟩ := Nat.exists_eq_add_of_le' hfuel
  rw [readNode_of (t := .scalar text plain) (.inl trivial), readContent, scalarTag_form h]

theorem Flat.readNode (h : Flat m n ts e) (hfuel : 3 ≤ fuel) :
    readNode fuel block loose scope (ts ++ rest) = .ok (n, scope, rest) := by
  cases h with
  | scalar h => exact readNode_scalar h (by omega)
  | empty =>
    obtain ⟨fuel, rfl⟩ := Nat.exists_eq_add_of_le' hfuel
    rw [List.cons_append, readNode_of (t := .listOpen) (.inl trivial), readContent]
    simp [readFlowList, Except.map]

/-! ## Members of lists -/

/-- Tokens that are read as a node where nodes may be left out. -/
def ReadsAs (n : Node) (us : List Token) : Prop :=
  (∃ t us', us = t :: us' ∧ BeginsNode t) ∧ ∀ {fuel : Nat} {loose : Bool} {scope : Scope}
    {rest : List Token}, 2 * us.length + 1 ≤ fuel →
      Node.readNode fuel true loose scope (us ++ rest) = .ok (n, scope, rest)

theorem Flat.begins (h : Flat m n ts e) : ∃ t ts', ts = t :: ts' ∧ BeginsNode t := by
  cases h with
  | scalar h => exact ⟨_, _, rfl, trivial⟩
  | empty => exact ⟨_, _, rfl, trivial⟩

theorem Flat.readsAs (h : Flat m n ts e) : ReadsAs n ts := by
  refine ⟨h.begins, fun hfuel => h.readNode ?_⟩
  obtain ⟨t, ts', rfl, -⟩ := h.begins
  rw [List.length_cons] at hfuel
  omega

theorem ReadsAs.not_ends (h : ReadsAs n us) {p : Token → Bool}
    (hp : ∀ t, BeginsNode t → p t = false) :
    nextIs p (us ++ rest) = false := by
  obtain ⟨⟨t, us', rfl, ht⟩, -⟩ := h
  simp [nextIs, hp t ht]

/-- A member is read in front of the others. -/
theorem readBlockList_entry (h : ReadsAs n us) (hfuel : 2 * us.length + 1 ≤ fuel)
    (hrest : Node.readBlockList fuel scope rest = .ok (more, scope, ts)) :
    Node.readBlockList (fuel + 1) scope (.entry :: (us ++ rest)) = .ok (n :: more, scope, ts) := by
  have hnext : nextIs endsBlockEntry (us ++ rest) = false := h.not_ends fun t ht => by
    cases t <;> simp_all [BeginsNode, endsBlockEntry]
  simp only [Node.readBlockList, hnext, h.2 hfuel, hrest, Bool.false_eq_true, if_false, Except.bind,
    Except.map]

theorem readLoose_entry (h : ReadsAs n us) (hfuel : 2 * us.length + 1 ≤ fuel)
    (hrest : Node.readLoose fuel scope rest = .ok (more, scope, ts)) :
    Node.readLoose (fuel + 1) scope (.entry :: (us ++ rest)) = .ok (n :: more, scope, ts) := by
  have hnext : nextIs endsLooseEntry (us ++ rest) = false := h.not_ends fun t ht =>
    not_ends_of_begins ht
  simp only [Node.readLoose, hnext, h.2 hfuel, hrest, Bool.false_eq_true, if_false, Except.bind,
    Except.map]

/-- Every member takes two tokens at least. -/
theorem Items.length_le (h : Items m ns ts e) : 2 * ns.length ≤ ts.length := by
  induction h with
  | flat h =>
    obtain ⟨t, ts', rfl, -⟩ := h.begins
    simp
  | nested h ih => simp
  | cons h hs ih ihs =>
    simp only [List.length_singleton] at ih
    simp only [List.length_cons, List.length_append]
    omega

/-- **A list between the marks of its block is read as one node**, where its members are. -/
theorem readsAs_nested (hlen : 2 * ns.length ≤ ts.length)
    (hread : ∀ {fuel : Nat} {scope : Scope} {rest : List Token}, 2 * ts.length ≤ fuel + ns.length →
      1 ≤ fuel → Node.readBlockList (fuel + ns.length) scope (ts ++ .blockEnd :: rest)
        = .ok (ns, scope, rest)) :
    ReadsAs (.list .list ns) (.blockList :: (ts ++ [.blockEnd])) := by
  refine ⟨⟨_, _, rfl, trivial⟩, fun {fuel loose scope rest} hfuel => ?_⟩
  simp only [List.length_cons, List.length_append, List.length_nil] at hfuel
  obtain ⟨k, rfl⟩ : ∃ k, fuel = k + ns.length + 2 := ⟨fuel - 2 - ns.length, by omega⟩
  have hmembers := @hread k scope rest (by omega) (by omega)
  rw [List.cons_append, List.append_assoc, List.singleton_append,
    readNode_of (t := .blockList) (.inl trivial), readContent]
  simp only [if_true, hmembers, Except.map, Option.getD_none]

theorem readBlockList_end (fuel : Nat) (scope : Scope) (rest : List Token) :
    Node.readBlockList (fuel + 1) scope (.blockEnd :: rest) = .ok ([], scope, rest) := rfl

/-- **The members of a list are read back** in front of what follows. -/
theorem Items.readBlockList (h : Items m ns ts e) (hfuel : 2 * ts.length ≤ fuel + ns.length)
    (hrest : Node.readBlockList fuel scope rest = .ok (more, scope, us)) :
    Node.readBlockList (fuel + ns.length) scope (ts ++ rest) = .ok (ns ++ more, scope, us) := by
  induction h generalizing fuel scope rest more us with
  | flat h =>
    simp only [List.length_cons, List.length_nil] at hfuel
    exact readBlockList_entry h.readsAs (by omega) hrest
  | @nested m ns ts e h ih =>
    have hreads : ReadsAs (.list .list ns) (.blockList :: (ts ++ [.blockEnd])) :=
      readsAs_nested h.length_le fun {fuel scope rest} hfuel hpos => by
        obtain ⟨k, rfl⟩ := Nat.exists_eq_add_of_le' hpos
        have := ih hfuel (readBlockList_end k scope rest)
        rwa [List.append_nil] at this
    have := readBlockList_entry hreads (by simp at hfuel ⊢; omega) hrest
    simpa using this
  | @cons m n ns ts ts' e f h hs ih ihs =>
    have hlen := h.length_le
    simp only [List.length_cons, List.length_nil, List.length_append] at hfuel hlen
    have htail := ihs (by omega) hrest
    have := ih (by simp only [List.length_singleton]; omega) htail
    rw [List.append_assoc, List.length_cons, ← Nat.add_assoc]
    exact this

theorem Behind.readsAs (h : Behind m n ts e) : ReadsAs n ts := by
  cases h with
  | flat h => exact h.readsAs
  | nested h =>
    refine readsAs_nested h.length_le fun {fuel scope rest} hfuel hpos => ?_
    obtain ⟨k, rfl⟩ := Nat.exists_eq_add_of_le' hpos
    have := h.readBlockList hfuel (readBlockList_end k scope rest)
    rwa [List.append_nil] at this

/-- **The members of a list right below a key are read back** in front of what follows. -/
theorem Items.readLoose (h : Items m ns ts e) (hfuel : 2 * ts.length ≤ fuel + ns.length)
    (hrest : Node.readLoose fuel scope rest = .ok (more, scope, us)) :
    Node.readLoose (fuel + ns.length) scope (ts ++ rest) = .ok (ns ++ more, scope, us) := by
  induction h generalizing fuel rest more us with
  | flat h =>
    simp only [List.length_cons, List.length_nil] at hfuel
    exact readLoose_entry h.readsAs (by omega) hrest
  | nested h ih =>
    have := readLoose_entry (Behind.nested h).readsAs (by simp at hfuel ⊢; omega) hrest
    simpa using this
  | @cons m n ns ts ts' e f h hs ih ihs =>
    have hlen := h.length_le
    simp only [List.length_cons, List.length_nil, List.length_append] at hfuel hlen
    have htail := ihs (by omega) hrest
    have := ih (by simp only [List.length_singleton]; omega) htail
    rw [List.append_assoc, List.length_cons, ← Nat.add_assoc]
    exact this

/-! ## Entries of maps -/

/-- What stands behind an entry: another one, or the end of the map. -/
def EndsEntry (rest : List Token) : Prop :=
  ∃ t rest', rest = t :: rest' ∧ (t = .key ∨ t = .blockEnd)

/-- Tokens that are read as the value of an entry. -/
def ReadsAsValue (v : Node) (us : List Token) : Prop :=
  ∀ {fuel : Nat} {scope : Scope} {rest : List Token}, 2 * us.length + 4 ≤ fuel → EndsEntry rest →
    Node.readBlockPart fuel scope (us ++ rest) = .ok (v, scope, rest)

theorem ReadsAs.readsAsValue (h : ReadsAs n us) : ReadsAsValue n us := by
  intro fuel scope rest hfuel hrest
  obtain ⟨fuel, rfl⟩ := Nat.exists_eq_add_of_le' (Nat.le_trans (Nat.le_add_left 1 _) hfuel)
  have hnext : nextIs endsBlockValue (us ++ rest) = false := h.not_ends fun t ht => by
    cases t <;> simp_all [BeginsNode, endsBlockValue]
  rw [Node.readBlockPart, hnext, if_neg Bool.false_ne_true]
  exact h.2 (by omega)

theorem readLoose_end (h : EndsEntry rest) :
    Node.readLoose (fuel + 1) scope rest = .ok ([], scope, rest) := by
  obtain ⟨t, rest, rfl, rfl | rfl⟩ := h <;> rfl

/-- **A list right below its key is read as one node.** -/
theorem Items.readsAsValue (h : Items m ns ts e) : ReadsAsValue (.list .list ns) ts := by
  intro fuel scope rest hfuel hrest
  have hlen := h.length_le
  obtain ⟨k, rfl⟩ : ∃ k, fuel = k + 1 + ns.length + 3 := ⟨fuel - 4 - ns.length, by omega⟩
  have hmembers := @Items.readLoose _ (k + 1) _ _ scope _ _ _ _ h (by omega) (readLoose_end hrest)
  obtain ⟨us, rfl⟩ : ∃ us, ts = .entry :: us := by
    clear hfuel hlen hmembers
    induction h with
    | flat h => exact ⟨_, rfl⟩
    | nested h => exact ⟨_, rfl⟩
    | cons h hs ih =>
      obtain ⟨us, rfl⟩ := ih
      exact ⟨_, rfl⟩
  rw [List.cons_append] at hmembers ⊢
  have hnext : nextIs endsBlockValue (Token.entry :: (us ++ rest)) = false := rfl
  rw [Node.readBlockPart, hnext, if_neg Bool.false_ne_true,
    readNode_of (t := .entry) (.inr (.inl rfl)), readContent]
  simp only [if_true, hmembers, Except.map, Option.getD_none, List.append_nil]

/-- **An entry is read** in front of the others. -/
theorem readBlockMap_entry (hk : ScalarForm indent plain (.plain .text) k e) (h : ReadsAsValue v us)
    (hfuel : 2 * us.length + 4 ≤ fuel) (hrest : EndsEntry rest) {more : List (Node × Node)}
    (hmore : Node.readBlockMap fuel scope rest = .ok (more, scope, ts)) :
    Node.readBlockMap (fuel + 1) scope (.key :: .scalar k plain :: .value :: (us ++ rest))
      = .ok ((keyNode k, v) :: more, scope, ts) := by
  have hkey : Node.readBlockPart fuel scope (.scalar k plain :: .value :: (us ++ rest))
      = .ok (keyNode k, scope, .value :: (us ++ rest)) := by
    obtain ⟨fuel, rfl⟩ := Nat.exists_eq_add_of_le' (Nat.le_trans (Nat.le_add_left 1 _) hfuel)
    have hnext : nextIs endsBlockValue (.scalar k plain :: .value :: (us ++ rest)) = false := rfl
    rw [Node.readBlockPart, hnext, if_neg Bool.false_ne_true]
    exact readNode_scalar hk (by omega)
  simp only [Node.readBlockMap, hkey, h hfuel hrest, hmore, Except.bind, Except.map]

/-- The tokens of an entry: those of the key, and those of the value. -/
theorem Entry.exists_tokens (h : Entry k v ts e) :
    ∃ plain us g, ts = .key :: .scalar k plain :: .value :: us
    ∧ ScalarForm levelWidth plain (.plain .text) k g ∧ ReadsAsValue v us := by
  cases h with
  | flat hk h => exact ⟨_, _, _, rfl, hk.form, h.readsAs.readsAsValue⟩
  | below hk h => exact ⟨_, _, _, rfl, hk.form, h.readsAsValue⟩
  | marked hk h => exact ⟨_, _, _, rfl, hk, h.readsAs.readsAsValue⟩

theorem Entries.endsEntry (h : Entries es ts e) (rest : List Token) : EndsEntry (ts ++ rest) := by
  cases h with
  | one h =>
    obtain ⟨plain, us, g, rfl, -, -⟩ := h.exists_tokens
    exact ⟨_, _, rfl, .inl rfl⟩
  | cons h hs =>
    obtain ⟨plain, us, g, rfl, -, -⟩ := h.exists_tokens
    exact ⟨_, _, rfl, .inl rfl⟩

/-- **The entries of a map are read back.** -/
theorem Entries.readBlockMap (h : Entries es ts e) (hfuel : 2 * ts.length ≤ fuel) :
    Node.readBlockMap fuel scope (ts ++ .blockEnd :: rest) = .ok (entryNodes es, scope, rest) := by
  induction h generalizing fuel with
  | one h =>
    obtain ⟨plain, us, g, rfl, hk, hv⟩ := h.exists_tokens
    simp only [List.length_cons] at hfuel
    obtain ⟨fuel, rfl⟩ := Nat.exists_eq_add_of_le' (show 2 ≤ fuel by omega)
    exact readBlockMap_entry hk hv (by omega) ⟨_, _, rfl, .inr rfl⟩ rfl
  | cons h hs ih =>
    obtain ⟨plain, us, g, rfl, hk, hv⟩ := h.exists_tokens
    simp only [List.length_append, List.length_cons] at hfuel
    obtain ⟨fuel, rfl⟩ := Nat.exists_eq_add_of_le' (show 1 ≤ fuel by omega)
    rw [List.append_assoc]
    exact readBlockMap_entry hk hv (by omega) (hs.endsEntry _) (ih (by omega))

/-! ## The document -/

/-- **The tokens of entries are read as the map of them**, which is the only document. -/
theorem ofTokens_entries (h : Entries es ts e) :
    Node.ofTokens (.blockMap :: (ts ++ [.blockEnd, .streamEnd]))
      = .ok (some (.map .map (entryNodes es))) := by
  have hentries : Node.readBlockMap (4 * (ts.length + 3) + 2) ⟨defaultHandles, [], []⟩
      (ts ++ [.blockEnd, .streamEnd])
        = .ok (entryNodes es, ⟨defaultHandles, [], []⟩, [.streamEnd]) := h.readBlockMap (by omega)
  have hmap : Node.readNode (4 * (ts.length + 3) + 4) true false ⟨defaultHandles, [], []⟩
      (.blockMap :: (ts ++ [.blockEnd, .streamEnd]))
        = .ok (.map .map (entryNodes es), ⟨defaultHandles, [], []⟩, [.streamEnd]) := by
    rw [readNode_of (t := .blockMap) (.inr (.inr rfl)), readContent]
    simp only [if_true, hentries, Except.map, Option.getD_none]
  have hlen : (Token.blockMap :: (ts ++ [.blockEnd, .streamEnd])).length = ts.length + 3 := by simp
  rw [Node.ofTokens, firstDocument, hlen, if_neg (by simp), if_neg (by simp [nextIs, endsDocument])]
  simp only [hmap, Except.map, Except.bind]
  rfl

end Taskboard.Yaml
