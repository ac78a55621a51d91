import Taskboard.Proofs.Yaml.Tree
import Taskboard.Proofs.Yaml.Values
import Taskboard.Proofs.Yaml.Written

/-!
# Proofs/Yaml/RoundTrip — maps are read as they were written

`KeptAttribute` says which entries come back from the text of a map: those of a key and a value that
are made of texts, numbers, dates, truth values and lists, with few exceptions.

* `exists_node` — **a value that comes back has a node that is read as it.**
* `exists_write` — **a map of such entries is written as a text that is read as the map**, with
  whatever lines the text is surrounded by.
-/

namespace Taskboard.Yaml

variable {m : Nat} {v : Value} {vs : List Value} {n : Node} {k : String}

/-! ## Values that come back -/

/-- **A value that comes back** from behind a mark at a column. -/
inductive KeptValue : Nat → Value → Prop
  | null {m : Nat} : KeptValue m .null
  | bool {m : Nat} (b : Bool) : KeptValue m (.bool b)
  | int {m : Nat} {n : Int} (h : IsShort n) : KeptValue m (.int n)
  | real {m : Nat} (x : Binary64) : KeptValue m (.real x)
  | date {m : Nat} (d : Date) : KeptValue m (.date d)
  | text {m : Nat} {s : String} (h : IsKept (m + levelWidth) s.toList) : KeptValue m (.text s)
  | list {m : Nat} {vs : List Value} (h : ∀ v ∈ vs, KeptValue (m + levelWidth) v) :
      KeptValue m (.list vs)

/-- A value that comes back from behind a key in one line: the members of a list stand below it. -/
def KeptUnderKey : Value → Prop
  | .list vs => ∀ v ∈ vs, KeptValue 0 v
  | v => KeptValue 0 v

/-- **An entry that comes back.** -/
inductive KeptAttribute (k : String) (v : Value) : Prop
  | line (hk : isSimpleKey (keyNode k) = true) (hshort : (keyText k).length ≤ Layout.maxKeyLength)
      (hv : KeptUnderKey v)
  | marked (hk : isSimpleKey (keyNode k) = false) (hkept : IsKept levelWidth k.toList)
      (hv : KeptValue 0 v)

/-- **A value whose last text does not end in white space**, unless it is put in quotes. -/
inductive SolidValue : Value → Prop
  | text {s : String} (h : isWrittenPlain (.plain .text) s = true → SolidEnd s.toList) :
      SolidValue (.text s)
  | list {vs : List Value} (h : ∀ v ∈ vs.getLast?, SolidValue v) : SolidValue (.list vs)
  | other {v : Value} (htext : ∀ s, v ≠ .text s) (hlist : ∀ vs, v ≠ .list vs) : SolidValue v

/-! ## Nodes of values -/

/-- A node that is read as a value. -/
structure IsNodeOf (v : Value) (n : Node) : Prop where
  written : Node.ofValue v = .ok n
  unmerged : unmerge n = .ok n
  content : ∀ depth, content depth n = .ok v
  ends : SolidValue v → EndsSolid n

theorem solidEnd_of_bare {cs : List Char} (hne : cs ≠ []) (h : ∀ c ∈ cs, isBare c = true) :
    SolidEnd cs :=
  ⟨cs.getLast hne, List.getLast?_eq_some_getLast hne,
    of_isBare (P := fun c => isBlank c = false) (by decide +kernel) (h _ (List.getLast_mem hne))⟩

/-- The node of a spelling. -/
theorem isNodeOf_spelling {kind : PlainKind} {s : String} (h : Spells s kind)
    (hwritten : Node.ofValue v = .ok (.scalar (.plain kind) s))
    (hvalue : scalarValue (.plain kind) s = .ok v) (m : Nat) :
    ∃ n, KeptNode m n ∧ IsNodeOf v n := by
  have hne : s.toList ≠ [] := by simpa using h.ne_empty
  refine ⟨.scalar (.plain kind) s, .scalar ?_, hwritten, rfl, fun depth => ?_,
    fun _ => .scalar fun _ => solidEnd_of_bare hne h.bare⟩
  · have := @KeptScalar.plain (m + levelWidth) _ h.ne_empty h.allowsPlain
    rwa [h.kind_eq] at this
  · simp [content, misfit, Tag.isScalar, hvalue]

theorem isNodeOf_text {s : String} : IsNodeOf (.text s) (.scalar (.plain .text) s) := by
  refine ⟨rfl, rfl, fun depth => by simp [content, misfit, Tag.isScalar, scalarValue],
    fun h => .scalar ?_⟩
  cases h with
  | text h => exact h
  | other htext => exact absurd rfl (htext s)

/-- The nodes of the members of a list. -/
theorem exists_nodes (h : ∀ v ∈ vs, ∃ n, KeptNode m n ∧ IsNodeOf v n) :
    ∃ ns, Node.ofValues vs = .ok ns ∧ (∀ n ∈ ns, KeptNode m n) ∧ unmergeAll ns = .ok ns
      ∧ (∀ depth, contents depth ns = .ok vs)
      ∧ ((∀ v ∈ vs.getLast?, SolidValue v) → ∀ n ∈ ns.getLast?, EndsSolid n) := by
  induction vs with
  | nil => exact ⟨[], rfl, by simp, rfl, fun _ => rfl, by simp⟩
  | cons v vs ih =>
    obtain ⟨⟨n, hkept, hnode⟩, hvs⟩ := List.forall_mem_cons.1 h
    obtain ⟨ns, hwritten, hall, hunmerged, hcontents, hends⟩ := ih hvs
    refine ⟨n :: ns, ?_, List.forall_mem_cons.2 ⟨hkept, hall⟩, ?_, fun depth => ?_, ?_⟩
    · simp [Node.ofValues, hnode.written, hwritten, Except.bind, Except.map]
    · simp [unmergeAll, hnode.unmerged, hunmerged, Except.bind, Except.map]
    · simp [contents, hnode.content, hcontents, both, Except.map]
    · cases vs with
      | nil =>
        obtain rfl : [] = ns := Except.ok.inj hwritten
        intro hlast x hx
        obtain rfl : n = x := Option.some.inj hx
        exact hnode.ends (hlast v rfl)
      | cons v' vs =>
        obtain ⟨n', ns, rfl⟩ : ∃ n' ns', ns = n' :: ns' := List.exists_cons_of_ne_nil (by
          rintro rfl
          cases hcontents 0)
        rw [List.getLast?_cons_cons, List.getLast?_cons_cons]
        exact hends

/-- The node of a list. -/
theorem exists_list (h : ∀ v ∈ vs, ∃ n, KeptNode m n ∧ IsNodeOf v n) :
    ∃ ns, (∀ n ∈ ns, KeptNode m n) ∧ IsNodeOf (.list vs) (.list .list ns) := by
  obtain ⟨ns, hwritten, hall, hunmerged, hcontents, hends⟩ := exists_nodes h
  refine ⟨ns, hall, ?_, ?_, fun depth => ?_, fun hsolid => .list ?_⟩
  · simp [Node.ofValue, hwritten, Except.map]
  · simp [unmerge, hunmerged, Except.map]
  · simp [content, hcontents, Except.map]
  · cases hsolid with
    | list hvs => exact hends hvs
    | other _ hlist => exact absurd rfl (hlist _)

/-- **A value that comes back has a node that is read as it.** -/
theorem exists_node (h : KeptValue m v) : ∃ n, KeptNode m n ∧ IsNodeOf v n := by
  induction h with
  | null => exact isNodeOf_spelling spells_null rfl rfl _
  | bool b =>
    refine isNodeOf_spelling (spells_bool b) rfl ?_ _
    simp only [scalarValue, readBool?_boolText]
  | @int m n h =>
    refine isNodeOf_spelling (spells_intText n) ?_ ?_ m
    · rw [Node.ofValue, wholeText, if_neg (Nat.not_lt.2 h)]
      rfl
    · simp [scalarValue, readWhole_intText h, Except.map]
  | real x =>
    refine isNodeOf_spelling (spells_realText x) rfl ?_ _
    simp [scalarValue, readRealScalar_realText, Except.map]
  | date d =>
    refine isNodeOf_spelling (spells_isoText d) rfl ?_ _
    simp [scalarValue, readTime_isoText]
  | text h => exact ⟨_, .scalar (.text h), isNodeOf_text⟩
  | list h ih =>
    obtain ⟨ns, hall, hnode⟩ := exists_list ih
    exact ⟨_, .list hall, hnode⟩

/-- A list of nodes is read as a list. -/
theorem IsNodeOf.exists_list {ns : List Node} (h : IsNodeOf v (.list .list ns)) :
    ∃ vs, v = .list vs := by
  have hcontent := h.content 0
  rw [Yaml.content, if_pos rfl] at hcontent
  cases hcontents : contents 1 ns with
  | error e => simp [hcontents, Except.map] at hcontent
  | ok vs => exact ⟨vs, by simpa [hcontents, Except.map] using hcontent.symm⟩

/-- **An entry that comes back has a node that is read as its value.** -/
theorem exists_entry (h : KeptAttribute k v) : ∃ n, KeptEntry k n ∧ IsNodeOf v n := by
  cases h with
  | line hk hshort hv =>
    suffices hbelow : ∃ n, KeptBelow n ∧ IsNodeOf v n by
      obtain ⟨n, hbelow, hnode⟩ := hbelow
      exact ⟨n, .line hk hshort hbelow, hnode⟩
    by_cases hlist : ∃ vs, v = .list vs
    · obtain ⟨vs, rfl⟩ := hlist
      obtain ⟨ns, hall, hnode⟩ := exists_list fun w hw => exists_node (hv w hw)
      exact ⟨_, .list hall, hnode⟩
    · have hvalue : KeptValue 0 v := by
        cases v with
        | list vs => exact absurd ⟨vs, rfl⟩ hlist
        | _ => exact hv
      obtain ⟨n, hn, hnode⟩ := exists_node hvalue
      cases hn with
      | scalar h => exact ⟨_, .scalar h, hnode⟩
      | list => exact absurd hnode.exists_list hlist
  | marked hk hkept hv =>
    obtain ⟨n, hnode, hvalue⟩ := exists_node hv
    exact ⟨n, .marked hk hkept hnode, hvalue⟩

/-! ## Entries -/

/-- The entries of attributes, as values. -/
def textEntries (as : List (String × Value)) : List (Value × Value) :=
  as.map fun x => (.text x.1, x.2)

theorem object_eq (as : List (String × Value)) : Value.object as = .map (textEntries as) := rfl

theorem textEntries_append (as bs : List (String × Value)) :
    textEntries (as ++ bs) = textEntries as ++ textEntries bs := List.map_append

/-- A key is read as its text. -/
theorem content_keyNode (depth : Nat) (k : String) : content depth (keyNode k) = .ok (.text k) := by
  simp [keyNode, content, misfit, Tag.isScalar, scalarValue]

/-- An entry with a new key is read behind those before. -/
theorem entryContents_cons {depth : Nat} {done : List (String × Value)} {es : List (Node × Node)}
    (hnew : k ∉ done.map Prod.fst) (hcontent : content depth n = .ok v) :
    entryContents depth (textEntries done) ((keyNode k, n) :: es)
      = entryContents depth (textEntries (done ++ [(k, v)])) es := by
  have hput : putEntry Value.same (.text k) v (textEntries done)
      = textEntries (done ++ [(k, v)]) := by
    rw [textEntries_append]
    refine putEntry_new v fun e he => ?_
    obtain ⟨x, hx, rfl⟩ := List.mem_map.1 he
    refine decide_eq_false ?_
    rintro rfl
    exact hnew (List.mem_map_of_mem hx)
  have hsingle : isSingle (keyNode k) = true := rfl
  rw [entryContents, content_keyNode, hcontent, hsingle, if_pos rfl]
  exact congrArg (entryContents depth · es) hput

/-- **Entries with different keys are read behind those before.** -/
theorem entryContents_nodes {as : List (String × Value)} {es : List (String × Node)} {depth : Nat}
    (h : List.Forall₂ (fun a e => a.1 = e.1 ∧ content depth e.2 = .ok a.2) as es)
    {done : List (String × Value)} (hnodup : ((done ++ as).map Prod.fst).Nodup) :
    entryContents depth (textEntries done) (entryNodes es) = .ok (textEntries (done ++ as)) := by
  induction h generalizing done with
  | nil => simp [entryContents, entryNodes]
  | @cons a e as es hae has ih =>
    obtain ⟨k, n⟩ := e
    obtain ⟨rfl, hcontent⟩ := hae
    have hnew : a.1 ∉ done.map Prod.fst := by
      rw [List.map_append, List.nodup_append] at hnodup
      exact fun hmem => hnodup.2.2 _ hmem _ List.mem_cons_self rfl
    have hmoved : done ++ a :: as = (done ++ [a]) ++ as := by simp
    rw [entryNodes_cons, entryContents_cons hnew hcontent, hmoved]
    exact ih (hmoved ▸ hnodup)

/-- An entry and its node, which is put down and read as its value. -/
structure IsEntryOf (a : String × Value) (e : String × Node) : Prop where
  key : a.1 = e.1
  kept : KeptEntry e.1 e.2
  node : IsNodeOf a.2 e.2

/-- The entries of attributes that come back. -/
theorem exists_entries {as : List (String × Value)} (h : ∀ a ∈ as, KeptAttribute a.1 a.2) :
    ∃ es, List.Forall₂ IsEntryOf as es := by
  induction as with
  | nil => exact ⟨[], .nil⟩
  | cons a as ih =>
    obtain ⟨ha, has⟩ := List.forall_mem_cons.1 h
    obtain ⟨n, hkept, hnode⟩ := exists_entry ha
    obtain ⟨es, hes⟩ := ih has
    exact ⟨(a.1, n) :: es, .cons ⟨rfl, hkept, hnode⟩ hes⟩

section Entries

variable {as : List (String × Value)} {es : List (String × Node)}

theorem ofEntries_nodes (h : List.Forall₂ IsEntryOf as es) :
    Node.ofEntries (textEntries as) = .ok (entryNodes es) := by
  induction h with
  | nil => rfl
  | @cons a e as es hae has ih =>
    have hkey : Node.ofValue (.text a.1) = .ok (keyNode e.1) := by
      rw [hae.key]
      rfl
    rw [textEntries, List.map_cons, ← textEntries, Node.ofEntries, hkey, hae.node.written, ih]
    rfl

theorem tag_keyNode_ne (k : String) : (keyNode k).tag ≠ .plain .merge := by simp [keyNode, Node.tag]

/-- Nothing is merged into entries with texts for keys. -/
theorem unmergedUnder_nodes (es : List (String × Node)) :
    unmergedUnder (entryNodes es) = .ok [] := by
  induction es with
  | nil => rfl
  | cons e es ih => rw [entryNodes_cons, unmergedUnder, if_neg (tag_keyNode_ne e.1), ih]

theorem unmergeEntries_nodes (h : List.Forall₂ IsEntryOf as es) :
    unmergeEntries (entryNodes es) = .ok (entryNodes es) := by
  induction h with
  | nil => rfl
  | @cons a e as es hae has ih =>
    rw [entryNodes_cons, unmergeEntries, if_neg (tag_keyNode_ne e.1), hae.node.unmerged, ih]
    rfl

theorem kept_nodes (h : List.Forall₂ IsEntryOf as es) : ∀ e ∈ es, KeptEntry e.1 e.2 := by
  induction h with
  | nil => simp
  | cons hae has ih => exact List.forall_mem_cons.2 ⟨hae.kept, ih⟩

/-- The node of the last entry ends solid if its value does. -/
theorem endsSolid_nodes (h : List.Forall₂ IsEntryOf as es)
    (hlast : ∀ a ∈ as.getLast?, SolidValue a.2) : ∀ e ∈ es.getLast?, EndsSolid e.2 := by
  induction h with
  | nil => simp
  | @cons a e as es hae has ih =>
    cases has with
    | nil =>
      intro x hx
      obtain rfl : e = x := Option.some.inj hx
      exact hae.node.ends (hlast a rfl)
    | cons _ _ => exact ih hlast

/-- **The node of the entries is read as the map of them.** -/
theorem content_nodes (h : List.Forall₂ IsEntryOf as es) (hkeys : (as.map Prod.fst).Nodup) :
    content 0 (.map .map (entryNodes es)) = .ok (.object as) := by
  have hcontents : List.Forall₂ (fun a e => a.1 = e.1 ∧ content 1 e.2 = .ok a.2) as es :=
    h.imp fun a e hae => ⟨hae.key, hae.node.content 1⟩
  have hentries : entryContents 1 [] (entryNodes es) = .ok (textEntries as) :=
    @entryContents_nodes _ _ _ hcontents [] hkeys
  rw [content, if_pos rfl, hentries]
  rfl

end Entries

/-! ## Maps -/

/-- **A map that comes back is written**, on lines that are tidy and end solid, and these lines are
read as the map. -/
theorem exists_write {as : List (String × Value)} (hne : as ≠ [])
    (hkeys : (as.map Prod.fst).Nodup) (hall : ∀ a ∈ as, KeptAttribute a.1 a.2) :
    ∃ e s, write (.object as) = .ok s ∧ s.toList = e ++ ['\n'] ∧ Tidy e ∧ IsUndashed e
      ∧ ((∀ a ∈ as.getLast?, SolidValue a.2) → SolidEnd e)
      ∧ ∀ t : String, t.toList = '\n' :: (e ++ ['\n']) → read t = .ok (.object as) := by
  obtain ⟨es, hes⟩ := exists_entries hall
  have hne' : es ≠ [] := by
    rintro rfl
    cases hes
    exact hne rfl
  obtain ⟨ts, e, hform, htext⟩ := text_entries hne' (kept_nodes hes)
  have hwritten : write (.object as) = .ok (Node.map .map (entryNodes es)).text := by
    rw [write, object_eq, Node.ofValue, ofEntries_nodes hes]
    rfl
  refine ⟨e, _, hwritten, htext, hform.tidy, hform.isUndashed,
    fun hlast => hform.solidEnd (endsSolid_nodes hes hlast), fun t ht => ?_⟩
  have hunmerged : unmerge (.map .map (entryNodes es)) = .ok (.map .map (entryNodes es)) := by
    rw [unmerge, unmergedUnder_nodes, unmergeEntries_nodes hes]
    rfl
  rw [read, tokens_entries hform hform.tidy.allowed ht]
  simp only [Except.bind, ofTokens_entries hform, hunmerged, content_nodes hes hkeys]

end Taskboard.Yaml
