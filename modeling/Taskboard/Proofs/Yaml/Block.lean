import Taskboard.Proofs.Yaml.Layout

/-!
# Proofs/Yaml/Block — lists and entries in blocks

The forms in which the members of a list and the entries of a map stand in lines, with the tokens
they are taken as.

* `items_leads` — **the members of a list are taken one after another**, nested lists between the
  marks of their blocks.
* `entries_leads` — **the entries of a map are taken one after another**; a list right below its key
  has no block of its own.
* `tokens_entries` — the tokens of a text that holds entries.
-/

namespace Taskboard.Yaml

/-! ## Forms -/

/-- A node in one piece, inside a block at a column. -/
inductive Flat (m : Nat) : Node → List Token → List Char → Prop
  | scalar {tag : Tag} {text : String} {e : List Char}
      (h : ScalarForm (m + levelWidth) (isWrittenPlain tag text) tag text e) :
      Flat m (.scalar tag text) [.scalar text (isWrittenPlain tag text)] e
  | empty : Flat m (.list .list []) [.listOpen, .listClose] ['[', ']']

/-- **The members of a list in lines**, their marks at a column. -/
inductive Items : Nat → List Node → List Token → List Char → Prop
  | flat {m : Nat} {n : Node} {ts : List Token} {e : List Char} (h : Flat m n ts e) :
      Items m [n] (.entry :: ts) ('-' :: ' ' :: e)
  /-- A list begins in the line of its mark. -/
  | nested {m : Nat} {ns : List Node} {ts : List Token} {e : List Char}
      (h : Items (m + levelWidth) ns ts e) :
      Items m [.list .list ns] (.entry :: .blockList :: (ts ++ [.blockEnd])) ('-' :: ' ' :: e)
  | cons {m : Nat} {n : Node} {ns : List Node} {ts ts' : List Token} {e f : List Char}
      (h : Items m [n] ts e) (hs : Items m ns ts' f) :
      Items m (n :: ns) (ts ++ ts') (e ++ '\n' :: (List.replicate m ' ' ++ f))

/-- A node behind a mark at a column. -/
inductive Behind (m : Nat) : Node → List Token → List Char → Prop
  | flat {n : Node} {ts : List Token} {e : List Char} (h : Flat m n ts e) : Behind m n ts e
  | nested {ns : List Node} {ts : List Token} {e : List Char} (h : Items (m + levelWidth) ns ts e) :
      Behind m (.list .list ns) (.blockList :: (ts ++ [.blockEnd])) e

/-- A key that stands in one line with its colon. -/
structure IsLineKey (plain : Bool) (k : String) (g : List Char) : Prop where
  form : ScalarForm levelWidth plain (.plain .text) k g
  isInline : ∀ ch ∈ g, IsInline ch
  short : g.length ≤ Layout.maxKeyLength

/-- **An entry of a map in lines**: the key with a colon behind it, or key and value behind marks.
-/
inductive Entry (k : String) : Node → List Token → List Char → Prop
  | flat {plain : Bool} {v : Node} {ts : List Token} {g e : List Char} (hk : IsLineKey plain k g)
      (h : Flat 0 v ts e) :
      Entry k v (.key :: .scalar k plain :: .value :: ts) (g ++ ':' :: ' ' :: e)
  /-- A list begins in the line below its key. -/
  | below {plain : Bool} {ns : List Node} {ts : List Token} {g e : List Char}
      (hk : IsLineKey plain k g)
      (h : Items 0 ns ts e) :
      Entry k (.list .list ns) (.key :: .scalar k plain :: .value :: ts) (g ++ ':' :: '\n' :: e)
  | marked {plain : Bool} {v : Node} {ts : List Token} {g e : List Char}
      (hk : ScalarForm levelWidth plain (.plain .text) k g) (h : Behind 0 v ts e) :
      Entry k v (.key :: .scalar k plain :: .value :: ts)
        ('?' :: ' ' :: (g ++ '\n' :: ':' :: ' ' :: e))

/-- The key of an entry, as a node. -/
def keyNode (k : String) : Node := .scalar (.plain .text) k

/-- Entries as nodes. -/
def entryNodes (es : List (String × Node)) : List (Node × Node) :=
  es.map fun x => (keyNode x.1, x.2)

@[simp] theorem entryNodes_cons (k : String) (v : Node) (es : List (String × Node)) :
    entryNodes ((k, v) :: es) = (keyNode k, v) :: entryNodes es := rfl

/-- **The entries of a map in lines.** -/
inductive Entries : List (String × Node) → List Token → List Char → Prop
  | one {k : String} {v : Node} {ts : List Token} {e : List Char} (h : Entry k v ts e) :
      Entries [(k, v)] ts e
  | cons {k : String} {v : Node} {es : List (String × Node)} {ts ts' : List Token} {e f : List Char}
      (h : Entry k v ts e) (hs : Entries es ts' f) :
      Entries ((k, v) :: es) (ts ++ ts') (e ++ '\n' :: f)

/-! ## How forms begin -/

variable {m j indent : Nat} {plain : Bool} {tag : Tag} {text k : String} {n v : Node}
  {ns : List Node}
  {us us' ts : List Token} {e f g r rest : List Char} {es : List (String × Node)}

theorem ScalarForm.solid_append (h : ScalarForm indent plain tag text e) (rest : List Char) :
    IsSolid (e ++ rest) := by
  cases h with
  | plain hstart h => exact h.solid_append rest
  | quoted double h => cases double <;> exact isSolid_cons.2 (by decide)

theorem ScalarForm.no_comment (h : ScalarForm indent plain tag text e) (rest : List Char) :
    (e ++ rest).head? ≠ some '#' := by
  cases h with
  | plain hstart h => exact h.head?_append rest
  | quoted double h => cases double <;> simp [quoteOf]

theorem Flat.solid_append (h : Flat m n ts e) (rest : List Char) : IsSolid (e ++ rest) := by
  cases h with
  | scalar h => exact h.solid_append rest
  | empty => exact isSolid_cons.2 (by decide)

theorem Flat.no_comment (h : Flat m n ts e) (rest : List Char) : (e ++ rest).head? ≠ some '#' := by
  cases h with
  | scalar h => exact h.no_comment rest
  | empty => simp

/-- The members of a list begin with a mark. -/
theorem Items.exists_eq (h : Items m ns ts e) : ∃ f, e = '-' :: ' ' :: f := by
  induction h with
  | flat => exact ⟨_, rfl⟩
  | nested => exact ⟨_, rfl⟩
  | cons h hs ih =>
    obtain ⟨f, rfl⟩ := ih
    exact ⟨_, rfl⟩

theorem Behind.items (h : Behind m n ts e) : Items m [n] (.entry :: ts) ('-' :: ' ' :: e) := by
  cases h with
  | flat h => exact .flat h
  | nested h => exact .nested h

theorem Behind.solid_append (h : Behind m n ts e) (rest : List Char) : IsSolid (e ++ rest) := by
  cases h with
  | flat h => exact h.solid_append rest
  | nested h =>
    obtain ⟨f, rfl⟩ := h.exists_eq
    exact isSolid_cons.2 (by decide)

theorem Behind.no_comment (h : Behind m n ts e) (rest : List Char) :
    (e ++ rest).head? ≠ some '#' := by
  cases h with
  | flat h => exact h.no_comment rest
  | nested h =>
    obtain ⟨f, rfl⟩ := h.exists_eq
    simp

namespace Layout

variable {l l' : Layout} {c : Cursor} {blocks bs : List Nat} {allowed : Bool} {ch : Char}

theorem isLine_nil : IsLine 0 [] :=
  ⟨.nil, by simp, fun c hc => Cursor.not_atDocumentMark (by simp [hc])⟩

/-- A line with a mark at its column. -/
theorem isLine_mark (hch : ch = '-' ∨ ch = '?' ∨ ch = ':') : IsLine j (ch :: ' ' :: r) := by
  refine ⟨isSolid_cons.2 ?_, ?_, fun c hc => ?_⟩
  · rcases hch with rfl | rfl | rfl <;> decide
  · rcases hch with rfl | rfl | rfl <;> simp
  · cases j with
    | zero =>
      have hne : ch ≠ ' ' := by rcases hch with rfl | rfl | rfl <;> decide
      rw [Cursor.atDocumentMark, not_atIndicator_pair hc hne, not_atIndicator_pair hc hne]
      rfl
    | succ j =>
      apply Cursor.not_atDocumentMark
      simp [hc, List.replicate_succ]

/-- A line that starts with a key. -/
theorem isLine_key (hk : IsLineKey plain k g) (rest : List Char) : IsLine 0 (g ++ ':' :: rest) := by
  refine ⟨hk.form.solid_append _, hk.form.no_comment _, fun c hc => ?_⟩
  obtain ⟨hdash, hdot⟩ := not_atIndicator_form hk.form hk.isInline hc
  rw [Cursor.atDocumentMark, hdash, hdot]
  rfl

/-- The first entry of a map may begin a line. -/
theorem isLine_entry (h : Entry k v ts e) (rest : List Char) : IsLine 0 (e ++ rest) := by
  cases h with
  | flat hk h =>
    rw [List.append_assoc]
    exact isLine_key hk _
  | below hk h =>
    rw [List.append_assoc]
    exact isLine_key hk _
  | marked hk h => exact isLine_mark (by simp)

theorem isLine_entries (h : Entries es ts e) (rest : List Char) : IsLine 0 (e ++ rest) := by
  cases h with
  | one h => exact isLine_entry h rest
  | cons h hs =>
    rw [List.append_assoc]
    exact isLine_entry h _

/-! ## Members of lists -/

/-- A mark leads to what stands behind it. -/
theorem mark_leads {opening part : Token}
    (hmark : ch = '-' ∧ opening = .blockList ∧ part = .entry
      ∨ ch = '?' ∧ opening = .blockMap ∧ part = .key
      ∨ ch = ':' ∧ opening = .blockMap ∧ part = .value)
    (h : Arrives l c ts blocks true) (hblocks : ∀ m ∈ blocks.head?, m ≤ c.column)
    (hc : c.rest = ch :: ' ' :: r) (hsolid : IsSolid r) (hcomment : r.head? ≠ some '#') :
    ∃ l', Leads l l' ∧ Arrives l' (c.skip 2) ((opened opening c ts blocks).1 ++ [part])
      (opened opening c ts blocks).2 true ∧ (c.skip 2).rest = r
      ∧ (c.skip 2).column = c.column + levelWidth := by
  have hnext : c.forward.rest = ' ' :: r := Cursor.rest_forward_cons hc
  have hinline : ∀ d ∈ [ch, ' '], IsInline d := by
    have hch : IsInline ch := by
      rcases hmark with ⟨rfl, -⟩ | ⟨rfl, -⟩ | ⟨rfl, -⟩ <;> exact ⟨by decide, by decide⟩
    simpa using ⟨hch, isInline_space⟩
  refine ⟨_, h.step hblocks (takeNext_mark hc hmark) ?_,
    arrives_blanks (k := 1) hnext hsolid hcomment (.nil _), ?_, ?_⟩
  · change c.forward.rest.length < _
    rw [hnext, hc]
    simp
  · rw [Cursor.rest_skip, hc]
    rfl
  · exact (@Cursor.column_line _ [ch, ' '] _ hc hinline).1

/-- A text that is taken as tokens behind a mark of the block at a column, up to the next line. -/
def Taken (m : Nat) (ts : List Token) (e : List Char) : Prop :=
  ∀ {l : Layout} {c : Cursor} {us : List Token} {bs : List Nat} {j : Nat} {r : List Char},
    Arrives l c us (m :: bs) true → c.column = m + levelWidth →
    c.rest = e ++ '\n' :: (List.replicate j ' ' ++ r) → IsLine j r → j ≤ m →
    ∃ l', Leads l l' ∧ Arrives l' (c.skip (e.length + (j + 1))) (us ++ ts) (m :: bs) true

/-- A text whose lines are taken as the tokens of members, their marks at a column. -/
def Listed (m : Nat) (ts : List Token) (e : List Char) : Prop :=
  ∀ {l : Layout} {c : Cursor} {us us' : List Token} {blocks bs : List Nat} {j : Nat}
    {r : List Char},
    Arrives l c us blocks true → (∀ m ∈ blocks.head?, m ≤ c.column) → c.column = m →
    opened .blockList c us blocks = (us', m :: bs) →
    c.rest = e ++ '\n' :: (List.replicate j ' ' ++ r) → IsLine j r → j ≤ m →
    ∃ l', Leads l l' ∧ Arrives l' (c.skip (e.length + (j + 1))) (us' ++ ts) (m :: bs) true

/-- **A node in one piece is taken as its tokens**, also where no key is allowed. -/
theorem flat_leads (hform : Flat m n ts e) (h : Arrives l c us (m :: bs) allowed)
    (hm : m < c.column)
    (hc : c.rest = e ++ '\n' :: (List.replicate j ' ' ++ r)) (hline : IsLine j r) (hj : j ≤ m) :
    ∃ l', Leads l l' ∧ Arrives l' (c.skip (e.length + (j + 1))) (us ++ ts) (m :: bs) true := by
  cases hform with
  | scalar hform => exact scalar_leads hform h hm (by simp [levelWidth]) hc hline hj
  | empty => exact brackets_leads h hm hc hline

theorem taken_flat (hform : Flat m n ts e) : Taken m ts e := fun h hcolumn hc hline hj =>
  flat_leads hform h (by simp [hcolumn, levelWidth]) hc hline hj

/-- **A list in the line of its mark** is a block of its own, which ends before the next line. -/
theorem taken_nested (hlisted : Listed (m + levelWidth) ts e) :
    Taken m (.blockList :: (ts ++ [.blockEnd])) e := by
  intro l c us bs j r h hcolumn hc hline hj
  have hdeeper : ∀ n ∈ (m :: bs).head?, n < c.column := by
    rintro n ⟨rfl⟩
    simp [hcolumn, levelWidth]
  have hopened := @opened_deeper _ us _ .blockList hdeeper
  rw [hcolumn] at hopened
  obtain ⟨l', hleads, harrives⟩ := hlisted h (fun n hn => Nat.le_of_lt (hdeeper n hn)) hcolumn
    hopened hc
    hline (by omega)
  refine ⟨l', hleads, ?_⟩
  have := harrives.close (by rw [(Cursor.skip_line hc).2.1, levelWidth]; omega)
  simpa using this

theorem listed_of_taken (htaken : Taken m ts e) (hform : Behind m n ts e) :
    Listed m (.entry :: ts) ('-' :: ' ' :: e) := by
  intro l c us us' blocks bs j r h hblocks hcolumn hopened hc hline hj
  obtain ⟨l', hleads, harrives, hrest, hcolumn'⟩ := mark_leads (.inl ⟨rfl, rfl, rfl⟩) h hblocks hc
    (hform.solid_append _) (hform.no_comment _)
  rw [hopened] at harrives
  rw [hcolumn] at hcolumn'
  obtain ⟨l'', hleads', harrives'⟩ := htaken harrives hcolumn' hrest hline hj
  refine ⟨l'', hleads.trans hleads', ?_⟩
  rw [Cursor.skip_skip] at harrives'
  have hlen : ('-' :: ' ' :: e).length + (j + 1) = 2 + (e.length + (j + 1)) := by
    simp only [List.length_cons]
    omega
  rw [hlen]
  simpa using harrives'

/-- **The members of a list are taken one after another.** -/
theorem items_leads (h : Items m ns ts e) : Listed m ts e := by
  induction h with
  | flat h => exact listed_of_taken (taken_flat h) (.flat h)
  | nested h ih => exact listed_of_taken (taken_nested ih) (Behind.nested h)
  | @cons m n ns ts ts' e f h hs ih ihs =>
    intro l c us us' blocks bs j r harrives hblocks hcolumn hopened hc hline hj
    rw [List.append_assoc, List.cons_append, List.append_assoc] at hc
    have hmark : IsLine m (f ++ '\n' :: (List.replicate j ' ' ++ r)) := by
      obtain ⟨f, rfl⟩ := hs.exists_eq
      exact isLine_mark (.inl rfl)
    obtain ⟨l', hleads, harrives'⟩ := ih harrives hblocks hcolumn hopened hc hmark (Nat.le_refl m)
    obtain ⟨hnext, hcolumn', -⟩ := Cursor.skip_line hc
    obtain ⟨l'', hleads', harrives''⟩ := ihs harrives' (by simp [hcolumn']) hcolumn'
      (opened_same _ hcolumn') hnext hline hj
    refine ⟨l'', hleads.trans hleads', ?_⟩
    rw [Cursor.skip_skip] at harrives''
    have hlen : (e ++ '\n' :: (List.replicate m ' ' ++ f)).length + (j + 1)
        = e.length + (m + 1) + (f.length + (j + 1)) := by
      simp only [List.length_append, List.length_cons, List.length_replicate]
      omega
    rwa [hlen, ← List.append_assoc]

theorem behind_taken (h : Behind m n ts e) : Taken m ts e := by
  cases h with
  | flat h => exact taken_flat h
  | nested h => exact taken_nested (items_leads h)

/-! ## Entries of maps -/

/-- A key behind its mark, up to the mark of its value, and the value behind that. -/
theorem marked_leads (hk : ScalarForm levelWidth plain (.plain .text) k g) (hv : Behind 0 v ts e)
    (h : Arrives l c us blocks true) (hblocks : ∀ m ∈ blocks.head?, m ≤ c.column)
    (hcolumn : c.column = 0) (hopened : opened .blockMap c us blocks = (us', [0]))
    (hc : c.rest = '?' :: ' ' :: (g ++ '\n' :: ':' :: ' ' :: e) ++ '\n' :: r) (hline : IsLine 0 r) :
    ∃ l', Leads l l' ∧
      Arrives l' (c.skip (('?' :: ' ' :: (g ++ '\n' :: ':' :: ' ' :: e)).length + 1))
      (us' ++ (.key :: .scalar k plain :: .value :: ts)) [0] true := by
  rw [List.cons_append, List.cons_append, List.append_assoc] at hc
  obtain ⟨l₁, hleads₁, h₁, hrest₁, hcolumn₁⟩ :=
    mark_leads (.inr (.inl ⟨rfl, rfl, rfl⟩)) h hblocks hc
    (hk.solid_append _) (hk.no_comment _)
  rw [hopened] at h₁
  rw [hcolumn, Nat.zero_add] at hcolumn₁
  obtain ⟨l₂, hleads₂, h₂⟩ := scalar_leads (j := 0) hk h₁ (by simp [hcolumn₁, levelWidth])
    (by simp [levelWidth]) hrest₁ (isLine_mark (.inr (.inr rfl))) (Nat.le_refl 0)
  obtain ⟨hrest₂, hcolumn₂, -⟩ := Cursor.skip_line (k := 0) hrest₁
  obtain ⟨l₃, hleads₃, h₃, hrest₃, hcolumn₃⟩ := mark_leads (.inr (.inr ⟨rfl, rfl, rfl⟩)) h₂
    (by simp) hrest₂ (hv.solid_append _) (hv.no_comment _)
  rw [opened_same _ hcolumn₂] at h₃
  rw [hcolumn₂] at hcolumn₃
  obtain ⟨l₄, hleads₄, h₄⟩ := behind_taken hv (j := 0) h₃ hcolumn₃ hrest₃ hline (Nat.le_refl 0)
  refine ⟨l₄, hleads₁.trans (hleads₂.trans (hleads₃.trans hleads₄)), ?_⟩
  simp only [Cursor.skip_skip] at h₄
  have hlen : ('?' :: ' ' :: (g ++ '\n' :: ':' :: ' ' :: e)).length + 1
      = 2 + (g.length + (0 + 1)) + 2 + (e.length + (0 + 1)) := by
    simp only [List.length_append, List.length_cons]
    omega
  rw [hlen]
  simpa using h₄

/-- A key in one line, up to what stands behind its colon. -/
theorem line_key_leads (hk : IsLineKey plain k g) (h : Arrives l c us blocks true)
    (hblocks : ∀ m ∈ blocks.head?, m ≤ c.column) (hcolumn : c.column = 0)
    (hopened : opened .blockMap c us blocks = (us', [0])) (hc : c.rest = g ++ ':' :: ch :: rest)
    (hch : isBlankOrBreak ch = true) :
    Leads l (idle (c.skip (g.length + 1)) (us' ++ [.key, .scalar k plain, .value]) [0] false) := by
  have hinner : innerOf blocks ≤ levelWidth := by
    cases blocks with
    | nil => exact Nat.zero_le _
    | cons m blocks =>
      have := hblocks m rfl
      simp only [innerOf, levelWidth]
      omega
  have := key_leads hk.form h hblocks (by simp [levelWidth]) hinner hk.isInline hk.short hc hch
  rwa [hopened] at this

/-- A value in one piece behind the colon of its key. -/
theorem inline_leads (hk : IsLineKey plain k g) (hv : Flat 0 v ts e)
    (h : Arrives l c us blocks true) (hblocks : ∀ m ∈ blocks.head?, m ≤ c.column)
    (hcolumn : c.column = 0) (hopened : opened .blockMap c us blocks = (us', [0]))
    (hc : c.rest = g ++ ':' :: ' ' :: e ++ '\n' :: r) (hline : IsLine 0 r) :
    ∃ l', Leads l l' ∧ Arrives l' (c.skip ((g ++ ':' :: ' ' :: e).length + 1))
      (us' ++ (.key :: .scalar k plain :: .value :: ts)) [0] true := by
  rw [List.append_assoc] at hc
  have hleads := line_key_leads hk h hblocks hcolumn hopened hc (by decide)
  have hback := Cursor.rest_skip_append_cons hc
  have harrives := @arrives_blanks _ (us' ++ [.key, .scalar k plain, .value]) [0] false _ _ 1 hback
    (hv.solid_append _) (hv.no_comment _) (.nil _)
  have hinside : 0 < ((c.skip (g.length + 1)).skip 1).column := by
    rw [Cursor.skip_one, Cursor.forward_inline hback isInline_space]
    exact Nat.succ_pos _
  obtain ⟨l', hleads', harrives'⟩ := flat_leads (j := 0) hv harrives hinside
    (Cursor.rest_forward_cons hback) hline (Nat.le_refl 0)
  refine ⟨l', hleads.trans hleads', ?_⟩
  simp only [Cursor.skip_skip] at harrives'
  have hlen : (g ++ ':' :: ' ' :: e).length + 1 = g.length + 1 + 1 + (e.length + (0 + 1)) := by
    simp only [List.length_append, List.length_cons]
    omega
  rw [hlen]
  simpa using harrives'

/-- A list in the lines below its key. -/
theorem below_leads (hk : IsLineKey plain k g) (hv : Items 0 ns ts e)
    (h : Arrives l c us blocks true) (hblocks : ∀ m ∈ blocks.head?, m ≤ c.column)
    (hcolumn : c.column = 0) (hopened : opened .blockMap c us blocks = (us', [0]))
    (hc : c.rest = g ++ ':' :: '\n' :: e ++ '\n' :: r) (hline : IsLine 0 r) :
    ∃ l', Leads l l' ∧ Arrives l' (c.skip ((g ++ ':' :: '\n' :: e).length + 1))
      (us' ++ (.key :: .scalar k plain :: .value :: ts)) [0] true := by
  rw [List.append_assoc] at hc
  have hleads := line_key_leads hk h hblocks hcolumn hopened hc (by decide)
  have hback := Cursor.rest_skip_append_cons hc
  have hmark : IsLine 0 (e ++ '\n' :: r) := by
    obtain ⟨f, rfl⟩ := hv.exists_eq
    exact isLine_mark (.inl rfl)
  have harrives := @arrives_line _ (us' ++ [.key, .scalar k plain, .value]) [0] false _ _ 0 hback
    hmark (.nil _)
  have hcolumn' := (Cursor.skip_newline (k := 0) hback).1
  obtain ⟨l', hleads', harrives'⟩ := items_leads hv (j := 0) harrives (by simp) hcolumn'
    (opened_same _ hcolumn') (Cursor.rest_forward_cons hback) hline (Nat.le_refl 0)
  refine ⟨l', hleads.trans hleads', ?_⟩
  simp only [Cursor.skip_skip] at harrives'
  have hlen : (g ++ ':' :: '\n' :: e).length + 1
      = g.length + 1 + (0 + 1) + (e.length + (0 + 1)) := by
    simp only [List.length_append, List.length_cons]
    omega
  rw [hlen]
  simpa using harrives'

/-- **An entry is taken as its tokens**, up to the next line. -/
theorem entry_leads (hform : Entry k v ts e) (h : Arrives l c us blocks true)
    (hblocks : ∀ m ∈ blocks.head?, m ≤ c.column) (hcolumn : c.column = 0)
    (hopened : opened .blockMap c us blocks = (us', [0])) (hc : c.rest = e ++ '\n' :: r)
    (hline : IsLine 0 r) :
    ∃ l', Leads l l' ∧ Arrives l' (c.skip (e.length + 1)) (us' ++ ts) [0] true := by
  cases hform with
  | flat hk hv => exact inline_leads hk hv h hblocks hcolumn hopened hc hline
  | below hk hv => exact below_leads hk hv h hblocks hcolumn hopened hc hline
  | marked hk hv => exact marked_leads hk hv h hblocks hcolumn hopened hc hline

/-- **The entries of a map are taken one after another.** -/
theorem entries_leads (hform : Entries es ts e) (h : Arrives l c us blocks true)
    (hblocks : ∀ m ∈ blocks.head?, m ≤ c.column) (hcolumn : c.column = 0)
    (hopened : opened .blockMap c us blocks = (us', [0])) (hc : c.rest = e ++ '\n' :: r)
    (hline : IsLine 0 r) :
    ∃ l', Leads l l' ∧ Arrives l' (c.skip (e.length + 1)) (us' ++ ts) [0] true := by
  induction hform generalizing l c us us' blocks with
  | one hform => exact entry_leads hform h hblocks hcolumn hopened hc hline
  | @cons k v es ts ts' e f hform hs ih =>
    rw [List.append_assoc] at hc
    obtain ⟨l', hleads, harrives⟩ := entry_leads hform h hblocks hcolumn hopened hc
      (isLine_entries hs _)
    obtain ⟨hnext, hcolumn', -⟩ := Cursor.skip_line (k := 0) hc
    obtain ⟨l'', hleads', harrives'⟩ := ih harrives (by simp) hcolumn' (opened_same _ hcolumn')
      hnext
    refine ⟨l'', hleads.trans hleads', ?_⟩
    rw [Cursor.skip_skip] at harrives'
    have hlen : (e ++ '\n' :: f).length + 1 = e.length + 1 + (f.length + 1) := by
      simp only [List.length_append, List.length_cons]
      omega
    rwa [hlen, ← List.append_assoc]

/-! ## The end of the text -/

/-- At the end of the text the map ends, and then the text. -/
theorem Arrives.finish (h : Arrives l c ts [0] allowed) (hc : c.rest = []) (fuel : Nat) :
    run (fuel + 2) l = .ok (ts ++ [Token.blockEnd, .streamEnd]).toArray := by
  have hend : l.step
      = .ok { idle c (ts ++ [.blockEnd, .streamEnd]) [] false with finished := true } := by
    have hpeek : c.peek? = none := by rw [Cursor.peek?, hc, List.head?_nil]
    rw [step_eq, h.ready, unwind_self (by simp)]
    simp [Except.bind, takeNext, idle, resting, hpeek, endStream, unwindAll, dropPending,
      Except.map]
  rw [run, h.finished, if_neg Bool.false_ne_true, hend]
  rfl

end Layout

/-- **The tokens of a text that holds the entries of a map**, each on lines of its own. -/
theorem tokens_entries (h : Entries es ts e) (hallowed : ∀ ch ∈ e, isAllowed ch = true) {s : String}
    (hs : s.toList = '\n' :: (e ++ ['\n'])) :
    Token.ofText s = .ok (.blockMap :: (ts ++ [.blockEnd, .streamEnd])) := by
  have hstart : (Cursor.ofText s).rest = '\n' :: (e ++ ['\n']) := hs
  have hnext : ((Cursor.ofText s).skip 1).rest = e ++ ['\n'] := Cursor.rest_forward_cons hstart
  have hcolumn := (Cursor.skip_newline (k := 0) hstart).1
  have harrives : Layout.Arrives (Layout.start s) ((Cursor.ofText s).skip 1) [] [] true :=
    Layout.arrives_line (k := 0) hstart (Layout.isLine_entries h _) (.nil _)
  obtain ⟨l', ⟨n, hn, hrun⟩, harrives'⟩ := Layout.entries_leads h harrives (by simp) hcolumn
    (by rw [Layout.opened_deeper _ (by simp), hcolumn]) hnext Layout.isLine_nil
  have hback := Cursor.rest_skip_append_cons hnext
  have hbound : n ≤ s.toList.length := Nat.le_trans (Nat.le_add_right _ _) hn
  have htokens : Layout.run (s.toList.length + 2) (Layout.start s)
      = .ok (.blockMap :: (ts ++ [.blockEnd, .streamEnd])).toArray := by
    rw [show s.toList.length + 2 = s.toList.length - n + 2 + n by omega, hrun,
      harrives'.finish hback]
    simp
  have hmark : dropByteOrderMark s = s.toList := by
    rw [dropByteOrderMark, hs]
    exact if_neg (by decide)
  have hall : s.toList.all isAllowed = true := by
    have hnewline : ∀ ch ∈ ['\n'], isAllowed ch = true := List.forall_mem_singleton.2 (by decide)
    rw [hs, List.all_eq_true]
    exact List.forall_mem_cons.2 ⟨by decide, List.forall_mem_append.2 ⟨hallowed, hnewline⟩⟩
  rw [Token.ofText, hmark]
  simp only [hall, if_true, String.ofList_toList, htokens, Except.map]

end Taskboard.Yaml
