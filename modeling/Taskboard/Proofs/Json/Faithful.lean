import Taskboard.Proofs.Json.RoundTrip
import Taskboard.Proofs.Value.Captions

/-!
# Proofs/Json/Faithful — what is read can be written again

* `Json.faithful_of_read` — **the value of a document is faithful**: its whole numbers are short,
  and the keys of each of its maps are texts that differ. So it is read once more from any document
  that it is written as.
-/

namespace Taskboard.Json

/-! ## Atoms -/

theorem faithful_of_readNumber {negative : Bool} {cs rest : List Char} {v : Value}
    (h : readNumber negative cs = .ok (v, rest)) : Faithful v := by
  unfold readNumber at h
  split at h
  next whole tail hparts =>
    have hwhole : ∀ c ∈ whole, c.isDigit = true := by
      split at hparts
      next =>
        obtain ⟨rfl, -⟩ := Prod.mk.inj hparts
        exact List.forall_mem_singleton.2 rfl
      next =>
        obtain ⟨rfl, -⟩ := Prod.mk.inj hparts
        exact List.all_eq_true.1 List.all_takeWhile
    dsimp only at h
    split at h
    next => exact absurd h (by simp)
    next =>
      split at h
      next =>
        split at h
        next => exact absurd h (by simp)
        next hlen =>
          obtain ⟨rfl, -⟩ := Prod.mk.inj (Except.ok.inj h)
          exact isShort_digitsValue hwhole (Nat.not_lt.1 hlen) negative
      next =>
        split at h
        next =>
          obtain ⟨rfl, -⟩ := Prod.mk.inj (Except.ok.inj h)
          trivial
        next => exact absurd h (by simp)

theorem faithful_of_readAtom {cs rest : List Char} {v : Value}
    (h : readAtom cs = .ok (v, rest)) : Faithful v := by
  unfold readAtom at h
  repeat' split at h
  all_goals first
    | exact faithful_of_readNumber h
    | obtain ⟨rfl, -⟩ := Prod.mk.inj (Except.ok.inj h)
      trivial

/-! ## Values -/

/-- Entries under texts are those of a faithful map. -/
structure FaithfulNamed (es : List (String × Value)) : Prop where
  values : ∀ e ∈ es, Faithful e.2
  nodup : (es.map Prod.fst).Nodup

theorem FaithfulNamed.nil : FaithfulNamed [] := ⟨List.forall_mem_nil _, List.nodup_nil⟩

theorem mem_putEntry {k : String} {v : Value} {e : String × Value} {es : List (String × Value)} :
    e ∈ putEntry (· == ·) k v es → e = (k, v) ∨ e ∈ es :=
  forall_mem_putEntry (P := fun e => e = (k, v) ∨ e ∈ es) (.inl rfl)
    (fun _ _ hl _ => .inl (by rw [eq_of_beq hl])) (fun _ he => .inr he) e

theorem keys_putEntry_of_mem {k : String} {v : Value} : ∀ {es : List (String × Value)},
    k ∈ es.map Prod.fst → (putEntry (· == ·) k v es).map Prod.fst = es.map Prod.fst
  | (l, w) :: es, h => by
    rw [putEntry]
    split
    next => rfl
    next hl =>
      have hk : k ∈ es.map Prod.fst := by
        rcases List.mem_cons.1 h with rfl | h
        · exact absurd (beq_self_eq_true _) hl
        · exact h
      rw [List.map_cons, keys_putEntry_of_mem hk, List.map_cons]

/-- One more entry leaves the keys of a map different. -/
theorem FaithfulNamed.putEntry {es : List (String × Value)} (h : FaithfulNamed es) {k : String}
    {v : Value} (hv : Faithful v) : FaithfulNamed (putEntry (· == ·) k v es) where
  values e he := by
    rcases mem_putEntry he with rfl | he
    · exact hv
    · exact h.values e he
  nodup := by
    by_cases hk : k ∈ es.map Prod.fst
    · rw [keys_putEntry_of_mem hk]
      exact h.nodup
    · rw [putEntry_of_not_mem hk, List.map_append]
      refine List.nodup_append.2 ⟨h.nodup, by simp, fun a ha b hb => ?_⟩
      obtain rfl : b = k := by simpa using hb
      exact fun hab => hk (hab ▸ ha)

theorem named_map : ∀ es : List (String × Value),
    named (es.map fun (k, v) => (Value.text k, v)) = es
  | [] => rfl
  | (k, v) :: es => by rw [List.map_cons, named, named_map es]

theorem FaithfulNamed.faithful {es : List (String × Value)} (h : FaithfulNamed es) :
    Faithful (.map (es.map fun (k, v) => (.text k, v))) := by
  have hentries : ∀ {fs : List (String × Value)}, (∀ e ∈ fs, Faithful e.2) →
      FaithfulEntries (fs.map fun (k, v) => (.text k, v)) := by
    intro fs hfs
    induction fs with
    | nil => trivial
    | cons e fs ih =>
      obtain ⟨he, hfs⟩ := List.forall_mem_cons.1 hfs
      exact ⟨⟨e.1, rfl⟩, he, ih hfs⟩
  exact ⟨hentries h.values, by rw [named_map]; exact h.nodup⟩

mutual
/-- A value that is read is faithful. -/
theorem faithful_of_readValue : ∀ {fuel : Nat} {cs rest : List Char} {v : Value},
    readValue fuel cs = .ok (v, rest) → Faithful v
  | 0, _, _, _, h => absurd h (by simp [readValue])
  | fuel + 1, cs, rest, v, h => by
    rw [readValue.eq_def] at h
    dsimp only at h
    split at h
    next =>
      split at h
      next =>
        obtain ⟨rfl, -⟩ := Prod.mk.inj (Except.ok.inj h)
        trivial
      next => exact absurd h (by simp)
    next =>
      split at h
      next =>
        obtain ⟨rfl, -⟩ := Prod.mk.inj (Except.ok.inj h)
        trivial
      next =>
        cases hmembers : readMembers fuel _ with
        | error => exact absurd (hmembers ▸ h) (by simp [Except.map])
        | ok found =>
          obtain ⟨rfl, -⟩ := Prod.mk.inj (Except.ok.inj (hmembers ▸ h))
          exact faithful_of_readMembers hmembers
    next =>
      split at h
      next =>
        obtain ⟨rfl, -⟩ := Prod.mk.inj (Except.ok.inj h)
        exact ⟨trivial, List.nodup_nil⟩
      next =>
        cases hentries : readEntries fuel [] _ with
        | error => exact absurd (hentries ▸ h) (by simp [Except.map])
        | ok found =>
          obtain ⟨rfl, -⟩ := Prod.mk.inj (Except.ok.inj (hentries ▸ h))
          exact (faithful_of_readEntries .nil hentries).faithful
    next => exact faithful_of_readAtom h
  termination_by structural fuel => fuel

theorem faithful_of_readMembers : ∀ {fuel : Nat} {cs rest : List Char} {xs : List Value},
    readMembers fuel cs = .ok (xs, rest) → FaithfulAll xs
  | 0, _, _, _, h => absurd h (by simp [readMembers])
  | fuel + 1, cs, rest, xs, h => by
    rw [readMembers.eq_def] at h
    dsimp only at h
    split at h
    next => exact absurd h (by simp)
    next x behind hx =>
      split at h
      next =>
        cases hmembers : readMembers fuel _ with
        | error => exact absurd (hmembers ▸ h) (by simp [Except.map])
        | ok found =>
          obtain ⟨rfl, -⟩ := Prod.mk.inj (Except.ok.inj (hmembers ▸ h))
          exact ⟨faithful_of_readValue hx, faithful_of_readMembers hmembers⟩
      next =>
        obtain ⟨rfl, -⟩ := Prod.mk.inj (Except.ok.inj h)
        exact ⟨faithful_of_readValue hx, trivial⟩
      next => exact absurd h (by simp)
  termination_by structural fuel => fuel

theorem faithful_of_readEntries : ∀ {fuel : Nat} {seen : List (String × Value)}
    {cs rest : List Char} {es : List (String × Value)}, FaithfulNamed seen →
    readEntries fuel seen cs = .ok (es, rest) → FaithfulNamed es
  | 0, _, _, _, _, _, h => absurd h (by simp [readEntries])
  | fuel + 1, seen, cs, rest, es, hseen, h => by
    rw [readEntries.eq_def] at h
    dsimp only at h
    split at h
    next =>
      split at h
      next => exact absurd h (by simp)
      next =>
        split at h
        next =>
          split at h
          next => exact absurd h (by simp)
          next v behind hv =>
            have hmore (k : String) := hseen.putEntry (faithful_of_readValue hv) (k := k)
            split at h
            next => exact faithful_of_readEntries (hmore _) h
            next =>
              obtain ⟨rfl, -⟩ := Prod.mk.inj (Except.ok.inj h)
              exact hmore _
            next => exact absurd h (by simp)
        next => exact absurd h (by simp)
    next => exact absurd h (by simp)
  termination_by structural fuel => fuel
end

/-- **The value of a document is faithful.** -/
theorem faithful_of_read {s : String} {v : Value} (h : read s = .ok v) : Faithful v := by
  unfold read at h
  dsimp only at h
  split at h
  next => exact absurd h (by simp)
  next v' rest hv =>
    split at h
    next =>
      obtain rfl := Except.ok.inj h
      exact faithful_of_readValue hv
    next => exact absurd h (by simp)

theorem FaithfulAll.mem : ∀ {xs : List Value}, FaithfulAll xs → ∀ x ∈ xs, Faithful x
  | [], _ => List.forall_mem_nil _
  | _ :: _, ⟨hx, hxs⟩ => List.forall_mem_cons.2 ⟨hx, hxs.mem⟩

theorem FaithfulEntries.mem : ∀ {es : List (Value × Value)}, FaithfulEntries es →
    ∀ e ∈ es, (∃ s, e.1 = .text s) ∧ Faithful e.2
  | [], _ => List.forall_mem_nil _
  | (_, _) :: _, ⟨hk, hv, hes⟩ => List.forall_mem_cons.2 ⟨⟨hk, hv⟩, hes.mem⟩

/-- The members of a faithful value are faithful. -/
theorem Faithful.members {v : Value} (h : Faithful v) {vs : List Value}
    (hvs : v.members = .ok vs) : ∀ w ∈ vs, Faithful w := by
  cases v with
  | list xs =>
    obtain rfl := Except.ok.inj hvs
    exact FaithfulAll.mem h
  | map es =>
    obtain rfl := Except.ok.inj hvs
    intro k hk
    obtain ⟨e, he, rfl⟩ := List.mem_map.1 hk
    obtain ⟨⟨s, hs⟩, -⟩ := h.1.mem e he
    exact hs ▸ trivial
  | text s =>
    obtain rfl := Except.ok.inj hvs
    intro w hw
    obtain ⟨c, -, rfl⟩ := List.mem_map.1 hw
    trivial
  | set | bytes => exact h.elim
  | _ => cases hvs

/-- A field of a faithful map is faithful. -/
theorem Faithful.lookup? {es : List (Value × Value)} (h : Faithful (.map es)) {key : String}
    {v : Value} (hv : Value.lookup? key es = some v) : Faithful v := by
  obtain ⟨h, -⟩ := h
  induction es with
  | nil => exact absurd hv (by simp [Value.lookup?])
  | cons e es ih =>
    obtain ⟨k, w⟩ := e
    obtain ⟨⟨s, rfl⟩, hw, hes⟩ := h
    rw [Value.lookup?] at hv
    split at hv
    next =>
      obtain rfl := Option.some.inj hv
      exact hw
    next => exact ih hv hes

/-- A field of a faithful map, or what stands for a missing one. -/
theorem Faithful.lookup?_getD {es : List (Value × Value)} (h : Faithful (.map es)) (key : String)
    {d : Value} (hd : Faithful d) : Faithful ((Value.lookup? key es).getD d) := by
  cases hv : Value.lookup? key es with
  | none => exact hd
  | some v => exact h.lookup? hv

/-! ## Texts -/

mutual
/-- A faithful value has a text. -/
theorem Faithful.hasText : ∀ v : Value, Faithful v → v.HasText
  | .null, _ | .bool _, _ | .real _, _ | .text _, _ => trivial
  | .int _, h => h
  | .list xs, h => hasText_of_faithfulAll xs h
  | .map es, h => hasText_of_faithfulEntries es h.1
  termination_by structural v => v

theorem hasText_of_faithfulAll : ∀ xs : List Value, FaithfulAll xs → Value.AllHaveText xs
  | [], _ => trivial
  | x :: xs, ⟨hx, hxs⟩ => ⟨Faithful.hasText x hx, hasText_of_faithfulAll xs hxs⟩
  termination_by structural xs => xs

theorem hasText_of_faithfulEntries : ∀ es : List (Value × Value), FaithfulEntries es →
    Value.EntriesHaveText es
  | [], _ => trivial
  | (_, v) :: es, ⟨⟨_, hk⟩, hv, hes⟩ =>
    ⟨hk ▸ trivial, Faithful.hasText v hv, hasText_of_faithfulEntries es hes⟩
  termination_by structural es => es
end

end Taskboard.Json
