import Taskboard.Sort.Stored

/-!
# Proofs/Filter/Spelling — saved definitions in older names

Some fields of saved rules and orders have an older name too.  A table of both (`Names`) says how to
rename the fields of a map that uses the newer names only; a field that is asked for by both names
is then found the same (`Names.firstField?_renamed`).  Rules and orders are nested, and each kind of
part has a table of its own: `Rule.older` and `olderOrder` rename the fields of all parts that are
read, and leave operands and all that is not read as they are.

* `Rule.ofStored_older` — a rule in older names is read the same, however malformed.
* `storedSort?_olderOrder` — so is an order.
* `definitions_in_older_names` — **both together.**
-/

namespace Taskboard

namespace Value

variable {key : String} {k v : Value} {es : List (Value × Value)}

theorem lookup?_cons_self : lookup? key ((.text key, v) :: es) = some v := if_pos rfl

theorem lookup?_cons_of_ne (h : k ≠ .text key) : lookup? key ((k, v) :: es) = lookup? key es := by
  cases k with
  | text name => exact if_neg fun hname => h (congrArg Value.text hname)
  | _ => rfl

end Value

/-! ## Names -/

/-- Names of fields, each with its older name. -/
abbrev Names := List (String × String)

namespace Names

/-- The older name of a field, or its name if it has no older one. -/
def older (names : Names) (name : String) : String := (entryAt? name names).getD name

/-- A key with its older name; a key that is no text names no field. -/
def olderKey (names : Names) : Value → Value
  | .text name => .text (names.older name)
  | k => k

/-- No entry is under the older name of a field. -/
def Unused (names : Names) (es : List (Value × Value)) : Prop :=
  ∀ e ∈ es, ∀ n ∈ names, e.1 ≠ .text n.2

/-- Each name stands once in a table, on one side. -/
structure Apart (names : Names) : Prop where
  newer : ∀ m ∈ names, ∀ n ∈ names, m.1 = n.1 → m = n
  older : ∀ m ∈ names, ∀ n ∈ names, m.2 = n.2 → m = n
  disjoint : ∀ m ∈ names, ∀ n ∈ names, m.1 ≠ n.2

variable {names : Names} {name key : String} {n : String × String} {k : Value}
  {es : List (Value × Value)}

theorem entryAt?_eq_none {es : Names} (h : entryAt? name es = none) : ∀ e ∈ es, e.1 ≠ name := by
  induction es with
  | nil => exact List.forall_mem_nil _
  | cons e es ih =>
    rw [entryAt?] at h
    split at h
    next => cases h
    next hne => exact List.forall_mem_cons.mpr ⟨hne, ih h⟩

/-- A name is in the table, or it stays. -/
theorem older_cases (names : Names) (name : String) :
    (name, names.older name) ∈ names ∨ names.older name = name ∧ ∀ n ∈ names, n.1 ≠ name := by
  unfold older
  cases h : entryAt? name names with
  | some s => exact .inl (mem_of_entryAt? h)
  | none => exact .inr ⟨rfl, entryAt?_eq_none h⟩

/-- Among keys that are no older names, only a field's own name turns into its older name. -/
theorem olderKey_eq_iff (h : names.Apart) (hn : n ∈ names) (hk : ∀ m ∈ names, k ≠ .text m.2) :
    names.olderKey k = .text n.2 ↔ k = .text n.1 := by
  cases k with
  | text name =>
    rw [olderKey, Value.text.injEq, Value.text.injEq]
    obtain hmem | ⟨hstays, hnot⟩ := older_cases names name
    · constructor
      · intro heq
        exact congrArg Prod.fst (h.older _ hmem n hn heq)
      · intro heq
        exact congrArg Prod.snd (h.newer _ hmem n hn heq)
    · rw [hstays]
      exact iff_of_false (fun heq => hk n hn (congrArg Value.text heq)) (hnot n hn).symm
  | _ => simp [olderKey]

/-- No key turns into the newer name of a field. -/
theorem olderKey_ne (h : names.Apart) (hn : n ∈ names) (k : Value) :
    names.olderKey k ≠ .text n.1 := by
  intro heq
  cases k with
  | text name =>
    have heq : names.older name = n.1 := Value.text.inj heq
    obtain hmem | ⟨hstays, hnot⟩ := older_cases names name
    · exact h.disjoint n hn _ hmem heq.symm
    · exact hnot n hn (heq.symm.trans hstays)
  | _ => cases heq

/-- A name on neither side of the table stays, and no other turns into it. -/
theorem olderKey_eq_self_iff (hkey : ∀ n ∈ names, n.1 ≠ key ∧ n.2 ≠ key) :
    names.olderKey k = .text key ↔ k = .text key := by
  cases k with
  | text name =>
    rw [olderKey, Value.text.injEq, Value.text.injEq]
    obtain hmem | ⟨hstays, -⟩ := older_cases names name
    · constructor
      · intro heq
        exact absurd heq (hkey _ hmem).2
      · intro heq
        exact absurd heq (hkey _ hmem).1
    · rw [hstays]
  | _ => simp [olderKey]

/-! ## Fields -/

/-- An entry under its older name, with a value that may have changed as well. -/
def renamed (names : Names) (f : Value → Value → Value) (e : Value × Value) : Value × Value :=
  (names.olderKey e.1, f e.1 e.2)

variable {f : Value → Value → Value}

/-- What is found under a key is what was under the only one that turns into it. -/
theorem lookup?_renamed {new : String}
    (h : ∀ e ∈ es, names.olderKey e.1 = .text new ↔ e.1 = .text key) :
    Value.lookup? new (es.map (names.renamed f)) = (Value.lookup? key es).map (f (.text key)) := by
  induction es with
  | nil => rfl
  | cons e es ih =>
    obtain ⟨k, v⟩ := e
    obtain ⟨hkey, hes⟩ := List.forall_mem_cons.mp h
    rw [List.map_cons, renamed]
    by_cases hk : k = .text key
    · rw [hkey.mpr hk, hk, Value.lookup?_cons_self, Value.lookup?_cons_self, Option.map_some]
    · rw [Value.lookup?_cons_of_ne (mt hkey.mp hk), Value.lookup?_cons_of_ne hk, ih hes]

/-- Nothing is found under a name that no key turns into. -/
theorem lookup?_renamed_eq_none {new : String} (h : ∀ k, names.olderKey k ≠ .text new) :
    Value.lookup? new (es.map (names.renamed f)) = none := by
  induction es with
  | nil => rfl
  | cons e es ih => rw [List.map_cons, renamed, Value.lookup?_cons_of_ne (h e.1), ih]

theorem lookup?_eq_none_of_unused (hes : names.Unused es) (hn : n ∈ names) :
    Value.lookup? n.2 es = none := by
  induction es with
  | nil => rfl
  | cons e es ih =>
    obtain ⟨he, hes⟩ := List.forall_mem_cons.mp hes
    rw [Value.lookup?_cons_of_ne (he n hn), ih hes]

/-- A field with two names is the newer one where the older name is unused. -/
theorem firstField?_of_unused (hes : names.Unused es) (hn : n ∈ names) :
    firstField? es [n.1, n.2] = Value.lookup? n.1 es := by
  simp only [firstField?, lookup?_eq_none_of_unused hes hn, Option.or_none]

/-- **It is found as well under its older name.** -/
theorem firstField?_renamed (h : names.Apart) (hes : names.Unused es) (hn : n ∈ names) :
    firstField? (es.map (names.renamed f)) [n.1, n.2] =
      (Value.lookup? n.1 es).map (f (.text n.1)) := by
  have hnewer : Value.lookup? n.1 (es.map (names.renamed f)) = none :=
    lookup?_renamed_eq_none (olderKey_ne h hn)
  have holder : Value.lookup? n.2 (es.map (names.renamed f)) =
      (Value.lookup? n.1 es).map (f (.text n.1)) :=
    lookup?_renamed fun e he => olderKey_eq_iff h hn (hes e he)
  simp only [firstField?, hnewer, holder, Option.none_or, Option.or_none]

/-- So is a field that has no older name. -/
theorem lookup?_renamed_self (hkey : ∀ n ∈ names, n.1 ≠ key ∧ n.2 ≠ key) :
    Value.lookup? key (es.map (names.renamed f)) = (Value.lookup? key es).map (f (.text key)) :=
  lookup?_renamed fun _ _ => olderKey_eq_self_iff hkey

end Names

/-! ## Parts -/

/-- The fields of a condition that have an older name. -/
def conditionNames : Names := [("attribute_key", "tagKey"), ("operand", "value")]

/-- The fields of a node of a rule that have an older name. -/
def nodeNames : Names := [("children", "expressions"), ("logical_operator", "logicalOperator")]

/-- The fields of a key of an order that have an older name. -/
def sortKeyNames : Names :=
  [("direction", "order"), ("custom_order", "customOrder"), ("attribute_key", "tagKey")]

/-- The field of an order that has an older name. -/
def orderNames : Names := [("keys", "sortKeys")]

theorem apart_conditionNames : conditionNames.Apart := ⟨by decide, by decide, by decide⟩

theorem apart_nodeNames : nodeNames.Apart := ⟨by decide, by decide, by decide⟩

theorem apart_sortKeyNames : sortKeyNames.Apart := ⟨by decide, by decide, by decide⟩

theorem apart_orderNames : orderNames.Apart := ⟨by decide, by decide, by decide⟩

/-- The fields of a map under their older names. -/
def olderFields (names : Names) : Value → Value
  | .map es => .map (es.map (names.renamed fun _ v => v))
  | v => v

/-- A map has no field under an older name. -/
def NewlyNamed (names : Names) : Value → Prop
  | .map es => names.Unused es
  | _ => True

namespace Names

variable {names : Names} {n : String × String} {es : List (Value × Value)}

/-- A field is the same under its older name if its value stays. -/
theorem firstField?_renamed_id (h : names.Apart) (hes : names.Unused es) (hn : n ∈ names) :
    firstField? (es.map (names.renamed fun _ v => v)) [n.1, n.2] =
      firstField? es [n.1, n.2] := by
  rw [firstField?_renamed h hes hn, firstField?_of_unused hes hn, Option.map_id']

theorem fieldText_renamed (h : names.Apart) (hes : names.Unused es) (hn : n ∈ names)
    (missing : String) :
    fieldText (es.map (names.renamed fun _ v => v)) [n.1, n.2] missing =
      fieldText es [n.1, n.2] missing := by
  rw [fieldText, fieldText, firstField?_renamed_id h hes hn]

theorem fieldText_renamed_self {key : String} (hkey : ∀ n ∈ names, n.1 ≠ key ∧ n.2 ≠ key)
    (es : List (Value × Value)) (missing : String) :
    fieldText (es.map (names.renamed fun _ v => v)) [key] missing =
      fieldText es [key] missing := by
  simp only [fieldText, firstField?, lookup?_renamed_self hkey, Option.map_id']

end Names

open Names

/-- **A condition in older names is read the same.** -/
theorem Condition.ofEntries_renamed {es : List (Value × Value)} (hes : conditionNames.Unused es) :
    Condition.ofEntries (es.map (conditionNames.renamed fun _ v => v)) =
      Condition.ofEntries es := by
  have hkey := fieldText_renamed apart_conditionNames hes
    (by simp [conditionNames] : ("attribute_key", "tagKey") ∈ conditionNames) ""
  have hoperator := fieldText_renamed_self
    (by decide : ∀ n ∈ conditionNames, n.1 ≠ "operator" ∧ n.2 ≠ "operator") es "=="
  have hoperand := firstField?_renamed_id apart_conditionNames hes
    (by simp [conditionNames] : ("operand", "value") ∈ conditionNames)
  rw [Condition.ofEntries, Condition.ofEntries, hkey, hoperator, hoperand]

/-! ## Rules -/

namespace Rule

mutual
/-- **A saved rule in older names**, with the rules and conditions that are nested in it. -/
def older : Value → Value
  | .map es => .map (olderNode es)
  | v => v
  termination_by structural v => v

/-- The fields of a node in older names. -/
def olderNode : List (Value × Value) → List (Value × Value)
  | [] => []
  | (k, v) :: es => (nodeNames.olderKey k, olderPart k v) :: olderNode es
  termination_by structural es => es

/-- The value of a node's field with what is nested in it in older names. -/
def olderPart (k : Value) : Value → Value
  | .list cs =>
    match k with
    | .text "children" => .list (olderAll cs)
    | _ => .list cs
  | .map es =>
    match k with
    | .text "condition" => olderFields conditionNames (.map es)
    | _ => .map es
  | v => v
  termination_by structural v => v

/-- The rules of a list in older names. -/
def olderAll : List Value → List Value
  | [] => []
  | c :: cs => older c :: olderAll cs
  termination_by structural cs => cs
end

mutual
/-- **A saved rule that uses the newer names only**, at every depth. -/
def IsNewlyNamed : Value → Prop
  | .map es => nodeNames.Unused es ∧ PartsNewlyNamed es
  | _ => True
  termination_by structural v => v

/-- What is nested in the fields of a node uses the newer names only. -/
def PartsNewlyNamed : List (Value × Value) → Prop
  | [] => True
  | (k, v) :: es => PartNewlyNamed k v ∧ PartsNewlyNamed es
  termination_by structural es => es

/-- What is nested in a field of a node uses the newer names only. -/
def PartNewlyNamed (k : Value) : Value → Prop
  | .list cs => k = .text "children" → AllNewlyNamed cs
  | .map es => k = .text "condition" → conditionNames.Unused es
  | _ => True
  termination_by structural v => v

/-- The rules of a list use the newer names only. -/
def AllNewlyNamed : List Value → Prop
  | [] => True
  | c :: cs => IsNewlyNamed c ∧ AllNewlyNamed cs
  termination_by structural cs => cs
end

variable {k v : Value} {es : List (Value × Value)} {cs : List Value}

theorem olderNode_eq_map (es : List (Value × Value)) :
    olderNode es = es.map (nodeNames.renamed olderPart) := by
  induction es with
  | nil => rfl
  | cons e es ih => rw [olderNode, ih, List.map_cons, renamed]

theorem PartsNewlyNamed.lookup {key : String} (h : PartsNewlyNamed es)
    (hv : Value.lookup? key es = some v) : PartNewlyNamed (.text key) v := by
  induction es with
  | nil => cases hv
  | cons e es ih =>
    obtain ⟨k, w⟩ := e
    rw [PartsNewlyNamed] at h
    by_cases hk : k = .text key
    · rw [hk, Value.lookup?_cons_self] at hv
      exact Option.some.inj hv ▸ hk ▸ h.1
    · exact ih h.2 (Value.lookup?_cons_of_ne hk ▸ hv)

theorem storedChildren_eq_lookup (newer : Bool) (es : List (Value × Value)) :
    storedChildren newer es =
      match Value.lookup? (if newer then "children" else "expressions") es with
      | some (.list cs) => rulesOf cs
      | _ => .ok [] := by
  induction es with
  | nil => rfl
  | cons e es ih =>
    obtain ⟨k, v⟩ := e
    cases k with
    | text name =>
      by_cases hname : name = (if newer then "children" else "expressions")
      · cases v <;> simp only [storedChildren, Value.lookup?, if_pos hname]
      · cases v <;> simp only [storedChildren, Value.lookup?, if_neg hname, ih]
    | _ => exact ih

/-- The children of a node are those of the first list under one of both names. -/
theorem storedChildren_eq (es : List (Value × Value)) :
    storedChildren (hasNewChildren es) es =
      match firstField? es ["children", "expressions"] with
      | some (.list cs) => rulesOf cs
      | _ => .ok [] := by
  rw [storedChildren_eq_lookup, hasNewChildren]
  cases h : Value.lookup? "children" es with
  | none => simp [firstField?, h]
  | some v => simp [firstField?, h]

theorem storedCondition_olderNode (h : PartsNewlyNamed es) :
    storedCondition (olderNode es) = storedCondition es := by
  rw [storedCondition, storedCondition, olderNode_eq_map, lookup?_renamed_self (by decide)]
  cases hv : Value.lookup? "condition" es with
  | none => rfl
  | some v =>
    have hpart := h.lookup hv
    cases v with
    | map fields =>
      rw [PartNewlyNamed] at hpart
      exact congrArg (Except.map some) (Condition.ofEntries_renamed (hpart rfl))
    | _ => rfl

theorem storedLogical_olderNode (h : nodeNames.Unused es) :
    storedLogical (olderNode es) = storedLogical es := by
  have hmem : ("logical_operator", "logicalOperator") ∈ nodeNames := by simp [nodeNames]
  rw [storedLogical, storedLogical, olderNode_eq_map, firstField?_renamed apart_nodeNames h hmem,
    firstField?_of_unused h hmem]
  cases Value.lookup? "logical_operator" es with
  | none => rfl
  | some v => cases v <;> rfl

/-- The rules in the list of a node's children are read the same in older names. -/
def ChildrenKept (es : List (Value × Value)) : Prop :=
  ∀ cs, Value.lookup? "children" es = some (.list cs) → rulesOf (olderAll cs) = rulesOf cs

theorem storedChildren_olderNode (h : nodeNames.Unused es) (hcs : ChildrenKept es) :
    storedChildren (hasNewChildren (olderNode es)) (olderNode es) =
      storedChildren (hasNewChildren es) es := by
  have hmem : ("children", "expressions") ∈ nodeNames := by simp [nodeNames]
  rw [storedChildren_eq, storedChildren_eq, olderNode_eq_map,
    firstField?_renamed apart_nodeNames h hmem, firstField?_of_unused h hmem]
  cases hv : Value.lookup? "children" es with
  | none => rfl
  | some v =>
    cases v with
    | list cs => exact hcs cs hv
    | _ => rfl

/-- A node in older names is read the same if its children are. -/
theorem ofStored_olderNode (hunused : nodeNames.Unused es) (hparts : PartsNewlyNamed es)
    (hcs : ChildrenKept es) : ofStored (.map (olderNode es)) = ofStored (.map es) := by
  have hchildren := storedChildren_olderNode hunused hcs
  have hcondition := storedCondition_olderNode hparts
  have hlogical := storedLogical_olderNode hunused
  cases es with
  | nil => rfl
  | cons e es =>
    rw [olderNode] at hchildren hcondition hlogical ⊢
    rw [ofStored, ofStored, hchildren, hcondition, hlogical]

mutual
/-- **A rule in older names is read the same.** -/
theorem ofStored_older (v : Value) (h : IsNewlyNamed v) : ofStored (older v) = ofStored v := by
  cases v with
  | map es =>
    rw [IsNewlyNamed] at h
    rw [older]
    exact ofStored_olderNode h.1 h.2 (rulesOf_olderChildren es h.2)
  | _ => rfl
  termination_by structural v

theorem rulesOf_olderChildren (es : List (Value × Value)) (h : PartsNewlyNamed es) (cs : List Value)
    (hcs : Value.lookup? "children" es = some (.list cs)) : rulesOf (olderAll cs) = rulesOf cs := by
  cases es with
  | nil => cases hcs
  | cons e es =>
    obtain ⟨k, v⟩ := e
    rw [PartsNewlyNamed] at h
    by_cases hk : k = .text "children"
    · rw [hk, Value.lookup?_cons_self] at hcs
      exact rulesOf_olderPart k v h.1 hk cs (Option.some.inj hcs)
    · exact rulesOf_olderChildren es h.2 cs (Value.lookup?_cons_of_ne hk ▸ hcs)
  termination_by structural es

theorem rulesOf_olderPart (k v : Value) (h : PartNewlyNamed k v) (hk : k = .text "children")
    (cs : List Value) (hcs : v = .list cs) : rulesOf (olderAll cs) = rulesOf cs := by
  cases v with
  | list ds =>
    rw [PartNewlyNamed] at h
    exact Value.list.inj hcs ▸ rulesOf_olderAll ds (h hk)
  | _ => cases hcs
  termination_by structural v

theorem rulesOf_olderAll (cs : List Value) (h : AllNewlyNamed cs) :
    rulesOf (olderAll cs) = rulesOf cs := by
  cases cs with
  | nil => rfl
  | cons c cs =>
    rw [AllNewlyNamed] at h
    rw [olderAll, rulesOf, rulesOf, ofStored_older c h.1, rulesOf_olderAll cs h.2]
  termination_by structural cs
end

/-- The operand keeps its fields, whatever they are called. -/
example :
    older (.object [("logical_operator", .text "NOT"), ("children", .list [
        .object [("condition", .object [("attribute_key", .text "owner"),
          ("operand", .object [("operand", .int 1)])])]])]) =
      .object [("logicalOperator", .text "NOT"), ("expressions", .list [
        .object [("condition", .object [("tagKey", .text "owner"),
          ("value", .object [("operand", .int 1)])])]])] := rfl

end Rule

/-! ## Orders -/

/-- The value of an order's field with the keys that are listed in it in older names. -/
def olderKeys : Value → Value → Value
  | .text "keys", .list vs => .list (vs.map (olderFields sortKeyNames))
  | _, v => v

/-- **A saved order in older names**, with its keys. -/
def olderOrder : Value → Value
  | .map es => .map (es.map (orderNames.renamed olderKeys))
  | v => v

/-- **A saved order that uses the newer names only**, also in its keys. -/
def OrderNewlyNamed : Value → Prop
  | .map es => orderNames.Unused es ∧
      ∀ vs, Value.lookup? "keys" es = some (.list vs) → ∀ v ∈ vs, NewlyNamed sortKeyNames v
  | _ => True

/-- **A key in older names is read the same.** -/
theorem SortKey.ofEntries_renamed {es : List (Value × Value)} (hes : sortKeyNames.Unused es) :
    SortKey.ofEntries (es.map (sortKeyNames.renamed fun _ v => v)) = SortKey.ofEntries es := by
  have hdirection := fieldText_renamed apart_sortKeyNames hes
    (by simp [sortKeyNames] : ("direction", "order") ∈ sortKeyNames) "asc"
  have hkey := fieldText_renamed apart_sortKeyNames hes
    (by simp [sortKeyNames] : ("attribute_key", "tagKey") ∈ sortKeyNames) ""
  have hranking := firstField?_renamed_id apart_sortKeyNames hes
    (by simp [sortKeyNames] : ("custom_order", "customOrder") ∈ sortKeyNames)
  rw [SortKey.ofEntries, SortKey.ofEntries, hdirection, hkey, hranking]

theorem sortKeysOf_map_olderFields {vs : List Value} (h : ∀ v ∈ vs, NewlyNamed sortKeyNames v) :
    sortKeysOf (vs.map (olderFields sortKeyNames)) = sortKeysOf vs := by
  induction vs with
  | nil => rfl
  | cons v vs ih =>
    obtain ⟨hv, hvs⟩ := List.forall_mem_cons.mp h
    rw [List.map_cons]
    cases v with
    | map es => rw [olderFields, sortKeysOf, sortKeysOf, SortKey.ofEntries_renamed hv, ih hvs]
    | _ => exact ih hvs

theorem storedSort?_cons (e : Value × Value) (es : List (Value × Value)) :
    storedSort? (.map (e :: es)) =
      match firstField? (e :: es) ["keys", "sortKeys"] with
      | some (.list vs) => (sortKeysOf vs).map some
      | _ => .ok (some []) := rfl

/-- **An order in older names is read the same.** -/
theorem storedSort?_olderOrder {v : Value} (h : OrderNewlyNamed v) :
    storedSort? (olderOrder v) = storedSort? v := by
  cases v with
  | map es =>
    obtain ⟨hunused, hkeys⟩ := h
    have hmem : ("keys", "sortKeys") ∈ orderNames := by simp [orderNames]
    cases es with
    | nil => rfl
    | cons e es =>
      rw [olderOrder, List.map_cons, storedSort?_cons, storedSort?_cons, ← List.map_cons,
        firstField?_renamed apart_orderNames hunused hmem, firstField?_of_unused hunused hmem]
      cases hv : Value.lookup? "keys" (e :: es) with
      | none => rfl
      | some v =>
        cases v with
        | list vs => exact congrArg (Except.map some) (sortKeysOf_map_olderFields (hkeys vs hv))
        | _ => rfl
  | _ => rfl

/-! ## Rules and orders -/

/-- **Saved definitions in older names are read the same as in newer ones.** -/
theorem definitions_in_older_names {rule order : Value} (hrule : Rule.IsNewlyNamed rule)
    (horder : OrderNewlyNamed order) :
    Rule.ofStored (Rule.older rule) = Rule.ofStored rule ∧
      storedSort? (olderOrder order) = storedSort? order :=
  ⟨Rule.ofStored_older rule hrule, storedSort?_olderOrder horder⟩

/-- A rule that is nested in lists with members that are no rules, with an operand that names a
field like one of a condition, and an order with a key that is no map. -/
theorem definitions_in_older_names_nested :
    let condition (key : String) (operand : Value) : Value :=
      .object [("condition", .object [("attribute_key", .text key), ("operand", operand)])]
    let rule := .object [("logical_operator", .text "or"),
      ("children", .list [condition "status" (.object [("value", .int 1)]), .null,
        .object [("children", .list [condition "owner" (.text "ann")]),
          ("logical_operator", .text "NOT")]])]
    let order := .object [("keys", .list [.object [("attribute_key", .text "due"),
      ("direction", .text "DESC"), ("custom_order", .list [.int 1])], .int 2])]
    Rule.ofStored (Rule.older rule) = Rule.ofStored rule ∧
      storedSort? (olderOrder order) = storedSort? order :=
  definitions_in_older_names
    (by simp [Value.object, Rule.IsNewlyNamed, Rule.PartsNewlyNamed, Rule.PartNewlyNamed,
      Rule.AllNewlyNamed, Unused, nodeNames, conditionNames])
    (by
      simp [Value.object, OrderNewlyNamed, NewlyNamed, Unused, orderNames, sortKeyNames,
        Value.lookup?]
      rintro k v (⟨rfl, -⟩ | ⟨rfl, -⟩ | ⟨rfl, -⟩) <;> simp)

end Taskboard
