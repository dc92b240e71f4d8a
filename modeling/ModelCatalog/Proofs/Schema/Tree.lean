import ModelCatalog.Proofs.Outcome
import ModelCatalog.Schema.Expansion
import Mathlib.Logic.Relation

/-!
# The schemas inside a schema

A schema holds others: in the lists of compositions, in the mappings of properties, as the items of
an array, and as what it negates. `Everywhere p` says that a property holds of a schema and of all
schemas inside it, at any depth.

A pass treats each value as the node that it stands for once shorthand is resolved (`inFull`), and
treats the schemas in the keywords of that node in the same way. So a property of passes follows by
`induction_inFull`: it holds of a value if it holds of all schemas directly inside the node that the
value stands for.
-/

namespace ModelCatalog

open Outcome

namespace Schema

/-- The schemas in a value that stands under a keyword of the role. -/
def Role.schemas : Role → Json → List Json
  | .composite, .array parts => parts
  | .properties, .object fields => fields.map (·.2)
  | .items, .array parts => parts
  | .items, value => [value]
  | .negation, value => [value]
  | _, _ => []

theorem Role.schemas_items_of_ne_array {value : Json} (h : ∀ items, value ≠ .array items) :
    Role.items.schemas value = [value] := by
  unfold Role.schemas
  split <;> simp_all

/-- A schema holds another directly, in the value of a keyword. -/
def HasPart (schema part : Json) : Prop :=
  ∃ key value, schema.get? key = some value ∧ part ∈ (Role.of key).schemas value

/-- The property holds of a schema and of all schemas inside it. -/
def Everywhere (p : Json → Prop) (schema : Json) : Prop :=
  ∀ part, Relation.ReflTransGen HasPart schema part → p part

theorem everywhere_iff {p : Json → Prop} {schema : Json} :
    Everywhere p schema ↔ p schema ∧ ∀ part, HasPart schema part → Everywhere p part := by
  constructor
  · intro h
    exact ⟨h schema .refl, fun part hpart inner hinner ↦ h inner (.head hpart hinner)⟩
  · rintro ⟨hroot, hparts⟩ part hpart
    rcases Relation.ReflTransGen.cases_head hpart with rfl | ⟨first, hfirst, hrest⟩
    · exact hroot
    · exact hparts first hfirst part hrest

theorem everywhere_bool {p : Json → Prop} {value : Bool} :
    Everywhere p (.bool value) ↔ p (.bool value) := by
  refine everywhere_iff.trans (and_iff_left ?_)
  rintro part ⟨key, value, hvalue, -⟩
  simp [Json.get?] at hvalue

@[simp] theorem hasPart_nil {part : Json} : ¬HasPart (.object []) part := by
  rintro ⟨key, value, hvalue, -⟩
  simp at hvalue

@[simp] theorem hasPart_cons {key : String} {value : Json} {fields : Fields Json} (hkey : key ∉ fields.keys)
    {part : Json} : HasPart (.object ((key, value) :: fields)) part ↔
      part ∈ (Role.of key).schemas value ∨ HasPart (.object fields) part := by
  simp only [HasPart, Json.get?, Fields.get?_cons]
  constructor
  · rintro ⟨other, held, hheld, hpart⟩
    split at hheld
    · rename_i heq
      obtain rfl := Option.some.inj hheld
      exact .inl (heq ▸ hpart)
    · exact .inr ⟨other, held, hheld, hpart⟩
  · rintro (hpart | ⟨other, held, hheld, hpart⟩)
    · exact ⟨key, value, by simp, hpart⟩
    · have hne : key ≠ other := by
        rintro rfl
        simp [Fields.get?_eq_none_iff.2 hkey] at hheld
      exact ⟨other, held, by simpa [hne] using hheld, hpart⟩

/-! ## Nodes in full

A value stands for one node at most, and once this node is known a pass does not look at the value
again. -/

/-- The keywords of the node that a value stands for. A truth value is a schema without keywords,
and other values are no schemas. -/
@[simp] def inFull : Json → Option (Fields Json)
  | .string name => some (ofName name)
  | .array [] => none
  | .array [item] => some (listOf item)
  | .array items => some (listOf (.object (anyOf items)))
  | .object fields => some (if isExplicit fields then fields else closedObject fields)
  | _ => none

theorem isExplicit_anyOf (items : List Json) : isExplicit (anyOf items) := by
  simp [isExplicit, anyOf, compositeKeywords]

theorem inFull_of_isExplicit {fields : Fields Json} (h : isExplicit fields) :
    inFull (.object fields) = some fields := by
  simp [h]

theorem isExplicit_of_type {fields : Fields Json} {name : String}
    (h : fields.get? "type" = some (.string name)) : isExplicit fields := by
  simp [isExplicit, h, declaresType]

/-- The values that stand for a node, each with its node. -/
inductive StandsFor : Json → Fields Json → Prop
  | name (name : String) : StandsFor (.string name) (ofName name)
  | list (item : Json) : StandsFor (.array [item]) (listOf item)
  | alternatives (first second : Json) (rest : List Json) :
    StandsFor (.array (first :: second :: rest))
      (listOf (.object (anyOf (first :: second :: rest))))
  | explicit {fields : Fields Json} (h : isExplicit fields) : StandsFor (.object fields) fields
  | properties {fields : Fields Json} (h : ¬isExplicit fields) :
    StandsFor (.object fields) (closedObject fields)

theorem standsFor_of_inFull {v : Json} {fields : Fields Json} (h : inFull v = some fields) :
    StandsFor v fields := by
  unfold inFull at h
  split at h
  · obtain rfl := Option.some.inj h
    exact .name _
  · cases h
  · obtain rfl := Option.some.inj h
    exact .list _
  · rename_i items hempty hsingle
    obtain rfl := Option.some.inj h
    rcases items with _ | ⟨first, _ | ⟨second, rest⟩⟩
    · exact absurd rfl hempty
    · exact absurd rfl (hsingle first)
    · exact .alternatives first second rest
  · obtain rfl := Option.some.inj h
    split
    · exact .explicit ‹_›
    · exact .properties ‹_›
  · cases h

/-- The node that a value stands for is written without shorthand. -/
theorem isExplicit_of_inFull {v : Json} {fields : Fields Json} (h : inFull v = some fields) :
    isExplicit fields := by
  cases standsFor_of_inFull h with
  | explicit hexplicit => exact hexplicit
  | _ => exact isExplicit_of_type rfl

namespace Pass

/-- The outcome of a pass on the schemas in a value under a keyword of the role. -/
def onKeyword (pass : Pass) (place : String) : Role → Json → Except SchemaError Json
  | .composite, .array items => .array <$> pass.runNumbered place 0 items
  | .properties, .object fields => .object <$> pass.runProperties place fields
  | .items, .array items => .array <$> pass.runItems place items
  | .items, value => pass.run place value
  | .negation, value => pass.run place value
  | _, value => .ok value

variable {pass : Pass} {path : String}

theorem onKeyword_items_of_ne_array {value : Json} (h : ∀ items, value ≠ .array items) :
    pass.onKeyword path .items value = pass.run path value := by
  unfold onKeyword
  split <;> simp_all

theorem runKeywords_eq (fields : Fields Json) :
    pass.runKeywords path fields = fields.map fun entry ↦
      (entry.1, ⟨entry.2, pass.onKeyword (below path entry.1) (Role.of entry.1) entry.2⟩) := by
  induction fields with
  | nil => rw [runKeywords, List.map_nil]
  | cons entry fields ih =>
    obtain ⟨key, value⟩ := entry
    cases value <;> simp only [runKeywords, List.map_cons, ih] <;> cases Role.of key <;> rfl

theorem get?_runKeywords (fields : Fields Json) (key : String) :
    Fields.get? (pass.runKeywords path fields) key = (fields.get? key).map fun value ↦
      ⟨value, pass.onKeyword (below path key) (Role.of key) value⟩ := by
  rw [runKeywords_eq]
  induction fields with
  | nil => rfl
  | cons entry fields ih =>
    rw [List.map_cons, Fields.get?_cons, Fields.get?_cons, ih]
    split
    · rename_i hkey
      rw [← hkey]
      rfl
    · rfl

theorem keys_runKeywords (fields : Fields Json) :
    Fields.keys (pass.runKeywords path fields) = fields.keys := by
  rw [runKeywords_eq, Fields.keys, List.map_map]
  rfl

theorem mapValues_runKeywords (fields : Fields Json) :
    Fields.mapValues (·.written) (pass.runKeywords path fields) = fields := by
  rw [runKeywords_eq, Fields.mapValues, List.map_map]
  exact List.map_id fields

private theorem run_anyOf (items : List Json) :
    pass.run path (.object (anyOf items)) =
      pass.node [("anyOf", ⟨.array items,
        .array <$> pass.runNumbered (below path "anyOf") 0 items⟩)] := by
  rw [run, if_pos (isExplicit_anyOf items), runKeywords_eq]
  rfl

/-- A pass treats a value as the node that it stands for. -/
theorem run_of_inFull {v : Json} {fields : Fields Json} (h : inFull v = some fields) :
    pass.run path v = pass.node (pass.runKeywords path fields) := by
  cases standsFor_of_inFull h with
  | name name =>
    rw [run, runKeywords_eq]
    rfl
  | list item =>
    rw [runKeywords_eq]
    cases item <;> rw [run] <;> first | rfl | simp
  | alternatives first second rest =>
    -- the alternatives are a node of their own, written without shorthand
    have hitems : pass.onKeyword (below path "items") .items
        (.object (anyOf (first :: second :: rest))) = _ := run_anyOf (first :: second :: rest)
    have hrun : pass.run path (.array (first :: second :: rest)) = pass.listNode
        ⟨.object (anyOf (first :: second :: rest)), pass.onKeyword (below path "items") .items
          (.object (anyOf (first :: second :: rest)))⟩ := by
      rw [hitems, run] <;> simp
    rw [hrun, runKeywords_eq]
    rfl
  | explicit hexplicit => rw [run, if_pos hexplicit]
  | properties hexplicit =>
    rw [run, if_neg hexplicit, runKeywords_eq]
    rfl

theorem eq_bool_of_inFull {v out : Json} (h : inFull v = none) (hrun : pass.run path v = .ok out) :
    ∃ value, v = .bool value ∧ out = .bool value := by
  cases v with
  | bool value =>
    rw [run] at hrun
    exact ⟨value, rfl, (Except.ok.inj hrun).symm⟩
  | array items =>
    cases items with
    | nil => simp [run] at hrun
    | cons first rest => cases rest <;> simp at h
  | string name => simp at h
  | object fields => simp at h
  | _ => simp [run] at hrun

/-! ### Schema by schema -/

/-- The second schema is the outcome of a pass on the first, wherever that stands. -/
def Yields (pass : Pass) (schema out : Json) : Prop := ∃ path, pass.run path schema = .ok out

private theorem forall₂_runItems {items outs : List Json}
    (h : pass.runItems path items = .ok outs) :
    List.Forall₂ pass.Yields items outs := by
  induction items generalizing outs with
  | nil =>
    rw [runItems] at h
    obtain rfl := Except.ok.inj h
    exact .nil
  | cons item items ih =>
    rw [runItems] at h
    obtain ⟨out, hout, h⟩ := bind_eq_ok_iff.1 h
    obtain ⟨rest, hrest, h⟩ := bind_eq_ok_iff.1 h
    rw [← pure_eq_ok_iff.1 h]
    exact .cons ⟨path, hout⟩ (ih hrest)

private theorem forall₂_runNumbered {index : Nat} {items outs : List Json}
    (h : pass.runNumbered path index items = .ok outs) : List.Forall₂ pass.Yields items outs := by
  induction items generalizing index outs with
  | nil =>
    rw [runNumbered] at h
    obtain rfl := Except.ok.inj h
    exact .nil
  | cons item items ih =>
    rw [runNumbered] at h
    obtain ⟨out, hout, h⟩ := bind_eq_ok_iff.1 h
    obtain ⟨rest, hrest, h⟩ := bind_eq_ok_iff.1 h
    rw [← pure_eq_ok_iff.1 h]
    exact .cons ⟨_, hout⟩ (ih hrest)

theorem forall₂_runProperties {properties outs : Fields Json}
    (h : pass.runProperties path properties = .ok outs) :
    List.Forall₂ (fun property out ↦ property.1 = out.1 ∧ pass.Yields property.2 out.2)
      properties outs := by
  induction properties generalizing outs with
  | nil =>
    rw [runProperties] at h
    obtain rfl := Except.ok.inj h
    exact .nil
  | cons property properties ih =>
    rw [runProperties] at h
    obtain ⟨out, hout, h⟩ := bind_eq_ok_iff.1 h
    obtain ⟨rest, hrest, h⟩ := bind_eq_ok_iff.1 h
    rw [← pure_eq_ok_iff.1 h]
    exact .cons ⟨rfl, _, hout⟩ (ih hrest)

theorem Yields.ne_array (hnode : ∀ keywords out, pass.node keywords = .ok out → out.isObject)
    {schema out : Json} (h : pass.Yields schema out) (outs : List Json) : out ≠ .array outs := by
  obtain ⟨path, hrun⟩ := h
  rintro rfl
  cases hfull : inFull schema with
  | none =>
    obtain ⟨value, -, h⟩ := eq_bool_of_inFull hfull hrun
    cases h
  | some fields =>
    rw [run_of_inFull hfull] at hrun
    simpa [Json.isObject, Json.object?] using hnode _ _ hrun

/-- Below a keyword, a pass puts the outcomes of the schemas in their places. -/
theorem forall₂_onKeyword (hnode : ∀ keywords out, pass.node keywords = .ok out → out.isObject)
    {role : Role} {value out : Json} (h : pass.onKeyword path role value = .ok out) :
    List.Forall₂ pass.Yields (role.schemas value) (role.schemas out) := by
  unfold onKeyword at h
  split at h
  · obtain ⟨outs, houts, rfl⟩ := map_eq_ok_iff.1 h
    exact forall₂_runNumbered houts
  · obtain ⟨outs, houts, rfl⟩ := map_eq_ok_iff.1 h
    exact List.forall₂_map_left_iff.2 (List.forall₂_map_right_iff.2
      ((forall₂_runProperties houts).imp fun _ _ h ↦ h.2))
  · obtain ⟨outs, houts, rfl⟩ := map_eq_ok_iff.1 h
    exact forall₂_runItems houts
  · -- a single schema stays single, because no node becomes a list
    rename_i hvalue
    have hout : pass.Yields value out := ⟨path, h⟩
    rw [Role.schemas_items_of_ne_array hvalue,
      Role.schemas_items_of_ne_array (hout.ne_array hnode)]
    exact .cons hout .nil
  · exact .cons ⟨path, h⟩ .nil
  · obtain rfl := Except.ok.inj h
    have hschemas : role.schemas value = [] := by
      unfold Role.schemas
      split <;> simp_all
    rw [hschemas]
    exact .nil

end Pass

/-! ## Induction

The node that a value stands for may be greater than the value, but the schemas inside it are not:
they are parts of the value, so their size decreases. -/

theorem hasPart_listOf {items part : Json} :
    HasPart (.object (listOf items)) part ↔ part ∈ Role.items.schemas items := by
  simp [listOf, Role.of, compositeKeywords, Role.schemas]

private theorem hasPart_anyOf {items : List Json} {part : Json} :
    HasPart (.object (anyOf items)) part ↔ part ∈ items := by
  simp [anyOf, Role.of, compositeKeywords, Role.schemas]

theorem hasPart_closedObject {properties : Fields Json} {part : Json} :
    HasPart (.object (closedObject properties)) part ↔ part ∈ properties.map (·.2) := by
  simp [closedObject, Role.of, compositeKeywords, Role.schemas]

/-- A schema in the value of a keyword is no greater than the value. -/
theorem sizeOf_le_of_mem_schemas {role : Role} {value part : Json} (h : part ∈ role.schemas value) :
    sizeOf part ≤ sizeOf value := by
  unfold Role.schemas at h
  split at h
  · have hlt := List.sizeOf_lt_of_mem h
    simp only [Json.array.sizeOf_spec]
    omega
  · obtain ⟨⟨name, part⟩, hmem, rfl⟩ := List.mem_map.1 h
    have hlt := List.sizeOf_lt_of_mem hmem
    simp only [Prod.mk.sizeOf_spec, Json.object.sizeOf_spec] at hlt ⊢
    omega
  · have hlt := List.sizeOf_lt_of_mem h
    simp only [Json.array.sizeOf_spec]
    omega
  · exact Nat.le_of_eq (congrArg sizeOf (List.mem_singleton.1 h))
  · exact Nat.le_of_eq (congrArg sizeOf (List.mem_singleton.1 h))
  · simp at h

private theorem sizeOf_lt_of_hasPart {fields : Fields Json} {part : Json}
    (h : HasPart (.object fields) part) : sizeOf part < sizeOf (Json.object fields) := by
  obtain ⟨key, value, hvalue, hpart⟩ := h
  have hmem := List.sizeOf_lt_of_mem (Fields.mem_of_get? hvalue)
  have hle := sizeOf_le_of_mem_schemas hpart
  simp only [Prod.mk.sizeOf_spec, Json.object.sizeOf_spec] at hmem ⊢
  omega

/-- Induction over schemas, through the nodes that they stand for. -/
theorem induction_inFull {P : Json → Prop}
    (step : ∀ v, (∀ fields, inFull v = some fields →
      ∀ part, HasPart (.object fields) part → P part) → P v) (v : Json) : P v := by
  induction hn : sizeOf v using Nat.strongRecOn generalizing v with
  | ind n ih =>
    subst hn
    refine step v fun fields hfields part hpart ↦ ?_
    cases standsFor_of_inFull hfields with
    | name name => simp [ofName, Role.of, compositeKeywords, Role.schemas] at hpart
    | list item =>
      have hle := sizeOf_le_of_mem_schemas (hasPart_listOf.1 hpart)
      refine ih (sizeOf part) ?_ part rfl
      simp only [Json.array.sizeOf_spec, List.cons.sizeOf_spec]
      omega
    | alternatives first second rest =>
      -- the alternatives are wrapped, so the step is taken twice
      obtain rfl : part = .object (anyOf (first :: second :: rest)) := by
        simpa [Role.schemas] using hasPart_listOf.1 hpart
      refine step _ fun inner hinner item hitem ↦ ih (sizeOf item) ?_ item rfl
      obtain rfl : anyOf (first :: second :: rest) = inner := by
        simpa [isExplicit_anyOf] using hinner
      have hlt := List.sizeOf_lt_of_mem (hasPart_anyOf.1 hitem)
      simp only [Json.array.sizeOf_spec]
      omega
    | explicit => exact ih (sizeOf part) (sizeOf_lt_of_hasPart hpart) part rfl
    | properties =>
      obtain ⟨⟨name, part⟩, hentry, rfl⟩ := List.mem_map.1 (hasPart_closedObject.1 hpart)
      refine ih (sizeOf part) ?_ part rfl
      have hlt := List.sizeOf_lt_of_mem hentry
      simp only [Prod.mk.sizeOf_spec, Json.object.sizeOf_spec] at hlt ⊢
      omega

end Schema

end ModelCatalog
