import ModelCatalog.Definition.Basic
import ModelCatalog.Proofs.Json.Distinct
import ModelCatalog.Proofs.Outcome

/-!
# Definitions read back

A definition that is written to a document is read back from it as it was, and so are lists of
definitions, in each of the three forms of a document of models.

## The conditions

No mapping inside may name a key twice, and nothing may be written like something else: the other
keys of a relation must be none of the declared ones, and a scope must have no condition or order
that is `null`, since that would be taken for its absence. Both conditions are necessary, because
every definition that was read from a document meets them (`ModelDefinition.ofJson?_toJson_iff`).

## Part by part

Every part is taken on its own: what is written for it is read back by its own reader, in all its
shapes, and is not `null`, which stands for its absence. A record is then read back field by field.
-/

namespace ModelCatalog

open Outcome Record

/-! ## Fields

A part is written in one of three ways: always, unless it is the default, or if it is there. Each
way has its own reader, and the entry that is written is found under its key. -/

namespace Record

variable {α : Type} {fields : Fields Json}

private theorem field?_singleton (h : fields.Distinct) (name : String) :
    field? [name] fields = some (fields.get? name) := by
  have hfilter : fields.filter (·.1 ∈ [name]) = (fields.get? name).toList.map (name, ·) := by
    induction fields with
    | nil => rfl
    | cons entry rest ih =>
      obtain ⟨key, value⟩ := entry
      rw [Fields.Distinct, Fields.keys, List.map_cons, List.nodup_cons] at h
      rw [Fields.get?_cons, List.filter_cons, ih h.2]
      by_cases hkey : key = name
      · subst hkey
        have hrest : Fields.get? rest key = none := Fields.get?_eq_none_iff.2 h.1
        simp [hrest]
      · simp [hkey]
  rw [field?, hfilter]
  cases fields.get? name <;> rfl

variable {names : List String} {read : Json → Option α}

theorem required?_eq_some {value : Json} {a : α} (hfield : field? names fields = some (some value))
    (hread : read value = some a) : required? names read fields = some a := by
  simp [required?, hfield, hread]

theorem defaulted?_eq_some {default a : α} {value : Json}
    (hfield : field? names fields = some (some value)) (hread : read value = some a) :
    defaulted? names default read fields = some a := by
  simp [defaulted?, hfield, hread]

/-- An optional part is read back where the part itself is, unless that is written as `null`. -/
theorem optional?_eq_some {write : α → Json} {part : Option α}
    (hfield : field? names fields = some (some (.orNull write part)))
    (hread : ∀ a ∈ part, read (write a) = some a) (hnull : ∀ a, write a ≠ .null) :
    optional? names read fields = some part := by
  rcases part with - | a
  · simp [optional?, hfield, Json.orNull, Json.ofOption]
  · have hwritten : field? names fields = some (some (write a)) := hfield
    rw [optional?, hwritten]
    simp only [Option.bind_eq_bind, Option.bind_some]
    split
    · contradiction
    · rename_i hvalue
      exact absurd (Option.some.inj hvalue) (hnull a)
    · rename_i value hvalue
      rw [← Option.some.inj hvalue, hread a rfl]
      rfl

private theorem required?_string {value : String}
    (hfield : field? names fields = some (some (.string value))) :
    required? names Json.string? fields = some value :=
  required?_eq_some hfield rfl

private theorem defaulted?_bool {default value : Bool}
    (hfield : field? names fields = some (some (.bool value))) :
    defaulted? names default bool? fields = some value :=
  defaulted?_eq_some hfield rfl

private theorem optional?_string {part : Option String}
    (hfield : field? names fields = some (some (.orNull .string part))) :
    optional? names Json.string? fields = some part :=
  optional?_eq_some hfield (fun _ _ ↦ rfl) (by simp)

theorem rest_append {declared : List String} {own rest : Fields Json} (hown : own.keys = declared)
    (hrest : ∀ key ∈ rest.keys, key ∉ declared) (h : (Json.object rest).Distinct) :
    Record.rest declared (own ++ rest) = rest := by
  obtain ⟨hkeys, hvalues⟩ := Json.distinct_object_iff.1 h
  have hfilter : (own ++ rest).filter (·.1 ∉ declared) = rest := by
    rw [List.filter_append, List.filter_eq_nil_iff.2, List.nil_append, List.filter_eq_self.2]
    · intro entry hentry
      simpa using hrest _ (List.mem_map_of_mem hentry)
    · intro entry hentry
      have hkey : entry.1 ∈ own.keys := List.mem_map_of_mem hentry
      simpa [← hown] using hkey
  have hmap : rest.map (fun entry ↦ (entry.1, entry.2.merged)) = rest := by
    refine (List.map_congr_left ?_).trans (List.map_id rest)
    rintro ⟨key, value⟩ hentry
    have hvalue : value.merged = value := Json.merged_eq_self (hvalues _ hentry)
    simp [hvalue]
  have hcollected : Record.rest declared (own ++ rest) = Fields.ofList
      (((own ++ rest).filter (·.1 ∉ declared)).map fun entry ↦ (entry.1, entry.2.merged)) := rfl
  rw [hcollected, hfilter, hmap, Fields.ofList_eq_self hkeys]

theorem strings?_strings (values : List String) : strings? (Json.strings values) = some values := by
  have hread : (values.map Json.string).mapM Json.string? = some values := by
    rw [mapM_eq_some_iff, List.forall₂_map_left_iff, List.forall₂_same]
    exact fun _ _ ↦ rfl
  exact hread

private theorem list?_map {read : Json → Option α} {write : α → Json} {items : List α}
    (h : ∀ a ∈ items, read (write a) = some a) :
    list? read (.array (items.map write)) = some items := by
  have hread : (items.map write).mapM read = some items := by
    rwa [mapM_eq_some_iff, List.forall₂_map_left_iff, List.forall₂_same]
  exact hread

theorem mapping?_mapValues {read : Json → Option α} {write : α → Json} {values : Fields α}
    (hkeys : values.Distinct) (h : ∀ entry ∈ values, read (write entry.2) = some entry.2) :
    mapping? read (.object (values.mapValues write)) = some values := by
  have hread : (values.mapValues write).mapM
      (fun entry ↦ (read entry.2).map (entry.1, ·)) = some values := by
    rw [Fields.mapValues, mapM_eq_some_iff, List.forall₂_map_left_iff, List.forall₂_same]
    exact fun entry hentry ↦ by simp [h entry hentry]
  have hmapping : mapping? read (.object (values.mapValues write)) =
      ((values.mapValues write).mapM fun entry ↦ (read entry.2).map (entry.1, ·)).bind
        fun entries ↦ some (Fields.ofList entries) := rfl
  rw [hmapping, hread, Option.bind_some, Fields.ofList_eq_self hkeys]

theorem any?_eq_self {value : Json} (h : value.Distinct) : any? value = some value := by
  rw [any?, Json.merged_eq_self h]

private theorem optional?_any? {part : Option Json} (hfield : field? names fields = some part)
    (hdistinct : ∀ v ∈ part, v.Distinct) (hnull : part ≠ some .null) :
    optional? names any? fields = some part := by
  rw [optional?, hfield]
  simp only [Option.bind_eq_bind, Option.bind_some]
  split
  · rfl
  · exact absurd rfl hnull
  · rw [any?_eq_self (hdistinct _ rfl)]
    rfl

private theorem mapping?_any? {values : Fields Json} (h : (Json.object values).Distinct) :
    mapping? any? (.object values) = some values := by
  obtain ⟨hkeys, hvalues⟩ := Json.distinct_object_iff.1 h
  have hread : mapping? any? (.object (values.mapValues id)) = some values :=
    mapping?_mapValues hkeys fun entry hentry ↦ any?_eq_self (hvalues entry hentry)
  have hself : values.mapValues id = values := List.map_id values
  rwa [hself] at hread

/-! ### What can be read

Conversely, whatever a reader returns meets the conditions under which it is read back. -/

theorem ne_null_of_optional? {a : α} (h : optional? names read fields = some (some a)) :
    ∃ value, value ≠ .null ∧ read value = some a := by
  obtain ⟨found, -, hfound⟩ := Option.bind_eq_some_iff.1 h
  split at hfound
  · simp at hfound
  · simp at hfound
  · rename_i value hnull
    obtain ⟨b, hread, hb⟩ := Option.bind_eq_some_iff.1 hfound
    obtain rfl : b = a := by simpa using hb
    exact ⟨value, fun h ↦ hnull (h ▸ rfl), hread⟩

private theorem eq_default_or_of_defaulted? {default a : α}
    (h : defaulted? names default read fields = some a) :
    a = default ∨ ∃ value, read value = some a := by
  obtain ⟨found, -, hfound⟩ := Option.bind_eq_some_iff.1 h
  split at hfound
  · exact .inl (by simpa using hfound.symm)
  · exact .inr ⟨_, hfound⟩

theorem distinct_of_mapping? {value : Json} {values : Fields α}
    (h : mapping? read value = some values) :
    values.Distinct ∧ ∀ entry ∈ values, ∃ written, read written = some entry.2 := by
  obtain ⟨fields, -, h⟩ := Option.bind_eq_some_iff.1 h
  obtain ⟨entries, hentries, h⟩ := Option.bind_eq_some_iff.1 h
  obtain rfl : Fields.ofList entries = values := by simpa using h
  refine ⟨Fields.distinct_ofList _, fun entry hentry ↦ ?_⟩
  obtain ⟨⟨key, written⟩, -, hread⟩ := exists_left_of_forall₂ (mapM_eq_some_iff.1 hentries)
    (Fields.mem_of_mem_ofList hentry)
  obtain ⟨a, ha, rfl⟩ := Option.map_eq_some_iff.1 hread
  exact ⟨written, ha⟩

theorem distinct_of_any? {value v : Json} (h : any? value = some v) : v.Distinct :=
  Option.some.inj h ▸ Json.distinct_merged value

private theorem ne_null_of_any? {value v : Json} (hnull : value ≠ .null) (h : any? value = some v) :
    v ≠ .null := by
  obtain rfl : value.merged = v := Option.some.inj h
  rcases value <;> simp [Json.merged] at hnull ⊢

private theorem distinct_of_mapping?_any? {value : Json} {values : Fields Json}
    (h : mapping? any? value = some values) : (Json.object values).Distinct := by
  obtain ⟨hkeys, hvalues⟩ := distinct_of_mapping? h
  refine Json.distinct_object_iff.2 ⟨hkeys, fun entry hentry ↦ ?_⟩
  obtain ⟨written, hread⟩ := hvalues entry hentry
  exact distinct_of_any? hread

private theorem distinct_rest (declared : List String) (fields : Fields Json) :
    (Json.object (Record.rest declared fields)).Distinct := by
  refine Json.distinct_object_iff.2 ⟨Fields.distinct_ofList _, fun entry hentry ↦ ?_⟩
  obtain ⟨written, -, rfl⟩ := List.mem_map.1 (Fields.mem_of_mem_ofList hentry)
  exact Json.distinct_merged _

private theorem notMem_of_mem_rest {declared : List String} {key : String}
    (h : key ∈ (Record.rest declared fields).keys) : key ∉ declared := by
  obtain ⟨entry, hentry, rfl⟩ := List.mem_map.1 h
  obtain ⟨written, hwritten, rfl⟩ := List.mem_map.1 (Fields.mem_of_mem_ofList hentry)
  simpa using (List.mem_filter.1 hwritten).2

end Record

/-! ## Keys, joins and narrowings -/

namespace Key

theorem ofJson?_toJson (key : Key) : ofJson? key.toJson = some key := by
  rcases key with token | tokens
  · rfl
  · have hread : strings? (.array (tokens.map .string)) = some tokens :=
      strings?_strings tokens
    simp [toJson, Json.strings, ofJson?, hread]

private theorem toJson_ne_null (key : Key) : key.toJson ≠ .null := by
  rcases key with token | tokens <;> simp [toJson, Json.strings]

theorem optional?_toJson {names : List String} {fields : Fields Json} {part : Option Key}
    (hfield : field? names fields = some (some (.orNull toJson part))) :
    optional? names ofJson? fields = some part :=
  optional?_eq_some hfield (fun key _ ↦ key.ofJson?_toJson) toJson_ne_null

end Key

namespace ThroughDefinition

theorem ofJson?_toJson (d : ThroughDefinition) : ofJson? d.toJson = some d := by
  rcases d with requested | ⟨source, target, model⟩
  · rfl
  · simp only [toJson, ofJson?, Json.object?, Option.bind_eq_bind, Option.bind_some]
    rw [Key.optional?_toJson rfl, Key.optional?_toJson rfl, optional?_string rfl]
    rfl

private theorem toJson_ne_null (d : ThroughDefinition) : d.toJson ≠ .null := by
  rcases d with requested | ⟨source, target, model⟩ <;> simp [toJson]

theorem optional?_toJson {names : List String} {fields : Fields Json}
    {part : Option ThroughDefinition}
    (hfield : field? names fields = some (some (.orNull toJson part))) :
    optional? names ofJson? fields = some part :=
  optional?_eq_some hfield (fun t _ ↦ t.ofJson?_toJson) toJson_ne_null

end ThroughDefinition

namespace JoinDefinition

theorem ofJson?_toJson (d : JoinDefinition) : ofJson? d.toJson = some d := by
  simp only [toJson, ofJson?, named?, Option.bind_eq_bind, Option.bind_some]
  rw [required?_eq_some rfl d.source.ofJson?_toJson,
    required?_eq_some rfl d.target.ofJson?_toJson, ThroughDefinition.optional?_toJson rfl]
  rfl

private theorem toJson_ne_null (d : JoinDefinition) : d.toJson ≠ .null := by simp [toJson]

end JoinDefinition

namespace ModifierDefinition

def Distinct : ModifierDefinition → Prop
  | .filter conditions => (Json.object conditions).Distinct
  | _ => True

theorem ofJson?_toJson {d : ModifierDefinition} (h : d.Distinct) : ofJson? d.toJson = some d := by
  rcases d with name | names | conditions
  · rfl
  · have hread : (names.map Json.string).mapM Json.string? = some names := strings?_strings names
    simp [toJson, Json.strings, ofJson?, hread]
  · simp [toJson, ofJson?, mapping?_any? h]

private theorem distinct_of_ofJson? {value : Json} {d : ModifierDefinition}
    (h : ofJson? value = some d) :
    d.Distinct := by
  rcases value with _ | _ | _ | name | items | fields <;> simp only [ofJson?] at h <;>
    try contradiction
  · obtain rfl := Option.some.inj h
    trivial
  · obtain ⟨names, -, rfl⟩ := Option.map_eq_some_iff.1 h
    trivial
  · obtain ⟨conditions, hread, rfl⟩ := Option.map_eq_some_iff.1 h
    exact distinct_of_mapping?_any? hread

private theorem toJson_ne_null (d : ModifierDefinition) : d.toJson ≠ .null := by
  rcases d with name | names | conditions <;> simp [toJson, Json.strings]

private theorem optional?_toJson {names : List String} {fields : Fields Json}
    {part : Option ModifierDefinition}
    (hfield : field? names fields = some (some (.orNull toJson part)))
    (h : ∀ m ∈ part, m.Distinct) : optional? names ofJson? fields = some part :=
  optional?_eq_some hfield (fun m hm ↦ ofJson?_toJson (h m hm)) toJson_ne_null

end ModifierDefinition

/-! ## Relations

The declared keys of a relation are written in front of the others. So a declared key is found where
it was written, and what is left when the declared keys are taken away are the others. -/

namespace RelationDefinition

structure Distinct (d : RelationDefinition) : Prop where
  scope : ∀ m ∈ d.scope, m.Distinct
  modify : ∀ m ∈ d.modify, m.Distinct
  filter : ∀ m ∈ d.filter, m.Distinct
  rest : (Json.object d.rest).Distinct

/-- None of the other keys is the key of a declared field. -/
def Unambiguous (d : RelationDefinition) : Prop := ∀ key ∈ d.rest.keys, key ∉ declaredKeys

def declared (d : RelationDefinition) : Fields Json :=
  [("relation", .string d.relation), ("from", .orNull Key.toJson d.source),
    ("to", .orNull Key.toJson d.target),
    ("through", .orNull ThroughDefinition.toJson d.through), ("inverse", .bool d.inverse),
    ("scope", .orNull ModifierDefinition.toJson d.scope),
    ("modify", .orNull ModifierDefinition.toJson d.modify),
    ("filter", .orNull ModifierDefinition.toJson d.filter),
    ("join", .orNull JoinDefinition.toJson d.join)]

variable {d : RelationDefinition}

private theorem keys_declared : d.declared.keys = declaredKeys := rfl

private theorem distinct_append (hdistinct : d.Distinct) (h : d.Unambiguous) :
    Fields.Distinct (d.declared ++ d.rest) := by
  have hkeys : Fields.keys (d.declared ++ d.rest) = declaredKeys ++ d.rest.keys :=
    List.map_append
  rw [Fields.Distinct, hkeys, List.nodup_append]
  refine ⟨by decide, (Json.distinct_object_iff.1 hdistinct.rest).1, ?_⟩
  rintro key hkey _ hrest rfl
  exact h key hrest hkey

private theorem toJson_eq (hdistinct : d.Distinct) (h : d.Unambiguous) :
    d.toJson = .object (d.declared ++ d.rest) :=
  congrArg Json.object (Fields.merge_eq_append (distinct_append hdistinct h))

private theorem field?_declared (hdistinct : d.Distinct) (h : d.Unambiguous) {name : String}
    {value : Json} (hget : d.declared.get? name = some value) :
    field? [name] (d.declared ++ d.rest) = some (some value) := by
  rw [field?_singleton (distinct_append hdistinct h), Fields.get?_append, hget, Option.some_or]

theorem ofJson?_toJson (hdistinct : d.Distinct) (h : d.Unambiguous) :
    ofJson? d.toJson = some d := by
  have hfield : ∀ {name : String} {value : Json}, d.declared.get? name = some value →
      field? [name] (d.declared ++ d.rest) = some (some value) := field?_declared hdistinct h
  simp only [toJson_eq hdistinct h, ofJson?, Json.object?, Option.bind_eq_bind, Option.bind_some]
  rw [required?_string (hfield rfl),
    Key.optional?_toJson (hfield rfl), Key.optional?_toJson (hfield rfl),
    ThroughDefinition.optional?_toJson (hfield rfl), defaulted?_bool (hfield rfl),
    ModifierDefinition.optional?_toJson (hfield rfl) hdistinct.scope,
    ModifierDefinition.optional?_toJson (hfield rfl) hdistinct.modify,
    ModifierDefinition.optional?_toJson (hfield rfl) hdistinct.filter,
    optional?_eq_some (hfield rfl) (fun j _ ↦ j.ofJson?_toJson) JoinDefinition.toJson_ne_null,
    rest_append keys_declared h hdistinct.rest]
  rfl

private theorem distinct_and_unambiguous_of_ofJson? {value : Json} (h : ofJson? value = some d) :
    d.Distinct ∧ d.Unambiguous := by
  simp only [ofJson?, Option.bind_eq_bind, Option.bind_eq_some_iff, Option.pure_def,
    Option.some.injEq] at h
  obtain ⟨fields, -, relation, -, source, -, target, -, through, -, inverse, -, scope, hscope,
    modify, hmodify, filter, hfilter, join, -, rfl⟩ := h
  have hmodifier : ∀ {name : String} {part : Option ModifierDefinition},
      optional? [name] ModifierDefinition.ofJson? fields = some part → ∀ m ∈ part, m.Distinct := by
    rintro name _ hpart m rfl
    obtain ⟨written, -, hread⟩ := ne_null_of_optional? hpart
    exact ModifierDefinition.distinct_of_ofJson? hread
  exact ⟨⟨hmodifier hscope, hmodifier hmodify, hmodifier hfilter, distinct_rest _ _⟩,
    fun key hkey ↦ notMem_of_mem_rest hkey⟩

end RelationDefinition

/-! ## Scopes -/

namespace ScopeDefinition

structure Distinct (d : ScopeDefinition) : Prop where
  conditions : ∀ v ∈ d.conditions, v.Distinct
  order : ∀ v ∈ d.order, v.Distinct

/-- Neither the conditions nor the order are `null`, which is read as their absence. -/
structure Unambiguous (d : ScopeDefinition) : Prop where
  conditions : d.conditions ≠ some .null
  order : d.order ≠ some .null

theorem ofJson?_toJson {d : ScopeDefinition} (hdistinct : d.Distinct) (h : d.Unambiguous) :
    ofJson? d.toJson = some d := by
  rcases hjson : d.toJson with _ | _ | _ | _ | _ | fields <;> try contradiction
  have hconditions : field? ["where"] fields = some d.conditions := by
    rw [← Json.object.inj hjson]
    rcases d with ⟨- | conditions, - | ⟨name, select⟩, - | order⟩ <;> rfl
  have horder : field? ["order"] fields = some d.order := by
    rw [← Json.object.inj hjson]
    rcases d with ⟨- | conditions, - | ⟨name, select⟩, - | order⟩ <;> rfl
  have hselect : defaulted? ["select"] [] strings? fields = some d.select := by
    rw [← Json.object.inj hjson]
    rcases d with ⟨- | conditions, - | ⟨name, select⟩, - | order⟩ <;>
      first | rfl | exact defaulted?_eq_some rfl (strings?_strings _)
  simp only [ofJson?, named?, Option.bind_eq_bind, Option.bind_some]
  rw [optional?_any? hconditions hdistinct.conditions h.conditions, hselect,
    optional?_any? horder hdistinct.order h.order]
  rfl

private theorem distinct_and_unambiguous_of_ofJson? {value : Json} {d : ScopeDefinition}
    (h : ofJson? value = some d) : d.Distinct ∧ d.Unambiguous := by
  simp only [ofJson?, Option.bind_eq_bind, Option.bind_eq_some_iff, Option.pure_def,
    Option.some.injEq] at h
  obtain ⟨fields, -, conditions, hconditions, select, -, order, horder, rfl⟩ := h
  have hvalue : ∀ {name : String} {part : Option Json},
      optional? [name] any? fields = some part → ∀ v ∈ part, v.Distinct ∧ v ≠ .null := by
    rintro name _ hpart v rfl
    obtain ⟨written, hnull, hread⟩ := ne_null_of_optional? hpart
    exact ⟨distinct_of_any? hread, ne_null_of_any? hnull hread⟩
  exact ⟨⟨fun v hv ↦ (hvalue hconditions v hv).1, fun v hv ↦ (hvalue horder v hv).1⟩,
    ⟨fun h ↦ (hvalue hconditions _ h).2 rfl, fun h ↦ (hvalue horder _ h).2 rfl⟩⟩

end ScopeDefinition

/-! ## Models -/

namespace ModelDefinition

/-- No mapping inside names a key twice, which holds of all that is read from a document. -/
structure Distinct (d : ModelDefinition) : Prop where
  properties : (Json.object d.properties).Distinct
  relations : d.relations.Distinct
  relation : ∀ entry ∈ d.relations, entry.2.Distinct
  scopes : d.scopes.Distinct
  scope : ∀ entry ∈ d.scopes, entry.2.Distinct

/-- Nothing inside is written like something else. -/
structure Unambiguous (d : ModelDefinition) : Prop where
  relation : ∀ entry ∈ d.relations, entry.2.Unambiguous
  scope : ∀ entry ∈ d.scopes, entry.2.Unambiguous

theorem ofJson?_toJson {d : ModelDefinition} (hdistinct : d.Distinct) (h : d.Unambiguous) :
    ofJson? d.toJson = some d := by
  have hrelations : mapping? RelationDefinition.ofJson?
      (.object (d.relations.mapValues RelationDefinition.toJson)) = some d.relations :=
    mapping?_mapValues hdistinct.relations fun entry hentry ↦
      RelationDefinition.ofJson?_toJson (hdistinct.relation entry hentry) (h.relation entry hentry)
  have hscopes : mapping? ScopeDefinition.ofJson?
      (.object (d.scopes.mapValues ScopeDefinition.toJson)) = some d.scopes :=
    mapping?_mapValues hdistinct.scopes fun entry hentry ↦
      ScopeDefinition.ofJson?_toJson (hdistinct.scope entry hentry) (h.scope entry hentry)
  simp only [toJson, ofJson?, named?, Option.bind_eq_bind, Option.bind_some]
  rw [required?_string rfl, optional?_string rfl, Key.optional?_toJson rfl, defaulted?_bool rfl,
    defaulted?_eq_some rfl (mapping?_any? hdistinct.properties),
    defaulted?_eq_some rfl hrelations, defaulted?_eq_some rfl hscopes]
  rfl

private theorem distinct_and_unambiguous_of_ofJson? {value : Json} {d : ModelDefinition}
    (h : ofJson? value = some d) : d.Distinct ∧ d.Unambiguous := by
  simp only [ofJson?, Option.bind_eq_bind, Option.bind_eq_some_iff, Option.pure_def,
    Option.some.injEq] at h
  obtain ⟨fields, -, name, -, tableName, -, idProperty, -, timestamps, -, properties, hproperties,
    relations, hrelations, scopes, hscopes, rfl⟩ := h
  have hmapping : ∀ {α : Type} {name : String} {read : Json → Option α} {values : Fields α},
      defaulted? [name] [] (mapping? read) fields = some values →
        values.Distinct ∧ ∀ entry ∈ values, ∃ written, read written = some entry.2 := by
    intro α name read values h
    rcases eq_default_or_of_defaulted? h with rfl | ⟨written, hread⟩
    · exact ⟨by simp, by simp⟩
    · exact distinct_of_mapping? hread
  have hproperty : ∀ entry ∈ properties, entry.2.Distinct := by
    intro entry hentry
    obtain ⟨written, hread⟩ := (hmapping hproperties).2 entry hentry
    exact distinct_of_any? hread
  have hrelation : ∀ entry ∈ relations, entry.2.Distinct ∧ entry.2.Unambiguous := by
    intro entry hentry
    obtain ⟨written, hread⟩ := (hmapping hrelations).2 entry hentry
    exact RelationDefinition.distinct_and_unambiguous_of_ofJson? hread
  have hscope : ∀ entry ∈ scopes, entry.2.Distinct ∧ entry.2.Unambiguous := by
    intro entry hentry
    obtain ⟨written, hread⟩ := (hmapping hscopes).2 entry hentry
    exact ScopeDefinition.distinct_and_unambiguous_of_ofJson? hread
  refine ⟨⟨?_, (hmapping hrelations).1, fun entry hentry ↦ (hrelation entry hentry).1,
    (hmapping hscopes).1, fun entry hentry ↦ (hscope entry hentry).1⟩,
    ⟨fun entry hentry ↦ (hrelation entry hentry).2, fun entry hentry ↦ (hscope entry hentry).2⟩⟩
  exact Json.distinct_object_iff.2 ⟨(hmapping hproperties).1, hproperty⟩

/-- The definitions that are read back are those that a document can hold. -/
theorem ofJson?_toJson_iff {d : ModelDefinition} :
    ofJson? d.toJson = some d ↔ d.Distinct ∧ d.Unambiguous :=
  ⟨distinct_and_unambiguous_of_ofJson?, fun ⟨hdistinct, h⟩ ↦ ofJson?_toJson hdistinct h⟩

/-! ## Documents of models -/

/-- The definitions are read back one by one, and from each form of a document of models. -/
structure ReadsBack (definitions : List ModelDefinition) : Prop where
  definition : ∀ d ∈ definitions, ofJson? d.toJson = some d
  list : listOfJson? (.array (definitions.map toJson)) = some definitions
  wrapped : listOfJson? (.object [("models", .array (definitions.map toJson))]) = some definitions
  single : ∀ d, definitions = [d] → listOfJson? d.toJson = some definitions

/-- **Reading back.** Definitions that a document can hold are read back from what is written for
them, be it a list, a record of the list, or a single model. -/
theorem readsBack_of_unambiguous {definitions : List ModelDefinition}
    (hdistinct : ∀ d ∈ definitions, d.Distinct) (h : ∀ d ∈ definitions, d.Unambiguous) :
    ReadsBack definitions := by
  have hread : ∀ d ∈ definitions, ofJson? d.toJson = some d := fun d hd ↦
    ofJson?_toJson (hdistinct d hd) (h d hd)
  have hlist : list? ofJson? (.array (definitions.map toJson)) = some definitions := list?_map hread
  refine ⟨hread, ?_, ?_, ?_⟩
  · rw [listOfJson?, hlist]
    rfl
  · -- an object is no list of models
    have hnone : list? ofJson? (.object [("models", .array (definitions.map toJson))]) = none := rfl
    have hmodels : required? ["models"] (list? ofJson?)
        [("models", .array (definitions.map toJson))] = some definitions :=
      required?_eq_some rfl hlist
    have hwrapped : wrappedList? (.object [("models", .array (definitions.map toJson))]) =
        some definitions := hmodels
    rw [listOfJson?, hnone, hwrapped]
    rfl
  · -- nor does a model have the key under which the models are listed
    rintro d rfl
    have hnone : list? ofJson? d.toJson = none := rfl
    have hunwrapped : wrappedList? d.toJson = none := rfl
    rw [listOfJson?, hnone, hunwrapped, hread d (by simp)]
    rfl

/-- A definition with every kind of part in it. -/
def membership : ModelDefinition where
  name := "Membership"
  tableName := some "memberships"
  idProperty := some (.composite ["groupId", "userId"])
  timestamps := true
  properties := [("role", .string "string"), ("note", .object [("type", .string "string")])]
  relations := [
    ("groups",
      { relation := "manyToMany", source := some (.composite ["User.id", "User.orgId"]),
        target := some (.single "Group.id"),
        through := some (.explicit (some (.single "Membership.userId")) none (some "Membership")),
        inverse := true, scope := some (.scope "active"), modify := some (.scopes ["a", "b"]),
        filter := some (.filter [("published", .bool true)]), join := none,
        rest := [("eager", .bool true), ("note", .null)] }),
    ("owner",
      { relation := "belongsToOne", source := none, target := none, through := none,
        inverse := false, scope := none, modify := none, filter := none,
        join := some ⟨.single "Membership.userId", .single "User.id", some (.generated false)⟩,
        rest := [] })]
  scopes := [("all", ⟨none, [], none⟩), ("recent", ⟨some (.object []), ["role"],
    some (.string "createdAt desc")⟩)]

theorem readsBack_membership : membership.Distinct ∧ membership.Unambiguous ∧
    ReadsBack [membership] := by
  obtain ⟨hdistinct, hunambiguous⟩ : membership.Distinct ∧ membership.Unambiguous :=
    ofJson?_toJson_iff.1 rfl
  exact ⟨hdistinct, hunambiguous,
    readsBack_of_unambiguous (by simpa using hdistinct) (by simpa using hunambiguous)⟩

end ModelDefinition

end ModelCatalog
