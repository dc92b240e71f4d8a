import ModelCatalog.Model.Catalog
import ModelCatalog.Proofs.Schema.ObjectNode

/-!
# The schema of a model

A model's properties are compiled as the properties of one object node, and what becomes of such a
node can be written down. The relations add their properties to this outcome one by one. As long as
no name is used twice, each is added at the end, so that nothing of the outcome is lost.
-/

namespace ModelCatalog

open Outcome

namespace Schema

private theorem merge_listedObject (name : String) (value : Json) (required : List String) :
    Fields.merge [("$id", .string name)] (listedObject value required) =
      ("$id", .string name) :: listedObject value required := by
  refine Fields.merge_eq_append ?_
  rw [listedObject]
  split <;> simp

/-- The identity precedes the keywords of the object, and is the only one that is added to them. -/
theorem identifiedObject_eq (options : ConversionOptions) (name : String)
    (properties : Fields Json) : identifiedObject options name properties =
      (fun result ↦ ("$id", .string name) :: listedObject (.object result.1) result.2) <$>
        convertProperties options (below "" "properties") properties := by
  rw [identifiedObject, convert_objectNode]
  cases convertProperties options (below "" "properties") properties with
  | error e => rfl
  | ok result =>
    have hlisted : Fields.contains (("$id", .string name) ::
        listedObject (.object result.1) result.2) "properties" := by
      simp [Fields.contains, listedObject]
    have hclosed : Fields.get? (("$id", .string name) ::
        listedObject (.object result.1) result.2) "additionalProperties" = some (.bool false) := by
      rw [Fields.get?_cons, if_neg (by decide), get?_additionalProperties_listedObject]
    simp only [Functor.map, Except.map, ok_bind, Json.object?, Option.getD_some,
      merge_listedObject, hlisted, if_true, Fields.insert_eq_self hclosed]
    rfl

end Schema

namespace Model

variable {options : ConversionOptions} {registry : Registry} {m : Model}

/-! ## The properties of relations

Each relation adds one property. A name that is new goes to the end, so the result is the list of
all properties in the order of the relations. -/

section

variable {properties out : Fields Json} {relations : Fields Relation}

private theorem addRelationProperty_eq_ok_iff {entry : String × Relation}
    (hfresh : entry.1 ∉ properties.keys) :
    addRelationProperty options registry properties entry = .ok out ↔
      ∃ added, entry.2.propertySchema options registry = .ok added ∧
        properties ++ [(entry.1, added)] = out := by
  rw [addRelationProperty, bind_eq_ok_iff]
  simp only [pure_eq_ok_iff, Fields.insert_of_notMem hfresh]

theorem forall₂_of_foldlM_addRelationProperty (hnodup : (properties.keys ++ relations.keys).Nodup)
    (h : relations.foldlM (addRelationProperty options registry) properties = .ok out) :
    ∃ added, out = properties ++ added ∧ List.Forall₂ (fun relation entry ↦ relation.1 = entry.1 ∧
      relation.2.propertySchema options registry = .ok entry.2) relations added := by
  -- the properties so far grow by the one that the fold adds
  induction relations generalizing properties with
  | nil =>
    rw [List.foldlM_nil] at h
    exact ⟨[], by rw [List.append_nil, pure_eq_ok_iff.1 h], .nil⟩
  | cons entry relations ih =>
    rw [Fields.keys, Fields.keys, List.map_cons] at hnodup
    have hfresh : entry.1 ∉ properties.keys := by
      intro hmem
      exact (List.nodup_append.1 hnodup).2.2 _ hmem _ List.mem_cons_self rfl
    rw [List.foldlM_cons] at h
    obtain ⟨next, hstep, hrest⟩ := bind_eq_ok_iff.1 h
    obtain ⟨first, hfirst, rfl⟩ := (addRelationProperty_eq_ok_iff hfresh).1 hstep
    obtain ⟨added, rfl, hadded⟩ := ih (by simpa [Fields.keys] using hnodup) hrest
    exact ⟨(entry.1, first) :: added, by rw [List.append_assoc, List.singleton_append],
      .cons ⟨rfl, hfirst⟩ hadded⟩

end

/-! ## The whole schema -/

/-- Nothing but the properties changes once the declared ones are compiled. -/
theorem schema_eq (options : ConversionOptions) (registry : Registry) (m : Model) :
    m.schema options registry = do
      let result ← Schema.convertProperties options (Schema.below "" "properties") m.properties
      let properties ← m.relations.foldlM (addRelationProperty options registry) result.1
      return .object (("$id", .string m.name) ::
        Schema.listedObject (.object properties) result.2) := by
  rw [schema, Schema.identifiedObject_eq]
  cases Schema.convertProperties options (Schema.below "" "properties") m.properties with
  | error e => rfl
  | ok result => rfl

theorem get?_schema {schema : Json} (h : m.schema options registry = .ok schema) :
    schema.get? "$id" = some (.string m.name) := by
  rw [schema_eq] at h
  obtain ⟨result, -, h⟩ := bind_eq_ok_iff.1 h
  obtain ⟨properties, -, h⟩ := bind_eq_ok_iff.1 h
  obtain rfl := pure_eq_ok_iff.1 h
  rfl

/-- The schema of the instances of a model: closed objects, with a property for each of the model's
own and then one for each of its relations. What is declared of a property gives its schema, and
says whether the instances need it. -/
structure CompilesTo (options : ConversionOptions) (m : Model) (schema : Json) : Prop where
  id : schema.get? "$id" = some (.string m.name)
  type : schema.get? "type" = some (.string "object")
  closed : schema.get? "additionalProperties" = some (.bool false)
  properties : ∃ properties : Fields Json, schema.get? "properties" = some (.object properties) ∧
    properties.keys = m.properties.keys ++ m.relations.keys ∧ properties.keys.Nodup ∧
      ∀ name declared, m.properties.get? name = some declared →
        ∃ out, properties.get? name = some out ∧ Schema.convert options declared = .ok out
  required : ∃ names : List String, names.Sublist m.properties.keys ∧
    (∀ name, name ∈ names ↔
      ∃ declared, m.properties.get? name = some declared ∧ Schema.MarkedRequired declared) ∧
    schema.get? "required" = if names = [] then none else some (Json.strings names)

/-- **The schema of a model**, if no name is used twice. -/
theorem compilesTo_of_schema (hnodup : (m.properties.keys ++ m.relations.keys).Nodup)
    {schema : Json} (h : m.schema options registry = .ok schema) :
    m.CompilesTo options schema := by
  rw [schema_eq] at h
  obtain ⟨⟨outs, names⟩, hconvert, h⟩ := bind_eq_ok_iff.1 h
  obtain ⟨properties, hrelations, h⟩ := bind_eq_ok_iff.1 h
  obtain rfl := pure_eq_ok_iff.1 h
  obtain ⟨houts, rfl⟩ := Schema.forall₂_of_convertProperties hconvert
  have hkeys : m.properties.keys = outs.keys :=
    map_eq_map_of_forall₂ houts fun _ _ hout ↦ hout.1
  obtain ⟨added, rfl, hadded⟩ :=
    forall₂_of_foldlM_addRelationProperty (hkeys ▸ hnodup) hrelations
  have hadded_keys : m.relations.keys = Fields.keys added :=
    map_eq_map_of_forall₂ hadded fun _ _ hentry ↦ hentry.1
  have hall : Fields.keys (outs ++ added) = m.properties.keys ++ m.relations.keys := by
    rw [hkeys, hadded_keys, Fields.keys, List.map_append]
    rfl
  have hdistinct : m.properties.Distinct := (List.nodup_append.1 hnodup).1
  refine ⟨rfl, rfl, ?_, ⟨outs ++ added, rfl, hall, hall ▸ hnodup, ?_⟩,
    ⟨Schema.requiredNames m.properties, List.filter_sublist.map _, ?_, ?_⟩⟩
  · rw [Json.get?, Fields.get?_cons, if_neg (by decide),
      Schema.get?_additionalProperties_listedObject]
  · intro name declared hdeclared
    obtain ⟨out, hout, hconverts⟩ := Fields.get?_of_forall₂
      (R := fun declared out ↦ Schema.convert options declared = .ok out) houts hdeclared
    exact ⟨out, by rw [Fields.get?_append, hout, Option.some_or], hconverts⟩
  · intro name
    simp only [Schema.mem_requiredNames_iff hdistinct, Schema.isRequired_iff]
  · rw [Json.get?, Fields.get?_cons, if_neg (by decide), Schema.get?_listedObject _ _ (by decide),
      Schema.get?_required_requiredEntry (Schema.nodup_requiredNames hdistinct)]

end Model

end ModelCatalog
