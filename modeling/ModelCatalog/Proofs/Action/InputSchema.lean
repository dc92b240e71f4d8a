import ModelCatalog.Action.Coercion
import ModelCatalog.Proofs.Schema.ObjectNode
import ModelCatalog.Proofs.Schema.Visits

/-!
# The schema of an input

The schemas of parameters are collected by key and compiled as one mapping of properties. This gives
the schema of a closed object with a property for each key, unless the mapping is a schema in full.
The schema of a parameter is a mapping, and the only keyword that makes a schema in full with a
mapping as its value is `not`. So it all depends on whether a parameter has that name
(`ActionParameter.describesInput_iff`).
-/

namespace ModelCatalog

open Outcome

namespace Fields

variable {α β : Type}

private theorem get?_map_entry {f : α → String} {g : α → β} (xs : List α) (key : String) :
    get? (xs.map fun x ↦ (f x, g x)) key = (xs.find? (f · = key)).map g := by
  induction xs with
  | nil => rfl
  | cons x xs ih =>
    rw [List.map_cons, get?_cons, ih, List.find?_cons]
    by_cases hkey : f x = key <;> simp [hkey]

end Fields

namespace Schema

variable {options : ConversionOptions} {fields : Fields Json}

/-! ## Mappings of mappings

In such a mapping every keyword but `not` has a value of the wrong shape, so it counts as a schema
in full only for the sake of that keyword, and cannot get the type of objects from another. -/

/-- A test that no mapping passes fails on what is a mapping, if there is anything. -/
theorem any_eq_false_of_object {found : Option Json} {p : Json → Bool}
    (h : ∀ value, found = some value → value.isObject) (hp : ∀ fields, p (.object fields) = false) :
    found.any p = false := by
  cases found with
  | none => rfl
  | some value =>
    obtain ⟨inner, rfl⟩ := Json.isObject_iff.1 (h value rfl)
    exact hp inner

/-- A mapping whose values are mappings is a schema in full if it negates one of them. -/
theorem isExplicit_iff_of_objects
    (h : ∀ key value, fields.get? key = some value → value.isObject) :
    isExplicit fields ↔ "not" ∈ fields.keys := by
  have hnot : (fields.get? "not").any Json.isObject ↔ "not" ∈ fields.keys := by
    rw [← Fields.contains_iff_mem_keys, Fields.contains]
    cases hkey : fields.get? "not" with
    | none => simp
    | some value => simpa using h "not" value hkey
  have hcomposites : compositeKeywords.any (fun key ↦ (fields.get? key).any Json.isArray) =
      false := by
    simp [compositeKeywords, any_eq_false_of_object (h _) (p := Json.isArray) fun _ ↦ rfl]
  rw [isExplicit, any_eq_false_of_object (h "type") fun _ ↦ rfl, hcomposites,
    any_eq_false_of_object (h "$ref") fun _ ↦ rfl]
  simpa using hnot

private theorem convertType_of_objects {keywords : Fields Keyword}
    (htype : ∀ value, fields.get? "type" = some value → value.isObject) :
    convertType options keywords fields = .ok fields := by
  unfold convertType
  split
  · rename_i name hname
    simpa [Json.isObject, Json.object?] using htype _ hname
  · rename_i names hnames
    simpa [Json.isObject, Json.object?] using htype _ hnames
  · rfl

private theorem settleMarkers_of_objects
    (htype : ∀ value, fields.get? "type" = some value → value.isObject)
    (hrequired : ∀ value, fields.get? "required" = some value → value.isObject) :
    settleMarkers fields = settleDefault fields := by
  have hmarker : ∀ value, fields.get? "required" ≠ some (.bool value) := fun value hmarked ↦ by
    simpa [Json.isObject, Json.object?] using hrequired _ hmarked
  rw [settleMarkers_of_ne_bool hmarker, any_eq_false_of_object htype fun _ ↦ rfl,
    if_neg Bool.false_ne_true]

/-- Finishing a node does not give it a type, apart from letting it be null. -/
theorem get?_type_finishNode (hnullable : ¬(fields.get? "nullable").any Json.isTrue) {type : Json}
    (htype : fields.get? "type" ≠ some type) : (finishNode fields).get? "type" ≠ some type := by
  rw [finishNode, if_neg hnullable]
  split
  · simp
  · exact htype

private theorem get?_type_of_convert_objects (hdistinct : fields.Distinct)
    (hobjects : ∀ key value, fields.get? key = some value → value.isObject)
    (hnot : "not" ∈ fields.keys) {schema : Json}
    (h : convert options (.object fields) = .ok schema) :
    schema.get? "type" ≠ some (.string "object") := by
  obtain ⟨-, negated, typed, -, -, hedits, htyped, rfl⟩ :=
    exists_typed_of_convert hdistinct ((isExplicit_iff_of_objects hobjects).2 hnot) h
  -- what has not been edited is still a mapping
  have hplain : ∀ key ∉ "not" :: compositeKeywords, ∀ value,
      negated.get? key = some value → value.isObject := by
    intro key hkey value hvalue
    rw [hedits.get? key hkey] at hvalue
    exact hobjects key value hvalue
  rw [convertType_of_objects (hplain "type" (by decide))] at htyped
  obtain rfl := Except.ok.inj htyped
  rw [settleMarkers_of_objects (hplain "type" (by decide)) (hplain "required" (by decide))]
  have hsettles := EditsOnly.settleDefault hedits.distinct
  refine get?_type_finishNode ?_ ?_
  · rw [hsettles.get? _ (by decide),
      any_eq_false_of_object (hplain "nullable" (by decide)) fun _ ↦ rfl]
    simp
  · rw [hsettles.get? _ (by decide)]
    intro htype
    simpa [Json.isObject, Json.object?] using hplain "type" (by decide) _ htype

end Schema

namespace ActionParameter

variable {options : ConversionOptions} {parameters : List ActionParameter}

/-! ## Inputs -/

def lastDeclared? (parameters : List ActionParameter) (key : String) : Option ActionParameter :=
  parameters.reverse.find? (·.key = key)

/-- The schema of a closed object with a property for each key. What is declared last under a key
gives the schema of the property, and says whether the object needs it. -/
structure DescribesInput (options : ConversionOptions) (parameters : List ActionParameter)
    (schema : Json) : Prop where
  type : schema.get? "type" = some (.string "object")
  closed : schema.get? "additionalProperties" = some (.bool false)
  properties : ∃ properties : Fields Json, schema.get? "properties" = some (.object properties) ∧
    properties.keys = (parameters.map key).eraseDups ∧
      ∀ key p, lastDeclared? parameters key = some p →
        ∃ out, properties.get? key = some out ∧ Schema.convert options p.schema = .ok out
  required : ∃ names, (schema.get? "required").getD (.array []) = Json.strings names ∧
    names.Nodup ∧
      ∀ key, key ∈ names ↔ ∃ p, lastDeclared? parameters key = some p ∧
        Schema.MarkedRequired p.schema

private theorem isObject_schema (p : ActionParameter) : p.schema.isObject := by
  cases p <;> rfl

theorem distinct_properties (parameters : List ActionParameter) :
    (properties parameters).Distinct :=
  Fields.distinct_ofList _

theorem keys_properties (parameters : List ActionParameter) :
    (properties parameters).keys = (parameters.map key).eraseDups := by
  rw [properties, Fields.keys_ofList, List.map_map]
  rfl

private theorem get?_properties (parameters : List ActionParameter) (key : String) :
    (properties parameters).get? key = (lastDeclared? parameters key).map schema := by
  rw [properties, Fields.get?_ofList, ← List.map_reverse, Fields.get?_map_entry]
  rfl

private theorem isObject_of_get?_properties {key : String} {value : Json}
    (h : (properties parameters).get? key = some value) : value.isObject := by
  rw [get?_properties, Option.map_eq_some_iff] at h
  obtain ⟨p, -, rfl⟩ := h
  exact isObject_schema p

theorem isExplicit_properties_iff :
    Schema.isExplicit (properties parameters) ↔ "not" ∈ parameters.map key := by
  rw [Schema.isExplicit_iff_of_objects fun _ _ ↦ isObject_of_get?_properties, keys_properties,
    List.mem_eraseDups]

/-- A mapping of properties that is no schema in full is compiled as a closed object. -/
theorem describesInput_of_convert (hnot : "not" ∉ parameters.map key) {schema : Json}
    (h : Schema.convert options (.object (properties parameters)) = .ok schema) :
    DescribesInput options parameters schema := by
  have hdistinct := distinct_properties parameters
  rw [Schema.convert_bareObject (isExplicit_properties_iff.not.2 hnot)] at h
  obtain ⟨⟨outs, names⟩, hconvert, rfl⟩ := map_eq_ok_iff.1 h
  obtain ⟨houts, rfl⟩ := Schema.forall₂_of_convertProperties hconvert
  refine ⟨rfl, rfl, ⟨outs, rfl, ?_, ?_⟩, ⟨_, ?_, Schema.nodup_requiredNames hdistinct, ?_⟩⟩
  · rw [← keys_properties]
    exact (map_eq_map_of_forall₂ houts fun _ _ hout ↦ hout.1).symm
  · intro key p hp
    have hvalue : (properties parameters).get? key = some p.schema := by
      rw [get?_properties, hp, Option.map_some]
    exact Fields.get?_of_forall₂ (R := fun declared out ↦ Schema.convert options declared = .ok out)
      houts hvalue
  · simpa using
      Schema.getD_requiredEntry (Schema.nodup_requiredNames hdistinct)
  · intro key
    rw [Schema.mem_requiredNames_iff hdistinct, get?_properties]
    simp [Schema.isRequired_iff]

/-- **The schema of an input.** -/
theorem describesInput_iff {result : Option Json} (hne : parameters ≠ [])
    (h : inputSchema options parameters = .ok result) :
    ∃ schema, result = some schema ∧
      (DescribesInput options parameters schema ↔ "not" ∉ parameters.map key) := by
  rw [inputSchema, if_neg (by simpa using hne)] at h
  obtain ⟨schema, hschema, rfl⟩ := map_eq_ok_iff.1 h
  refine ⟨schema, rfl, fun hdescribes hnot ↦ ?_, fun hnot ↦ describesInput_of_convert hnot hschema⟩
  refine Schema.get?_type_of_convert_objects (distinct_properties parameters)
    (fun _ _ ↦ isObject_of_get?_properties) ?_ hschema hdescribes.type
  rwa [keys_properties, List.mem_eraseDups]

/-- A whole input of any shape, and a name that is declared twice and must be given. -/
def greetingParameters : List ActionParameter :=
  [.full (some "name") (some (.string "string")) [], .bare "object",
    .full (some "name") (some (.string "text")) [("required", .bool true)]]

def greetingSchema : Json :=
  .object [("type", .string "object"), ("additionalProperties", .bool false),
    ("properties", .object
      [("name", .object [("type", .string "string"), ("format", .string "required")]),
        ("root", .object [("type", .string "object")])]),
    ("required", .array [.string "name"])]

theorem describesInput_greetingSchema :
    greetingParameters ≠ [] ∧
      inputSchema ⟨false⟩ greetingParameters = .ok (some greetingSchema) ∧
        DescribesInput ⟨false⟩ greetingParameters greetingSchema := by
  have hne : greetingParameters ≠ [] := by simp [greetingParameters]
  have hschema : inputSchema ⟨false⟩ greetingParameters = .ok (some greetingSchema) := by rfl
  obtain ⟨schema, hresult, hdescribes⟩ := describesInput_iff hne hschema
  obtain rfl := Option.some.inj hresult
  exact ⟨hne, hschema, hdescribes.2 (by decide)⟩

/-- A parameter with the name of the keyword that negates a schema. -/
def negationParameters : List ActionParameter := [.full (some "not") (some (.string "string")) []]

/-- The schema of everything that is no text. -/
def noText : Json := .object [("not", .object [("type", .string "string")])]

/-- The mapping of properties is read as a schema in full, and the parameter as what it negates. -/
theorem not_describesInput_noText :
    negationParameters ≠ [] ∧ inputSchema ⟨false⟩ negationParameters = .ok (some noText) ∧
      ¬DescribesInput ⟨false⟩ negationParameters noText := by
  refine ⟨by simp [negationParameters], rfl, fun h ↦ ?_⟩
  simpa [noText] using h.type

end ActionParameter

end ModelCatalog
