import ModelCatalog.Proofs.Json.KeyOrder
import ModelCatalog.Proofs.Schema.Markers
import ModelCatalog.Proofs.Schema.Place

/-!
# Nodes that list properties

What becomes of a node of type `object` that gives its properties, and of the node that a mapping of
properties stands for, which is closed in addition. Apart from resolving the properties, conversion
lists the required ones and moves keywords about, so the whole outcome can be written down
(`Schema.listing`).
-/

namespace ModelCatalog

open Outcome

namespace Fields

variable {α β : Type}

theorem get?_of_forall₂ {R : α → β → Prop} {fs : Fields α} {gs : Fields β}
    (h : List.Forall₂ (fun x y ↦ x.1 = y.1 ∧ R x.2 y.2) fs gs) {key : String} {value : α}
    (hvalue : fs.get? key = some value) : ∃ out, gs.get? key = some out ∧ R value out := by
  have hrel := rel_get?_of_forall₂ (R := fun _ ↦ R) h key
  rw [hvalue] at hrel
  exact exists_right_of_rel hrel

end Fields

namespace Schema

variable {options : ConversionOptions} {keywords : Fields Keyword} {fields properties : Fields Json}
  {compiled : Except SchemaError Json}

/-! ## Properties -/

/-- The properties are converted each on its own, and the names are those of the required ones. -/
theorem forall₂_of_convertProperties {path : String} {outs : Fields Json} {names : List String}
    (h : convertProperties options path properties = .ok (outs, names)) :
    List.Forall₂ (fun property out ↦ property.1 = out.1 ∧ convert options property.2 = .ok out.2)
      properties outs ∧ names = requiredNames properties := by
  obtain ⟨outs', hrun, hpair⟩ := bind_eq_ok_iff.1 h
  obtain ⟨rfl, rfl⟩ := Prod.mk.inj (pure_eq_ok_iff.1 hpair)
  refine ⟨(Pass.forall₂_runProperties hrun).imp fun property out hout ↦ ?_, rfl⟩
  obtain ⟨hname, place, hyields⟩ := hout
  exact ⟨hname, ((extensional_conversion options).run_eq_ok_iff "").1 hyields⟩

/-! ## Nodes of type `object`

Such a node has a list of required names before or gets one when its properties are resolved. New
names go behind those that are there. -/

/-- On a node of type `object` that combines and negates no schemas, only the keywords of objects
are converted. -/
theorem convertNode_of_object (hwritten : keywords.mapValues (·.written) = fields)
    (htype : fields.get? "type" = some (.string "object"))
    (hplain : ∀ key ∈ ["allOf", "anyOf", "oneOf", "not"], keywords.get? key = none) :
    convertNode options keywords =
      (fun out ↦ finishNode (settleMarkers out)) <$> convertObject keywords fields := by
  have hcomposite : ∀ key ∈ ["allOf", "anyOf", "oneOf", "not"],
      convertComposite keywords fields key = .ok fields := by
    intro key hkey
    rw [convertComposite, hplain key hkey]
  have hcomposites : compositeKeywords.foldlM (convertComposite keywords) fields = .ok fields := by
    simp [compositeKeywords, hcomposite]
  have hnot : convertSchemaKeyword keywords fields "not" = .ok fields := by
    rw [convertSchemaKeyword, hplain "not" (by simp)]
  have hobject : DeclaredType.ofName "object" = .json .object := by decide
  have htyped : convertType options keywords fields = convertObject keywords fields := by
    rw [convertType, htype]
    simp only [convertTypeName, hobject]
    exact congrArg (convertObject keywords) (Fields.insert_eq_self htype)
  rw [convertNode, hwritten, hcomposites, ok_bind, hnot, ok_bind, htyped, bind_pure_comp]

/-- The entry that lists the names of required properties, if there are any. -/
def requiredEntry (names : List String) : Fields Json :=
  if names.isEmpty then [] else [("required", .array (addNames [] names))]

/-- The names that are not listed yet go behind those that are. -/
theorem addNames_eq {listed : List Json} {added : List String} (h : added.Nodup) :
    addNames listed added =
      listed ++ (added.filter fun name ↦ !listed.any (·.isString name)).map .string := by
  induction added generalizing listed with
  | nil => simp [addNames]
  | cons name added ih =>
    obtain ⟨hname, hadded⟩ := List.nodup_cons.1 h
    have hstep : addNames listed (name :: added) = addNames
        (if listed.any (·.isString name) then listed else listed ++ [.string name]) added := rfl
    rw [hstep]
    by_cases hlisted : listed.any (·.isString name)
    · rw [if_pos hlisted, ih hadded, List.filter_cons_of_neg (by simpa using hlisted)]
    · -- the name that has been appended is none of the others
      have hothers : ∀ other ∈ added, (!(listed ++ [Json.string name]).any (·.isString other)) =
          !listed.any (·.isString other) := by
        intro other hother
        have hne : name ≠ other := fun heq ↦ hname (heq ▸ hother)
        simp [hne]
      rw [if_neg hlisted, ih hadded, List.filter_congr hothers,
        List.filter_cons_of_pos (by simpa only [Bool.not_eq_true', Bool.not_eq_true] using hlisted)]
      simp

private theorem addNames_strings {names added : List String} (h : (names ++ added).Nodup) :
    addNames (names.map .string) added = (names ++ added).map .string := by
  obtain ⟨-, hadded, hdisjoint⟩ := List.nodup_append.1 h
  have hfilter : (added.filter fun name ↦ !(names.map Json.string).any (·.isString name)) =
      added := by
    refine List.filter_eq_self.2 fun name hname ↦ ?_
    simpa using fun other hother ↦ hdisjoint other hother name hname
  rw [addNames_eq hadded, hfilter, List.map_append]

theorem get?_required_requiredEntry {names : List String} (h : names.Nodup) :
    (requiredEntry names).get? "required" =
      if names = [] then none else some (Json.strings names) := by
  by_cases hnames : names = []
  · rw [if_pos hnames, hnames]
    rfl
  · have hadd : addNames [] names = names.map .string := by simpa using @addNames_strings [] names h
    rw [if_neg hnames, requiredEntry, if_neg (by simpa using hnames), hadd, Json.strings]
    rfl

theorem getD_requiredEntry {names : List String} (h : names.Nodup) :
    ((requiredEntry names).get? "required").getD (.array []) = Json.strings names := by
  rw [get?_required_requiredEntry h]
  split
  · rename_i hnames
    rw [hnames]
    rfl
  · rfl

theorem nodup_requiredNames (h : properties.Distinct) : (requiredNames properties).Nodup :=
  h.sublist (List.filter_sublist.map _)

theorem mem_requiredNames_iff (h : properties.Distinct) {name : String} :
    name ∈ requiredNames properties ↔
      ∃ property, properties.get? name = some property ∧ isRequired property := by
  simp only [Fields.get?_eq_some_iff_mem h, requiredNames, Fields.keys, List.mem_map,
    List.mem_filter, Prod.exists]
  constructor
  · rintro ⟨_, property, hproperty, rfl⟩
    exact ⟨property, hproperty⟩
  · rintro ⟨property, hproperty⟩
    exact ⟨name, property, hproperty, rfl⟩

private theorem addRequired_of_notMem (h : "required" ∉ fields.keys) (names : List String) :
    addRequired fields names = fields ++ requiredEntry names := by
  rw [addRequired, requiredEntry]
  split
  · rw [List.append_nil]
  · rw [Fields.get?_eq_none_iff.2 h, replaceLast, Fields.remove_of_notMem h,
      Fields.insert_of_notMem h]
    rfl

/-- The keywords of a node of type `object` once its properties are resolved: the required ones are
listed, and the node is closed unless it says otherwise. -/
def listing (fields : Fields Json) (value : Json) (required : List String) : Fields Json :=
  let listed := replaceLast fields "properties" value ++ requiredEntry required
  if listed.contains "additionalProperties" then listed
  else listed.insert "additionalProperties" (.bool false)

private theorem convertObject_of_properties (hdistinct : fields.Distinct)
    (hproperties : keywords.get? "properties" = some ⟨.object properties, compiled⟩)
    (hpatterns : keywords.get? "patternProperties" = none) (hrequired : "required" ∉ fields.keys) :
    convertObject keywords fields =
      (fun value ↦ listing fields value (requiredNames properties)) <$> compiled := by
  have hmapping : convertMapping keywords fields "properties" =
      (fun value ↦ (replaceLast fields "properties" value, true)) <$> compiled := by
    rw [convertMapping, hproperties]
    exact bind_pure_comp _ _
  have hnone : ∀ fields, convertMapping keywords fields "patternProperties" =
      .ok (fields, false) := by
    intro fields
    rw [convertMapping, hpatterns]
  have hlisted : ∀ value, "required" ∉ (replaceLast fields "properties" value).keys := by
    intro value
    rw [← Fields.get?_eq_none_iff, get?_replaceLast_of_ne hdistinct (by decide)]
    exact Fields.get?_eq_none_iff.2 hrequired
  rw [convertObject, hmapping, hproperties]
  -- only the conversion of the properties can fail
  cases compiled with
  | error e => rfl
  | ok value =>
    simp only [Functor.map, Except.map, ok_bind, Option.bind_some, Json.object?, Option.getD_some,
      addRequired_of_notMem (hlisted value), hnone, listing, Bool.true_or, Bool.true_and]
    by_cases hclosed : (replaceLast fields "properties" value ++
      requiredEntry (requiredNames properties)).contains "additionalProperties"
    · simp [hclosed]
    · simp [hclosed]

private theorem get?_listing (hdistinct : fields.Distinct) (value : Json) (required : List String)
    {key : String} (hkey : key ∉ ["properties", "additionalProperties"]) :
    (listing fields value required).get? key =
      (fields.get? key).or ((requiredEntry required).get? key) := by
  simp only [List.mem_pair, not_or] at hkey
  have hlisted : Fields.get? (replaceLast fields "properties" value ++ requiredEntry required) key =
      (fields.get? key).or ((requiredEntry required).get? key) := by
    rw [Fields.get?_append, get?_replaceLast_of_ne hdistinct hkey.1]
  rw [listing]
  split
  · exact hlisted
  · rw [Fields.get?_insert_of_ne _ hkey.2, hlisted]

private theorem get?_requiredEntry (required : List String) {key : String}
    (hkey : key ≠ "required") :
    (requiredEntry required).get? key = none := by
  rw [requiredEntry]
  split <;> simp [Ne.symm hkey]

/-- What is listed as required is no marker. -/
theorem get?_requiredEntry_ne_bool (required : List String) (value : Bool) :
    (requiredEntry required).get? "required" ≠ some (.bool value) := by
  rw [requiredEntry]
  split <;> simp

private theorem finishNode_settleMarkers (htype : fields.get? "type" = some (.string "object"))
    (hrequired : ∀ value, fields.get? "required" ≠ some (.bool value))
    (hnullable : fields.get? "nullable" = none) (href : fields.get? "$ref" = none) :
    finishNode (settleMarkers fields) = .object fields := by
  have hmarkers : settleMarkers fields = fields := by
    rw [settleMarkers_of_ne_bool hrequired, htype, if_pos (by simp)]
  rw [hmarkers, finishNode, hnullable, href]
  rfl

/-- On a node of type `object` that gives its properties and nothing else, except that it is closed
or open, only the conversion of the properties can fail. -/
theorem convertNode_of_properties (hwritten : keywords.mapValues (·.written) = fields)
    (hdistinct : fields.Distinct)
    (hkeys : fields.keys ⊆ ["type", "properties", "additionalProperties"])
    (htype : fields.get? "type" = some (.string "object"))
    (hproperties : keywords.get? "properties" = some ⟨.object properties, compiled⟩) :
    convertNode options keywords =
      (fun value ↦ .object (listing fields value (requiredNames properties))) <$> compiled := by
  have hfields : ∀ {key}, key ∉ ["type", "properties", "additionalProperties"] →
      fields.get? key = none := fun hkey ↦
    Fields.get?_eq_none_iff.2 fun hmem ↦ hkey (hkeys hmem)
  have hnone : ∀ {key}, key ∉ ["type", "properties", "additionalProperties"] →
      keywords.get? key = none := by
    intro key hkey
    have hget := hfields hkey
    rwa [← hwritten, Fields.get?_mapValues, Option.map_eq_none_iff] at hget
  have hfinish : ∀ value, finishNode (settleMarkers
      (listing fields value (requiredNames properties))) =
        .object (listing fields value (requiredNames properties)) := by
    intro value
    refine finishNode_settleMarkers ?_ ?_ ?_ ?_
    · rw [get?_listing hdistinct _ _ (by decide), htype, Option.some_or]
    · rw [get?_listing hdistinct _ _ (by decide), hfields (by decide), Option.none_or]
      exact get?_requiredEntry_ne_bool _
    · rw [get?_listing hdistinct _ _ (by decide), hfields (by decide),
        get?_requiredEntry _ (by decide), Option.or_none]
    · rw [get?_listing hdistinct _ _ (by decide), hfields (by decide),
        get?_requiredEntry _ (by decide), Option.or_none]
  have hplain : ∀ key ∈ ["allOf", "anyOf", "oneOf", "not"], keywords.get? key = none := by
    intro key hkey
    simp only [List.mem_cons, List.not_mem_nil, or_false] at hkey
    rcases hkey with rfl | rfl | rfl | rfl <;> exact hnone (by decide)
  rw [convertNode_of_object hwritten htype hplain, convertObject_of_properties hdistinct hproperties
    (hnone (by decide)) (Fields.get?_eq_none_iff.1 (hfields (by decide)))]
  cases compiled with
  | error e => rfl
  | ok value => exact congrArg Except.ok (hfinish value)

/-! ## Nodes that only give their properties

The same for the values that stand for such nodes: a mapping of properties, or a node in full with
no more than properties and the mark that it is closed or open. -/

/-- **The schema of an object.** Where a value stands for such a node, it converts if its properties
do. -/
theorem convert_of_properties {v : Json} (hfull : inFull v = some fields)
    (hdistinct : fields.Distinct)
    (hkeys : fields.keys ⊆ ["type", "properties", "additionalProperties"])
    (htype : fields.get? "type" = some (.string "object"))
    (hproperties : fields.get? "properties" = some (.object properties)) :
    convert options v =
      (fun result ↦ .object (listing fields (.object result.1) result.2)) <$>
        convertProperties options (below "" "properties") properties := by
  have hkeyword : Fields.get? ((conversion options).runKeywords "" fields) "properties" =
      some ⟨.object properties, .object <$>
        (conversion options).runProperties (below "" "properties") properties⟩ := by
    rw [Pass.get?_runKeywords, hproperties]
    rfl
  rw [convert, Pass.run_of_inFull hfull, convertProperties]
  refine (convertNode_of_properties (Pass.mapValues_runKeywords fields) hdistinct hkeys htype
    hkeyword).trans ?_
  cases (conversion options).runProperties (below "" "properties") properties <;> rfl

/-- The keywords of the schema of objects with these compiled properties, some of them required. -/
def listedObject (properties : Json) (required : List String) : Fields Json :=
  [("type", .string "object"), ("properties", properties)] ++
    (if required.isEmpty then [] else [("required", .array (addNames [] required))]) ++
    [("additionalProperties", .bool false)]

theorem get?_listedObject (properties : Json) (required : List String) {key : String}
    (hkey : key ∉ ["type", "properties", "additionalProperties"]) :
    (listedObject properties required).get? key = (requiredEntry required).get? key := by
  simp only [List.mem_cons, List.not_mem_nil, or_false, not_or] at hkey
  obtain ⟨htype, hproperties, hclosed⟩ := hkey
  rw [listedObject, Fields.get?_append, Fields.get?_append]
  simp [Ne.symm htype, Ne.symm hproperties, Ne.symm hclosed, requiredEntry]

theorem get?_additionalProperties_listedObject (properties : Json) (required : List String) :
    (listedObject properties required).get? "additionalProperties" = some (.bool false) := by
  rw [listedObject]
  split <;> simp

private theorem listing_objectNode (properties value : Json) (required : List String) :
    listing [("type", .string "object"), ("properties", properties)] value required =
      listedObject value required := by
  rw [listing, listedObject, requiredEntry]
  split <;> split <;>
    simp_all [replaceLast, Fields.remove, Fields.insert, Fields.contains]

theorem convert_objectNode (properties : Fields Json) :
    convert options (.object [("type", .string "object"), ("properties", .object properties)]) =
      (fun result ↦ .object (listedObject (.object result.1) result.2)) <$>
        convertProperties options (below "" "properties") properties := by
  rw [convert_of_properties (inFull_of_isExplicit (isExplicit_of_type rfl))
    (by simp) (by simp) rfl rfl]
  simp only [listing_objectNode]

private theorem listing_closedObject (properties : Fields Json) (value : Json)
    (required : List String) :
    listing (closedObject properties) value required =
      [("type", .string "object"), ("additionalProperties", .bool false), ("properties", value)] ++
        requiredEntry required := by
  simp [listing, closedObject, replaceLast, Fields.remove, Fields.insert, Fields.contains]

theorem convert_bareObject {properties : Fields Json} (h : ¬isExplicit properties) :
    convert options (.object properties) =
      (fun result ↦ .object ([("type", .string "object"), ("additionalProperties", .bool false),
        ("properties", .object result.1)] ++ requiredEntry result.2)) <$>
          convertProperties options (below "" "properties") properties := by
  have hfull : inFull (.object properties) = some (closedObject properties) := by
    rw [inFull, if_neg h]
  rw [convert_of_properties hfull (by simp [closedObject])
    (by simp [closedObject]) rfl rfl]
  simp only [listing_closedObject]

end Schema

end ModelCatalog
