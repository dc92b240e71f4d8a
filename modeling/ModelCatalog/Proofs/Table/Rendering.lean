import ModelCatalog.Proofs.Schema.Visits
import ModelCatalog.Proofs.Table.Migrations

/-!
# When a catalog can be rendered

The schemas of properties are read twice: converted when the catalog is resolved, and expanded when
its tables are rendered. Nothing else can fail when tables are rendered. Expansion visits schemas
that conversion leaves alone, so a catalog that resolves can be rendered unless such a stray is
malformed.
-/

namespace ModelCatalog

open Outcome

/-! ## Definitions without repeated keys -/

theorem ModelDefinition.distinct_object_allProperties {d : ModelDefinition}
    (h : (Json.object d.properties).Distinct) : (Json.object d.allProperties).Distinct := by
  obtain ⟨hkeys, hvalues⟩ := Json.distinct_object_iff.1 h
  have htimestamp : timestampSchema.Distinct := by
    simp [timestampSchema]
  refine Json.distinct_object_iff.2 ⟨distinct_allProperties hkeys, ?_⟩
  refine allProperties_induction (P := fun fields ↦ ∀ entry ∈ fields, entry.2.Distinct) hvalues ?_
  intro fields name hfields entry hentry
  rcases Fields.mem_of_mem_insert hentry with rfl | hentry
  · exact htimestamp
  · exact hfields entry hentry

/-! ## Properties of models with a schema -/

namespace Schema

variable {options : ConversionOptions}

/-- The properties of an object that converts convert, each on its own. -/
theorem succeeds_convert_of_identifiedObject {name : String} {properties fields : Fields Json}
    (h : identifiedObject options name properties = .ok fields) :
    ∀ property ∈ properties, Succeeds (convert options property.2) := by
  rw [identifiedObject_eq] at h
  obtain ⟨⟨outs, names⟩, hconvert, -⟩ := map_eq_ok_iff.1 h
  intro property hproperty
  obtain ⟨out, -, -, hout⟩ :=
    exists_right_of_forall₂ (forall₂_of_convertProperties hconvert).1 hproperty
  exact ⟨out.2, hout⟩

end Schema

/-! ## Tables

A table is rendered column by column, and a column can fail only if it reads a schema whose
expansion fails. -/

namespace Model

variable {registry : Registry} {style : NamingStyle} {m : Model}

/-- The column of the property is read off the schema of the property. A single identifying property
has a serial number for its column, whatever its schema is. -/
def ReadsSchema (m : Model) (property : String) : Prop :=
  m.hasCompositeKey ∨ property ∉ m.idProperties

private theorem succeeds_expandProperty_iff {schema : Json} :
    Succeeds (m.expandProperty schema) ↔ Succeeds (Schema.expand schema) :=
  succeeds_mapError_iff

private theorem succeeds_keyColumn_iff {property : String} : Succeeds (m.keyColumn style property) ↔
    ∀ schema, m.properties.get? property = some schema → Succeeds (Schema.expand schema) := by
  rw [keyColumn, bind_pure_comp, succeeds_map_iff]
  cases m.properties.get? property with
  | none => simp
  | some schema => simp [succeeds_expandProperty_iff]

private theorem succeeds_propertyColumn?_iff {property : String × Json} :
    Succeeds (m.propertyColumn? style property) ↔ Succeeds (Schema.expand property.2) := by
  rw [propertyColumn?, succeeds_bind_iff_left fun schema ↦ ?_, succeeds_expandProperty_iff]
  split <;> exact succeeds_pure _

private theorem succeeds_keyColumns_iff : Succeeds (m.keyColumns style) ↔
    (m.hasCompositeKey → ∀ property ∈ m.idProperties, ∀ schema,
      m.properties.get? property = some schema → Succeeds (Schema.expand schema)) := by
  rw [keyColumns]
  split
  · rename_i hcomposite
    rw [succeeds_mapM_iff]
    simp only [succeeds_keyColumn_iff, hcomposite, forall_const]
  · rename_i hsingle
    exact iff_of_true (succeeds_ok _) fun hcomposite ↦ absurd hcomposite hsingle

private theorem succeeds_propertyColumns_iff : Succeeds (m.propertyColumns style) ↔
    ∀ property ∈ m.properties, property.1 ∉ m.idProperties →
      Succeeds (Schema.expand property.2) := by
  simp [propertyColumns, bind_pure_comp, succeeds_mapM_iff, succeeds_propertyColumn?_iff]

/-- A table needs the expansions of the schemas that its columns are read off, and nothing else. -/
theorem succeeds_migration_iff (hproperties : m.properties.Distinct) {now : Timestamp} :
    Succeeds (m.migration registry style now) ↔ ∀ name schema,
      m.properties.get? name = some schema → m.ReadsSchema name →
        Succeeds (Schema.expand schema) := by
  have htable : Succeeds (m.migration registry style now) ↔
      Succeeds (m.keyColumns style) ∧ Succeeds (m.propertyColumns style) := by
    rw [migration, bind_pure_comp, succeeds_map_iff, table]
    exact succeeds_bind_iff_and fun keys _ ↦ succeeds_bind_iff_left fun columns ↦ succeeds_pure _
  rw [htable, succeeds_keyColumns_iff, succeeds_propertyColumns_iff]
  constructor
  · rintro ⟨hkeys, hcolumns⟩ name schema hschema hreads
    by_cases hid : name ∈ m.idProperties
    · exact hkeys (hreads.resolve_right fun h ↦ h hid) name hid schema hschema
    · exact hcolumns (name, schema) (Fields.mem_of_get? hschema) hid
  · intro h
    refine ⟨fun hcomposite name _ schema hschema ↦ h name schema hschema (.inl hcomposite), ?_⟩
    rintro ⟨name, schema⟩ hproperty hid
    exact h name schema ((Fields.get?_eq_some_iff_mem hproperties).2 hproperty) (.inr hid)

end Model

/-! ## Catalogs -/

namespace Catalog

variable {ds : List ModelDefinition} {c : Catalog}

/-- All schemas of a catalog that resolves have been converted. -/
theorem succeeds_convert_of_mem (hresolve : resolve ds = .ok c) {m : Model} (hm : m ∈ c.models)
    {name : String} {schema : Json} (hschema : m.properties.get? name = some schema) :
    Succeeds (Schema.convert ⟨false⟩ schema) := by
  obtain ⟨r, compiled, -, hmodel⟩ := exists_schema_of_mem hresolve hm
  obtain ⟨fields, hfields, -⟩ := bind_eq_ok_iff.1 hmodel
  exact Schema.succeeds_convert_of_identifiedObject hfields _ (Fields.mem_of_get? hschema)

theorem succeeds_migrations_iff {style : NamingStyle} {now : Timestamp} :
    Succeeds (c.migrations style now) ↔
      ∀ m ∈ c.models, Succeeds (m.migration c.registry style now) := by
  rw [migrations, ← succeeds_mapM_iff]
  exact succeeds_bind_iff_left fun ofModels ↦ succeeds_pure _

/-- **Rendering.** A catalog can be rendered, at any time and in either style of names, exactly if
expansion accepts the strays in the schemas that its columns are read off. -/
theorem exists_migrations_iff (hresolve : resolve ds = .ok c)
    (hdistinct : ∀ d ∈ ds, (Json.object d.properties).Distinct) (settings : Settings)
    (now : Timestamp) : (∃ ms, c.migrations settings.namingStyle now = .ok ms) ↔
      ∀ m ∈ c.models, ∀ name schema, m.properties.get? name = some schema → m.ReadsSchema name →
        ∀ w part, Relation.ReflTransGen Schema.Holds schema w → Schema.Strays w part →
          ∃ e, Schema.expand part = .ok e := by
  refine succeeds_migrations_iff.trans (forall₂_congr fun m hm ↦ ?_)
  obtain ⟨d, hd, hdescribes⟩ := (holds_of_resolve hresolve).exists_describes hm
  have hproperties : (Json.object m.properties).Distinct :=
    hdescribes.properties_eq ▸ ModelDefinition.distinct_object_allProperties (hdistinct d hd)
  rw [Model.succeeds_migration_iff (Json.distinct_object_iff.1 hproperties).1]
  refine forall₂_congr fun name schema ↦ forall_congr' fun hschema ↦ forall_congr' fun _ ↦ ?_
  exact Schema.succeeds_expand_iff_of_convert (hproperties.of_get? hschema)
    (succeeds_convert_of_mem hresolve hm hschema)

/-- Notes whose text is declared to be a string, with items nevertheless. -/
def notesWithItems (items : Json) : List ModelDefinition :=
  [⟨"Note", none, none, false,
    [("text", .object [("type", .string "string"), ("items", items)])], [], []⟩]

theorem exists_migrations_iff_notesWithItems : ∃ c,
    resolve (notesWithItems (.string "integer")) = .ok c ∧
      (∃ ms, c.migrations (Settings.namingStyle ⟨false, false⟩) ⟨2024, 3, 9, 8, 5, 7⟩ = .ok ms) ∧
      ∀ m ∈ c.models, ∀ name schema, m.properties.get? name = some schema → m.ReadsSchema name →
        ∀ w part, Relation.ReflTransGen Schema.Holds schema w → Schema.Strays w part →
          ∃ e, Schema.expand part = .ok e := by
  have hdistinct : ∀ d ∈ notesWithItems (.string "integer"),
      (Json.object d.properties).Distinct := by
    simp [notesWithItems]
  have hok : (resolve (notesWithItems (.string "integer"))).toOption.any
      (fun c ↦ (c.migrations ⟨false⟩ ⟨2024, 3, 9, 8, 5, 7⟩).toBool) := by decide +kernel
  obtain ⟨c, hresolve, hrender⟩ := exists_of_any hok
  cases h : c.migrations ⟨false⟩ ⟨2024, 3, 9, 8, 5, 7⟩ with
  | error e => simp [h, Except.toBool] at hrender
  | ok ms =>
    have hiff := exists_migrations_iff hresolve hdistinct ⟨false, false⟩ ⟨2024, 3, 9, 8, 5, 7⟩
    exact ⟨c, hresolve, ⟨ms, h⟩, hiff.1 ⟨ms, h⟩⟩

/-- `null` is no schema, but it is not read when the notes are resolved: a string has no items. -/
theorem not_exists_migrations_notesWithItems : ∃ c, resolve (notesWithItems .null) = .ok c ∧
    ¬∃ ms, c.migrations (Settings.namingStyle ⟨false, false⟩) ⟨2024, 3, 9, 8, 5, 7⟩ = .ok ms := by
  have hok : (resolve (notesWithItems .null)).toOption.any
      (fun c ↦ !(c.migrations ⟨false⟩ ⟨2024, 3, 9, 8, 5, 7⟩).toBool) := by decide +kernel
  obtain ⟨c, hresolve, hrender⟩ := exists_of_any hok
  refine ⟨c, hresolve, fun ⟨ms, hms⟩ ↦ ?_⟩
  have hmigrations : c.migrations ⟨false⟩ ⟨2024, 3, 9, 8, 5, 7⟩ = .ok ms := hms
  simp [hmigrations, Except.toBool] at hrender

end Catalog

end ModelCatalog
