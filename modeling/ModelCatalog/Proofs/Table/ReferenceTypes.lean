import ModelCatalog.Proofs.Table.ForeignKeys
import ModelCatalog.Proofs.Table.Rendering

/-!
# Types of references

A column that refers to another one holds integers, whatever that other column holds. The two have
one type where the referenced column is a serial number, a reference itself, part of a key that
nobody has declared, or declared to be an integer.
-/

namespace ModelCatalog

open Outcome

private theorem JsonType.ofName?_eq_integer_iff {name : String} :
    ofName? name = some .integer ↔ name = "integer" := by
  constructor
  · intro h
    rw [ofName?] at h
    repeat' split at h
    all_goals simp_all
  · rintro rfl
    rfl

namespace Sql.ColumnType

/-- The type of the values in a column: a serial number is an integer. -/
def stored : ColumnType → ColumnType
  | .serial => .integer
  | type => type

/-- No other name of a type is one of integers. -/
theorem stored_ofTypeName_eq_integer_iff {name : String} :
    (ofTypeName name).stored = .integer ↔ name = "integer" := by
  rw [← JsonType.ofName?_eq_integer_iff, ofTypeName, DeclaredType.ofName]
  cases hname : JsonType.ofName? name with
  | some type => cases type <;> simp [stored]
  | none =>
    dsimp only
    by_cases hdate : name ∈ dateNames
    · rw [if_pos hdate]
      by_cases hday : name = "date" <;> simp [stored, hday]
    · rw [if_neg hdate]
      simp [stored]

theorem stored_ofSchema_eq_integer_iff {schema : Json} :
    (ofSchema schema).stored = .integer ↔ schema.get? "type" = some (.string "integer") := by
  rw [ofSchema]
  cases htype : schema.get? "type" with
  | none => simp [stored]
  | some value =>
    cases value with
    | string name => simpa using stored_ofTypeName_eq_integer_iff
    | _ => simp [Json.string?, stored]

end Sql.ColumnType

namespace Model

variable {registry : Registry} {style : NamingStyle} {m : Model} {column : Column}
  {columns : List Column} {property : String}

/-- If a column is read off the schema of the property, it is one of integers. -/
def HoldsIntegers (m : Model) (property : String) : Prop :=
  ∀ schema, m.properties.get? property = some schema → m.ReadsSchema property →
    ∃ expanded, Schema.expand schema = .ok expanded ∧
      expanded.get? "type" = some (.string "integer")

theorem holdsIntegers_iff {schema expanded : Json}
    (hschema : m.properties.get? property = some schema) (hreads : m.ReadsSchema property)
    (hexpanded : Schema.expand schema = .ok expanded) :
    m.HoldsIntegers property ↔ expanded.get? "type" = some (.string "integer") := by
  constructor
  · intro h
    obtain ⟨expanded', hexpanded', htype⟩ := h schema hschema hreads
    obtain rfl := Except.ok.inj (hexpanded.symm.trans hexpanded')
    exact htype
  · intro htype schema' hschema' _
    obtain rfl := Option.some.inj (hschema.symm.trans hschema')
    exact ⟨expanded, hexpanded, htype⟩

/-! ## Types of columns -/

private theorem stored_of_keyColumn (hstyle : style.normalize = false)
    (hcomposite : m.hasCompositeKey)
    (h : m.keyColumn style property = .ok column) :
    column.type.stored = .integer ↔ m.HoldsIntegers column.name := by
  obtain ⟨type, htype, h⟩ := bind_eq_ok_iff.1 h
  obtain rfl := pure_eq_ok_iff.1 h
  rw [NamingStyle.apply_eq_id hstyle]
  change type.stored = .integer ↔ m.HoldsIntegers property
  cases hget : m.properties.get? property with
  | none =>
    rw [hget] at htype
    obtain rfl := Except.ok.inj htype
    exact iff_of_true rfl fun schema hschema ↦ absurd (hget.symm.trans hschema) (by simp)
  | some schema =>
    rw [hget] at htype
    obtain ⟨expanded, hexpanded, rfl⟩ := map_eq_ok_iff.1 htype
    rw [holdsIntegers_iff hget (.inl hcomposite) (mapError_eq_ok_iff.1 hexpanded),
      Sql.ColumnType.stored_ofSchema_eq_integer_iff]

private theorem stored_of_mem_keyColumns (hstyle : style.normalize = false)
    (h : m.keyColumns style = .ok columns) (hcolumn : column ∈ columns) :
    column.type.stored = .integer ↔ m.HoldsIntegers column.name := by
  rw [keyColumns] at h
  split at h
  · rename_i hcomposite
    obtain ⟨property, -, hproperty⟩ := exists_left_of_forall₂ (mapM_eq_ok_iff.1 h) hcolumn
    exact stored_of_keyColumn hstyle hcomposite hproperty
  · -- a single property has a serial number, and its schema is not read
    rename_i hsingle
    obtain rfl := Except.ok.inj h
    obtain ⟨property, hid, rfl⟩ := List.mem_map.1 hcolumn
    rw [NamingStyle.apply_eq_id hstyle]
    exact iff_of_true rfl fun _ _ hreads ↦ absurd (hreads.resolve_left hsingle) (not_not.2 hid)

private theorem stored_of_mem_foreignKeyColumns (hstyle : style.normalize = false)
    (hcolumn : column ∈ m.foreignKeyColumns registry style) :
    column.type = .integer ∧ m.HoldsIntegers column.name := by
  obtain ⟨⟨property, key⟩, hmem, rfl⟩ := List.mem_map.1 hcolumn
  refine ⟨rfl, fun schema hschema ↦ ?_⟩
  rw [NamingStyle.apply_eq_id hstyle] at hschema
  have hdeclared := (mem_keys_foreignKeys_iff.1 (List.mem_map_of_mem hmem)).2.2
  exact absurd (Fields.contains_iff_mem_keys.1 (Option.isSome_of_eq_some hschema)) hdeclared

private theorem stored_of_mem_propertyColumns (hstyle : style.normalize = false)
    (hproperties : m.properties.Distinct) (h : m.propertyColumns style = .ok columns)
    (hcolumn : column ∈ columns) :
    column.type.stored = .integer ↔ m.HoldsIntegers column.name := by
  obtain ⟨⟨property, schema⟩, hproperty, hid, hentry⟩ := (mem_propertyColumns_iff h).1 hcolumn
  obtain ⟨expanded, hexpanded, -, rfl⟩ := propertyColumn?_eq_ok_some_iff.1 hentry
  rw [NamingStyle.apply_eq_id hstyle]
  have hget := (Fields.get?_eq_some_iff_mem hproperties).2 hproperty
  exact Sql.ColumnType.stored_ofSchema_eq_integer_iff.trans
    (holdsIntegers_iff hget (.inr hid) (mapError_eq_ok_iff.1 hexpanded)).symm

theorem stored_of_mem_columns (hstyle : style.normalize = false)
    (hproperties : m.properties.Distinct) {now : Timestamp} {mig : Migration}
    (h : m.migration registry style now = .ok mig) (hcolumn : column ∈ mig.table.columns) :
    column.type.stored = .integer ↔ m.HoldsIntegers column.name := by
  obtain ⟨t, ht, rfl⟩ := migration_eq_ok_iff.1 h
  obtain ⟨keys, hkeys, properties, hcolumns, rfl⟩ := table_eq_ok_iff.1 ht
  rw [List.mem_append, List.mem_append] at hcolumn
  rcases hcolumn with (hcolumn | hcolumn) | hcolumn
  · exact stored_of_mem_keyColumns hstyle hkeys hcolumn
  · obtain ⟨htype, hholds⟩ := stored_of_mem_foreignKeyColumns hstyle hcolumn
    exact iff_of_true (by rw [htype]; rfl) hholds
  · exact stored_of_mem_propertyColumns hstyle hproperties hcolumns hcolumn

end Model

theorem Relation.type_of_mem_columns {registry : Registry} {style : NamingStyle} {r : Relation}
    {table : Table} (h : r.joinTable? registry style = some table) {column : Column}
    (hcolumn : column ∈ table.columns) : column.type = .integer := by
  have hside : ∀ {own target : Key} {columns : List Column},
      joinColumns? registry style own target = some columns → column ∈ columns →
        column.type = .integer := by
    intro own target columns hcolumns hmem
    obtain ⟨pair, -, hpair⟩ := exists_left_of_forall₂ (mapM_eq_some_iff.1 hcolumns) hmem
    obtain ⟨table, name, model, property, -, -, rfl⟩ := joinColumn?_eq_some_iff.1 hpair
    rfl
  obtain ⟨t, -, -, -, source, hsource, target, htarget, rfl⟩ := joinTable?_eq_some_iff.1 h
  rcases List.mem_append.1 hcolumn with hcolumn | hcolumn
  · exact hside hsource hcolumn
  · exact hside htarget hcolumn

/-! ## Catalogs -/

namespace Catalog

variable {ds : List ModelDefinition} {c : Catalog} {style : NamingStyle} {now : Timestamp}
  {ms : List Migration} {mig : Migration}

private theorem type_of_mem_joinMigration {r : Relation}
    (h : r.joinMigration? c.registry style now = some mig) {column : Column}
    (hcolumn : column ∈ mig.table.columns) : column.type = .integer := by
  obtain ⟨table, htable, rfl⟩ := joinMigration?_eq_some_iff.1 h
  exact Relation.type_of_mem_columns htable hcolumn

/-- What refers to another column holds integers. -/
theorem type_of_references (h : c.migrations style now = .ok ms) (hmig : mig ∈ ms)
    {column : Column} (hcolumn : column ∈ mig.table.columns) {key : ForeignKey}
    (href : column.references = some key) : column.type = .integer := by
  rcases (mem_migrations_iff h).1 hmig with ⟨m, -, hmig⟩ | ⟨-, hfirst⟩
  · obtain ⟨entry, -, rfl⟩ :=
      List.mem_map.1 (Model.mem_foreignKeyColumns_of_references hmig hcolumn href)
    rfl
  · obtain ⟨r, -, hr⟩ := Option.bind_eq_some_iff.1 hfirst
    exact type_of_mem_joinMigration hr hcolumn

/-- A column holds integers if the property that it is named after does, on the model of the table.
The tables have distinct names, so that there is one such model at most. -/
theorem stored_eq_integer_iff (hresolve : resolve ds = .ok c)
    (hproperties : ∀ d ∈ ds, d.properties.Distinct) (htables : (c.models.map (·.tableName)).Nodup)
    (hstyle : style.normalize = false) (h : c.migrations style now = .ok ms) (hmig : mig ∈ ms)
    {column : Column} (hcolumn : column ∈ mig.table.columns) :
    column.type.stored = .integer ↔
      ∀ m ∈ c.models, m.tableName = mig.table.name → m.HoldsIntegers column.name := by
  rcases (mem_migrations_iff h).1 hmig with ⟨m, hm, hmig⟩ | ⟨hnone, hfirst⟩
  · obtain ⟨d, hd, hdescribes⟩ := (holds_of_resolve hresolve).exists_describes hm
    have hname : mig.table.name = m.tableName := by
      rw [Model.name_of_migration hmig, NamingStyle.apply_eq_id hstyle, id]
    rw [Model.stored_of_mem_columns hstyle (hdescribes.distinct_properties (hproperties d hd)) hmig
      hcolumn]
    refine ⟨fun hholds n hn hname' ↦ ?_, fun hall ↦ hall m hm hname.symm⟩
    obtain rfl := List.inj_on_of_nodup_map htables hn hm (hname'.trans hname)
    exact hholds
  · -- no model has the name of a join table
    obtain ⟨r, -, hr⟩ := Option.bind_eq_some_iff.1 hfirst
    refine iff_of_true (by rw [type_of_mem_joinMigration hr hcolumn]; rfl) fun m hm hname ↦ ?_
    rw [NamingStyle.apply_eq_id hstyle] at hnone
    exact absurd hname (hnone m hm)

/-- **Types of references.** A column that refers to another one is declared to be an integer. So it
has the type of that other column exactly if the schema that the latter is read off, if any, is one
of integers. -/
theorem stored_eq_stored_iff (hresolve : resolve ds = .ok c)
    (hproperties : ∀ d ∈ ds, d.properties.Distinct) (htables : (c.models.map (·.tableName)).Nodup)
    {settings : Settings} (hplain : settings.normalizeDbNames = false)
    (h : c.migrations settings.namingStyle now = .ok ms) :
    ∀ mig ∈ ms, ∀ column ∈ mig.table.columns, ∀ key, column.references = some key →
      column.type = .integer ∧
        ∀ target ∈ ms, target.table.name = key.table →
          ∀ referenced ∈ target.table.columns, referenced.name = key.column →
            (column.type.stored = referenced.type.stored ↔
              ∀ m ∈ c.models, m.tableName = key.table → m.HoldsIntegers key.column) := by
  intro mig hmig column hcolumn key href
  have htype := type_of_references h hmig hcolumn href
  refine ⟨htype, ?_⟩
  rintro target htarget hname referenced hreferenced hname'
  have hinteger : column.type.stored = .integer := by rw [htype]; rfl
  rw [hinteger, eq_comm,
    stored_eq_integer_iff hresolve hproperties htables hplain h htarget hreferenced, hname, hname']

/-- The references of authors. -/
theorem stored_eq_stored_iff_authorsAndBooks : ∃ c, resolve authorsAndBooks = .ok c ∧
    (∀ d ∈ authorsAndBooks, d.properties.Distinct) ∧ (c.models.map (·.tableName)).Nodup ∧
      ∃ ms, c.migrations (Settings.namingStyle ⟨false, false⟩) ⟨2024, 3, 9, 8, 5, 7⟩ = .ok ms ∧
        ∀ mig ∈ ms, ∀ column ∈ mig.table.columns, ∀ key, column.references = some key →
          column.type = .integer ∧
            ∀ target ∈ ms, target.table.name = key.table →
              ∀ referenced ∈ target.table.columns, referenced.name = key.column →
                (column.type.stored = referenced.type.stored ↔
                  ∀ m ∈ c.models, m.tableName = key.table → m.HoldsIntegers key.column) := by
  have hmigrate : (resolve authorsAndBooks).toOption.any fun c ↦
      (c.migrations ⟨false⟩ ⟨2024, 3, 9, 8, 5, 7⟩).toOption.any fun _ ↦
        decide (c.models.map (·.tableName)).Nodup := by
    decide +kernel
  obtain ⟨c, hc, hmigrate⟩ := exists_of_any hmigrate
  obtain ⟨ms, hms, htables⟩ := exists_of_any hmigrate
  have hproperties : ∀ d ∈ authorsAndBooks, d.properties.Distinct := by
    simp [authorsAndBooks]
  have hplain : (⟨false, false⟩ : Settings).normalizeDbNames = false := rfl
  exact ⟨c, hc, hproperties, of_decide_eq_true htables, ms, hms,
    stored_eq_stored_iff hc hproperties (of_decide_eq_true htables) hplain hms⟩

end Catalog

/-- Pages with their tags, both of which two texts identify. -/
def pagesAndTags : List ModelDefinition :=
  let tags : RelationDefinition := ⟨"many-to-many", some (.composite ["Page.site", "Page.slug"]),
    some (.composite ["Tag.realm", "Tag.name"]), none, false, none, none, none, none, []⟩
  [⟨"Page", none, some (.composite ["site", "slug"]), false,
      [("site", .string "string"), ("slug", .string "string")], [("tags", tags)], []⟩,
    ⟨"Tag", none, some (.composite ["realm", "name"]), false,
      [("realm", .string "string"), ("name", .string "string")], [], []⟩]

namespace Catalog

/-- The join table of pages and tags refers to texts by integers. -/
theorem exists_stored_ne_stored_pagesAndTags : ∃ c, resolve pagesAndTags = .ok c ∧
    (∀ d ∈ pagesAndTags, d.properties.Distinct) ∧ (c.models.map (·.tableName)).Nodup ∧
      ∃ ms, c.migrations (Settings.namingStyle ⟨false, false⟩) ⟨2024, 3, 9, 8, 5, 7⟩ = .ok ms ∧
        ∃ mig ∈ ms, ∃ column ∈ mig.table.columns, ∃ key, column.references = some key ∧
          ∃ target ∈ ms, target.table.name = key.table ∧
            ∃ referenced ∈ target.table.columns, referenced.name = key.column ∧
              column.type.stored ≠ referenced.type.stored := by
  have hproperties : ∀ d ∈ pagesAndTags, d.properties.Distinct := by
    simp [pagesAndTags]
  have hmigrate : (resolve pagesAndTags).toOption.any fun c ↦
      (c.migrations ⟨false⟩ ⟨2024, 3, 9, 8, 5, 7⟩).toOption.any fun ms ↦
        decide (c.models.map (·.tableName)).Nodup &&
          ms.any fun mig ↦ mig.table.columns.any fun column ↦ column.references.any fun key ↦
            ms.any fun target ↦ target.table.columns.any fun referenced ↦
              decide (target.table.name = key.table ∧ referenced.name = key.column ∧
                column.type.stored ≠ referenced.type.stored) := by
    decide +kernel
  obtain ⟨c, hc, hmigrate⟩ := exists_of_any hmigrate
  obtain ⟨ms, hms, hmigrate⟩ := exists_of_any hmigrate
  obtain ⟨htables, hmigrate⟩ := Bool.and_eq_true_iff.1 hmigrate
  obtain ⟨mig, hmig, hmigrate⟩ := List.any_eq_true.1 hmigrate
  obtain ⟨column, hcolumn, hmigrate⟩ := List.any_eq_true.1 hmigrate
  obtain ⟨key, href, hmigrate⟩ := (Option.any_eq_true _ _).1 hmigrate
  obtain ⟨target, htarget, hmigrate⟩ := List.any_eq_true.1 hmigrate
  obtain ⟨referenced, hreferenced, hmigrate⟩ := List.any_eq_true.1 hmigrate
  obtain ⟨hname, hname', hne⟩ := of_decide_eq_true hmigrate
  exact ⟨c, hc, hproperties, of_decide_eq_true htables, ms, hms, mig, hmig, column, hcolumn, key,
    href, target, htarget, hname, referenced, hreferenced, hname', hne⟩

end Catalog

end ModelCatalog
