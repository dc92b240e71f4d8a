import Mathlib.Tactic.Tauto
import ModelCatalog.Proofs.Outcome
import ModelCatalog.Proofs.Table.FirstOfName

/-!
# The columns of a model's table

The table of a model has a column for each identifying property, for each foreign key, and for each
other declared property whose value is not computed, in this order. A foreign key is a property that
is neither identifying nor declared and that some relation of the model joins on alone: a single
property on this side, a single one on the other.

## Columns and references

So every column is a property that queries may refer to. Conversely every property that queries may
refer to is a column, apart from computed ones and from those that relations join on only together
with others.
-/

namespace ModelCatalog

open Outcome

theorem NamingStyle.apply_eq_id {style : NamingStyle} (h : style.normalize = false) :
    style.apply = id := by
  funext name
  simp [apply, h]

theorem Key.single?_eq_some_iff {key : Key} {token : String} :
    key.single? = some token ↔ key = .single token := by
  cases key <;> simp [single?]

namespace Model

variable {registry : Registry} {style : NamingStyle} {m : Model} {property : String}

/-! ## Properties that relations join on -/

theorem mem_ownKeys_iff : property ∈ m.ownKeys ↔ ∃ entry ∈ m.relations,
    ∃ token ∈ entry.2.join.source.tokens, cutReference token = some (m.name, property) := by
  have hkeys : ∀ r : Relation, property ∈ r.ownKeys m.name ↔
      ∃ token ∈ r.join.source.tokens, cutReference token = some (m.name, property) := by
    intro r
    rw [Relation.ownKeys, List.mem_filterMap]
    refine exists_congr fun token ↦ and_congr_right fun _ ↦ ?_
    cases hcut : cutReference token with
    | none => simp
    | some pair =>
      obtain ⟨owner, own⟩ := pair
      by_cases howner : owner = m.name <;> simp [howner]
  simp only [ownKeys, List.mem_flatMap, hkeys]

theorem hasProperty_iff : m.hasProperty property ↔
    property ∈ m.properties.keys ∨ property ∈ m.idProperties ∨ property ∈ m.ownKeys := by
  rw [hasProperty, Bool.or_eq_true, Bool.or_eq_true, Fields.contains_iff_mem_keys,
    List.contains_iff_mem, List.contains_iff_mem, or_assoc]

/-- Some relation of the model joins on the property alone: on this property and no other, and on
one property of the other side. -/
def JoinsAlone (m : Model) (property : String) : Prop :=
  ∃ entry ∈ m.relations, ∃ source target, entry.2.join.source = .single source ∧
    cutReference source = some (m.name, property) ∧
    entry.2.join.target = .single target ∧ (cutReference target).isSome

theorem JoinsAlone.mem_ownKeys (h : m.JoinsAlone property) : property ∈ m.ownKeys := by
  obtain ⟨entry, hentry, source, -, hsource, hcut, -, -⟩ := h
  exact mem_ownKeys_iff.2 ⟨entry, hentry, source, by simp [hsource, Key.tokens], hcut⟩

/-! ## Foreign keys -/

theorem foreignKey?_eq_some_iff {r : Relation} {key : ForeignKey} :
    m.foreignKey? registry style r = some (property, key) ↔
      ∃ source target table column, r.join.source = .single source ∧
        cutReference source = some (m.name, property) ∧ r.join.target = .single target ∧
        cutReference target = some (table, column) ∧ property ∉ m.idProperties ∧
        property ∉ m.properties.keys ∧
        key = ⟨style.apply (registry.tableOf table), style.apply column, false⟩ := by
  have hguard : ∀ owner own : String,
      (decide (owner ≠ m.name) || m.idProperties.contains own || m.properties.contains own) = true ↔
        ¬(owner = m.name ∧ own ∉ m.idProperties ∧ own ∉ m.properties.keys) := by
    intro owner own
    rw [Bool.or_eq_true, Bool.or_eq_true, Fields.contains_iff_mem_keys, List.contains_iff_mem,
      decide_eq_true_iff]
    tauto
  simp only [foreignKey?, Option.bind_eq_bind, Option.bind_eq_some_iff, Key.single?_eq_some_iff,
    hguard, ite_not]
  constructor
  · rintro ⟨source, hsource, ⟨owner, own⟩, hcut, target, htarget, ⟨table, column⟩, hcut', h⟩
    split at h
    · rename_i hfree
      obtain ⟨rfl, rfl⟩ := Prod.mk.inj (Option.some.inj h)
      obtain ⟨rfl, hid, hdeclared⟩ := hfree
      exact ⟨source, target, table, column, hsource, hcut, htarget, hcut', hid, hdeclared, rfl⟩
    · cases h
  · rintro ⟨source, target, table, column, hsource, hcut, htarget, hcut', hid, hdeclared, rfl⟩
    exact ⟨source, hsource, _, hcut, target, htarget, _, hcut', if_pos ⟨rfl, hid, hdeclared⟩⟩

/-- The foreign keys of a model are the properties, neither identifying nor declared, that some
relation joins on alone. -/
theorem mem_keys_foreignKeys_iff : property ∈ (m.foreignKeys registry style).keys ↔
    m.JoinsAlone property ∧ property ∉ m.idProperties ∧ property ∉ m.properties.keys := by
  have hkeys : property ∈ (m.foreignKeys registry style).keys ↔
      ∃ entry ∈ m.relations, ∃ key,
        m.foreignKey? registry style entry.2 = some (property, key) := by
    rw [Fields.keys, foreignKeys_eq_appendNew, mem_names_appendNew_iff, List.map_nil]
    simp only [List.not_mem_nil, false_or, List.mem_map, List.mem_filterMap, Prod.exists,
      exists_and_right, exists_eq_right]
    constructor
    · rintro ⟨key, name, r, hr, h⟩
      exact ⟨name, r, hr, key, h⟩
    · rintro ⟨name, r, hr, key, h⟩
      exact ⟨key, name, r, hr, h⟩
  rw [hkeys]
  constructor
  · rintro ⟨entry, hentry, key, h⟩
    obtain ⟨source, target, table, column, hsource, hcut, htarget, hcut', hid, hdeclared, -⟩ :=
      foreignKey?_eq_some_iff.1 h
    exact ⟨⟨entry, hentry, source, target, hsource, hcut, htarget, by simp [hcut']⟩, hid, hdeclared⟩
  · rintro ⟨⟨entry, hentry, source, target, hsource, hcut, htarget, hcut'⟩, hid, hdeclared⟩
    obtain ⟨⟨table, column⟩, hcut'⟩ := Option.isSome_iff_exists.1 hcut'
    exact ⟨entry, hentry, _, foreignKey?_eq_some_iff.2
      ⟨source, target, table, column, hsource, hcut, htarget, hcut', hid, hdeclared, rfl⟩⟩

theorem nodup_keys_foreignKeys : (m.foreignKeys registry style).keys.Nodup := by
  rw [Fields.keys, foreignKeys_eq_appendNew]
  exact nodup_names_appendNew _ (by simp)

/-! ## Declared properties

A declared property has a column unless it identifies, in which case it has one already, or its
value is computed. -/

/-- The value of a declared property with this schema is computed, so that no column holds it. -/
def isComputed (m : Model) (schema : Json) : Bool :=
  match m.expandProperty schema with
  | .ok expanded => marks expanded "computed"
  | .error _ => false

/-- The declared properties that have columns of their own: those that neither identify nor are
computed. -/
def storedNames (m : Model) : List String :=
  Fields.keys (m.properties.filter fun entry ↦
    !m.idProperties.contains entry.1 && !m.isComputed entry.2)

theorem mem_storedNames_iff : property ∈ m.storedNames ↔ property ∉ m.idProperties ∧
    ∃ schema, (property, schema) ∈ m.properties ∧ m.isComputed schema = false := by
  simp only [storedNames, Fields.keys, List.mem_map, List.mem_filter, Bool.and_eq_true,
    Bool.not_eq_true', Prod.exists, exists_and_right, exists_eq_right]
  rw [← Bool.not_eq_true, List.contains_iff_mem]
  constructor
  · rintro ⟨schema, hmem, hid, hstored⟩
    exact ⟨hid, schema, hmem, hstored⟩
  · rintro ⟨hid, schema, hmem, hstored⟩
    exact ⟨schema, hmem, hid, hstored⟩

theorem mem_keys_of_mem_storedNames (h : property ∈ m.storedNames) :
    property ∈ m.properties.keys := by
  obtain ⟨-, schema, hschema, -⟩ := mem_storedNames_iff.1 h
  exact List.mem_map.2 ⟨_, hschema, rfl⟩

private theorem map_name_of_propertyColumn? {entry : String × Json} {column? : Option Column}
    (h : m.propertyColumn? style entry = .ok column?) :
    column?.map (·.name) = if m.isComputed entry.2 then none else some (style.apply entry.1) := by
  obtain ⟨expanded, hexpanded, h⟩ := bind_eq_ok_iff.1 h
  rw [isComputed, hexpanded]
  dsimp only at h ⊢
  split at h
  · rename_i hcomputed
    obtain rfl := pure_eq_ok_iff.1 h
    rw [if_pos hcomputed]
    rfl
  · rename_i hcomputed
    obtain rfl := pure_eq_ok_iff.1 h
    rw [if_neg hcomputed]
    rfl

private theorem map_name_of_propertyColumns {columns : List Column}
    (h : m.propertyColumns style = .ok columns) :
    columns.map (·.name) = m.storedNames.map style.apply := by
  obtain ⟨columns?, hcolumns, h⟩ := bind_eq_ok_iff.1 h
  obtain rfl := pure_eq_ok_iff.1 h
  have hnames := map_eq_map_of_forall₂ (mapM_eq_ok_iff.1 hcolumns) fun entry column? hentry ↦
    (map_name_of_propertyColumn? hentry).symm
  calc (columns?.filterMap id).map (·.name)
      = (columns?.map (Option.map (·.name))).filterMap id := by
        rw [List.map_filterMap, List.filterMap_map]
        rfl
    _ = (m.properties.filter fun entry ↦ !m.idProperties.contains entry.1).filterMap
          fun entry ↦ if m.isComputed entry.2 then none else some (style.apply entry.1) := by
        rw [← hnames, List.filterMap_map]
        rfl
    _ = m.storedNames.map style.apply := by
        rw [storedNames, Fields.keys, List.map_map, ← List.filterMap_eq_map, List.filterMap_filter,
          List.filterMap_filter]
        refine List.filterMap_congr fun entry _ ↦ ?_
        cases m.idProperties.contains entry.1 <;> cases m.isComputed entry.2 <;> rfl

theorem propertyColumn?_eq_ok_some_iff {entry : String × Json} {column : Column} :
    m.propertyColumn? style entry = .ok (some column) ↔
      ∃ expanded, m.expandProperty entry.2 = .ok expanded ∧ marks expanded "computed" = false ∧
        column = { Column.plain (style.apply entry.1) (.ofSchema expanded) with
          notNull := marks expanded "required"
          unique := marks expanded "unique"
          default := (expanded.get? "default").bind Sql.Default.ofJson? } := by
  refine bind_eq_ok_iff.trans (exists_congr fun expanded ↦ and_congr_right fun _ ↦ ?_)
  split
  · rename_i hcomputed
    simp [hcomputed]
  · rename_i hcomputed
    simp [hcomputed, eq_comm (a := column)]

/-- The columns of the declared properties, each with the property that it is of. -/
theorem mem_propertyColumns_iff {columns : List Column} (h : m.propertyColumns style = .ok columns)
    {column : Column} : column ∈ columns ↔ ∃ entry ∈ m.properties, entry.1 ∉ m.idProperties ∧
      m.propertyColumn? style entry = .ok (some column) := by
  obtain ⟨columns?, hcolumns, h⟩ := bind_eq_ok_iff.1 h
  obtain rfl := pure_eq_ok_iff.1 h
  have hread := mapM_eq_ok_iff.1 hcolumns
  rw [List.mem_filterMap]
  constructor
  · rintro ⟨column?, hmem, rfl⟩
    obtain ⟨entry, hentry, hcolumn⟩ := exists_left_of_forall₂ hread hmem
    obtain ⟨hentry, hid⟩ := List.mem_filter.1 hentry
    exact ⟨entry, hentry, by simpa using hid, hcolumn⟩
  · rintro ⟨entry, hentry, hid, hcolumn⟩
    have hdeclared : entry ∈ m.properties.filter fun entry ↦ !m.idProperties.contains entry.1 :=
      List.mem_filter.2 ⟨hentry, by simpa using hid⟩
    obtain ⟨column?, hmem, hcolumn?⟩ := exists_right_of_forall₂ hread hdeclared
    exact ⟨column?, hmem, Except.ok.inj (hcolumn?.symm.trans hcolumn)⟩

/-! ## Identifying properties -/

private theorem map_name_of_keyColumns {columns : List Column}
    (h : m.keyColumns style = .ok columns) :
    columns.map (·.name) = m.idProperties.map style.apply := by
  rw [keyColumns] at h
  split at h
  · refine (map_eq_map_of_forall₂ (mapM_eq_ok_iff.1 h) fun key column hcolumn ↦ ?_).symm
    obtain ⟨type, -, hcolumn⟩ := bind_eq_ok_iff.1 hcolumn
    obtain rfl := pure_eq_ok_iff.1 hcolumn
    rfl
  · obtain rfl := Except.ok.inj h
    rw [List.map_map]
    rfl

/-! ## The whole table -/

theorem table_eq_ok_iff {t : Table} : m.table registry style = .ok t ↔
    ∃ keys, m.keyColumns style = .ok keys ∧
      ∃ properties, m.propertyColumns style = .ok properties ∧
        t = ⟨style.apply m.tableName, keys ++ m.foreignKeyColumns registry style ++ properties,
          if m.hasCompositeKey then some (m.idProperties.map style.apply) else none⟩ := by
  simp only [table, bind_eq_ok_iff, pure_eq_ok_iff, eq_comm (a := t)]

theorem migration_eq_ok_iff {now : Timestamp} {mig : Migration} :
    m.migration registry style now = .ok mig ↔
      ∃ t, m.table registry style = .ok t ∧ mig = ⟨t, now⟩ := by
  simp only [migration, bind_eq_ok_iff, pure_eq_ok_iff, eq_comm (a := mig)]

theorem name_of_migration {now : Timestamp} {mig : Migration}
    (h : m.migration registry style now = .ok mig) :
    mig.table.name = style.apply m.tableName := by
  obtain ⟨t, ht, rfl⟩ := migration_eq_ok_iff.1 h
  obtain ⟨keys, -, properties, -, rfl⟩ := table_eq_ok_iff.1 ht
  rfl

/-- The columns of a model's table, in order. -/
theorem columnNames_table {t : Table} (h : m.table registry style = .ok t) :
    t.columnNames = (m.idProperties ++ (m.foreignKeys registry style).keys ++ m.storedNames).map
      style.apply := by
  obtain ⟨keys, hkeys, properties, hproperties, rfl⟩ := table_eq_ok_iff.1 h
  have hforeign : (m.foreignKeyColumns registry style).map (·.name) =
      (m.foreignKeys registry style).keys.map style.apply := by
    rw [foreignKeyColumns, Fields.keys, List.map_map, List.map_map]
    rfl
  rw [Table.columnNames, List.map_append, List.map_append, map_name_of_keyColumns hkeys, hforeign,
    map_name_of_propertyColumns hproperties, List.map_append, List.map_append]

theorem mem_columnNames_table_iff {t : Table} (hstyle : style.normalize = false)
    (h : m.table registry style = .ok t) : property ∈ t.columnNames ↔ property ∈ m.idProperties ∨
      (m.JoinsAlone property ∧ property ∉ m.idProperties ∧ property ∉ m.properties.keys) ∨
        property ∈ m.storedNames := by
  rw [columnNames_table h, NamingStyle.apply_eq_id hstyle, List.map_id, List.mem_append,
    List.mem_append, mem_keys_foreignKeys_iff, or_assoc]

theorem nodup_columnProperties (hids : m.idProperties.Nodup) (hproperties : m.properties.Distinct) :
    (m.idProperties ++ (m.foreignKeys registry style).keys ++ m.storedNames).Nodup := by
  have hstored : m.storedNames.Nodup :=
    List.Nodup.sublist (List.filter_sublist.map _) hproperties
  refine List.nodup_append.2 ⟨List.nodup_append.2 ⟨hids, nodup_keys_foreignKeys, ?_⟩, hstored, ?_⟩
  · rintro p hid q hforeign rfl
    exact (mem_keys_foreignKeys_iff.1 hforeign).2.1 hid
  · rintro p hp q hq rfl
    rcases List.mem_append.1 hp with hp | hp
    · exact (mem_storedNames_iff.1 hq).1 hp
    · exact (mem_keys_foreignKeys_iff.1 hp).2.2 (mem_keys_of_mem_storedNames hq)

theorem nodup_columnNames_table {t : Table} (hstyle : style.normalize = false)
    (hids : m.idProperties.Nodup) (hproperties : m.properties.Distinct)
    (h : m.table registry style = .ok t) : t.columnNames.Nodup := by
  rw [columnNames_table h, NamingStyle.apply_eq_id hstyle, List.map_id]
  exact nodup_columnProperties hids hproperties

/-! ## Columns and properties -/

/-- The property is declared, with a schema by which its value is computed. -/
def Computes (m : Model) (property : String) : Prop :=
  ∃ schema, m.properties.get? property = some schema ∧ m.isComputed schema

/-- The property, neither identifying nor declared, is one that relations of the model join on, but
none of them on it alone. -/
def JoinsNeverAlone (m : Model) (property : String) : Prop :=
  property ∉ m.idProperties ∧ property ∉ m.properties.keys ∧ property ∈ m.ownKeys ∧
    ¬m.JoinsAlone property

private theorem mem_storedNames_of_mem_keys (hdeclared : property ∈ m.properties.keys)
    (hid : property ∉ m.idProperties) (hcomputed : ¬m.Computes property) :
    property ∈ m.storedNames := by
  obtain ⟨schema, hschema⟩ := Option.isSome_iff_exists.1 (Fields.contains_iff_mem_keys.2 hdeclared)
  refine mem_storedNames_iff.2 ⟨hid, schema, Fields.mem_of_get? hschema, ?_⟩
  exact Bool.eq_false_iff.2 fun h ↦ hcomputed ⟨schema, hschema, h⟩

/-- **Columns and properties.** Every column of a model's table is a property that queries may refer
to. Conversely a property that queries may refer to, other than a declared one that is computed, is
a column, unless relations join on it only together with others. -/
theorem columns_eq_properties {settings : Settings} (hplain : settings.normalizeDbNames = false)
    {now : Timestamp} {mig : Migration}
    (h : m.migration registry settings.namingStyle now = .ok mig) :
    (∀ p ∈ mig.table.columnNames, m.hasProperty p) ∧
      ∀ p, m.hasProperty p → ¬m.Computes p →
        (p ∈ mig.table.columnNames ↔ ¬m.JoinsNeverAlone p) := by
  obtain ⟨t, ht, rfl⟩ := migration_eq_ok_iff.1 h
  have hcolumn := fun p ↦ @mem_columnNames_table_iff registry settings.namingStyle m p t hplain ht
  constructor
  · intro p hp
    rw [hasProperty_iff]
    rcases (hcolumn p).1 hp with hid | ⟨hjoins, -, -⟩ | hstored
    · exact .inr (.inl hid)
    · exact .inr (.inr hjoins.mem_ownKeys)
    · exact .inl (mem_keys_of_mem_storedNames hstored)
  · intro p hproperty hcomputed
    rw [hcolumn]
    constructor
    · rintro (hid | ⟨hjoins, -, -⟩ | hstored) ⟨hnotId, hnotDeclared, -, hnever⟩
      · exact hnotId hid
      · exact hnever hjoins
      · exact hnotDeclared (mem_keys_of_mem_storedNames hstored)
    · intro hnot
      by_cases hid : p ∈ m.idProperties
      · exact .inl hid
      by_cases hdeclared : p ∈ m.properties.keys
      · exact .inr (.inr (mem_storedNames_of_mem_keys hdeclared hid hcomputed))
      · -- only a relation can account for the property
        have hown : p ∈ m.ownKeys :=
          ((hasProperty_iff.1 hproperty).resolve_left hdeclared).resolve_left hid
        have hjoins : m.JoinsAlone p := by
          by_contra hnever
          exact hnot ⟨hid, hdeclared, hown, hnever⟩
        exact .inr (.inl ⟨hjoins, hid, hdeclared⟩)

end Model

/-- Orders, each from a shop, which two properties identify, and by a customer. -/
def ordersAtShops : List ModelDefinition :=
  let shop : RelationDefinition := ⟨"belongs-to",
    some (.composite ["Order.shopRealm", "Order.shopCode"]),
    some (.composite ["Shop.realm", "Shop.code"]), none, false, none, none, none, none, []⟩
  let customer : RelationDefinition := ⟨"belongs-to", some (.single "Order.customerId"),
    some (.single "Customer.id"), none, false, none, none, none, none, []⟩
  let isPaid : Json := .object [("type", .string "boolean"), ("computed", .bool true)]
  [⟨"Order", none, none, false, [("total", .string "number"), ("isPaid", isPaid)],
      [("shop", shop), ("customer", customer)], []⟩,
    ⟨"Shop", none, some (.composite ["realm", "code"]), false,
      [("realm", .string "integer"), ("code", .string "integer")], [], []⟩,
    ⟨"Customer", none, none, false, [], [], []⟩]

/-- The columns of the orders against the properties of an order. -/
theorem Model.columns_eq_properties_ordersAtShops :
    ∃ c, Catalog.resolve ordersAtShops = .ok c ∧ ∃ m ∈ c.models, m.name = "Order" ∧
      ∃ mig, m.migration c.registry ⟨false⟩ ⟨2024, 3, 9, 8, 5, 7⟩ = .ok mig ∧
        (∀ p ∈ mig.table.columnNames, m.hasProperty p) ∧
          ∀ p, m.hasProperty p → ¬m.Computes p →
            (p ∈ mig.table.columnNames ↔ ¬m.JoinsNeverAlone p) := by
  have hmigrate : (Catalog.resolve ordersAtShops).toOption.any fun c ↦ c.models.any fun m ↦
      (m.migration c.registry ⟨false⟩ ⟨2024, 3, 9, 8, 5, 7⟩).toOption.any fun _ ↦
        m.name == "Order" := by
    decide +kernel
  obtain ⟨c, hc, hmigrate⟩ := exists_of_any hmigrate
  obtain ⟨m, hm, hmigrate⟩ := List.any_eq_true.1 hmigrate
  obtain ⟨mig, hmig, hname⟩ := exists_of_any hmigrate
  have hplain : (⟨false, false⟩ : Settings).normalizeDbNames = false := rfl
  exact ⟨c, hc, m, hm, beq_iff_eq.1 hname, mig, hmig, columns_eq_properties hplain hmig⟩

/-- An order has the realm of its shop as a property, which is neither declared nor computed, and
yet there is no column for it. -/
theorem Model.hasProperty_not_column_ordersAtShops :
    ∃ c, Catalog.resolve ordersAtShops = .ok c ∧ ∃ m ∈ c.models,
      ∃ mig, m.migration c.registry ⟨false⟩ ⟨2024, 3, 9, 8, 5, 7⟩ = .ok mig ∧
        m.hasProperty "shopRealm" ∧ ¬m.Computes "shopRealm" ∧
          "shopRealm" ∉ mig.table.columnNames := by
  have hmissing : (Catalog.resolve ordersAtShops).toOption.any fun c ↦ c.models.any fun m ↦
      (m.migration c.registry ⟨false⟩ ⟨2024, 3, 9, 8, 5, 7⟩).toOption.any fun mig ↦
        decide (m.hasProperty "shopRealm" ∧ m.properties.get? "shopRealm" = none ∧
          "shopRealm" ∉ mig.table.columnNames) := by
    decide +kernel
  obtain ⟨c, hc, hmissing⟩ := exists_of_any hmissing
  obtain ⟨m, hm, hmissing⟩ := List.any_eq_true.1 hmissing
  obtain ⟨mig, hmig, hmissing⟩ := exists_of_any hmissing
  obtain ⟨hproperty, hundeclared, hcolumn⟩ := of_decide_eq_true hmissing
  refine ⟨c, hc, m, hm, mig, hmig, hproperty, ?_, hcolumn⟩
  rintro ⟨schema, hschema, -⟩
  rw [hundeclared] at hschema
  cases hschema

end ModelCatalog
