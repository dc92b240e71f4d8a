import ModelCatalog.Proofs.Table.CreationOrder

/-!
# Foreign keys and the relations behind them

A column of a model's table is a foreign key if some relation of the model joins on its property
alone, and the model neither declares the property nor identifies by it. The column refers to where
the first such relation leads, whatever the kind of the relation. So a model may have a foreign key
to another that belongs to it, and not the other way round.
-/

namespace ModelCatalog

open Outcome

namespace Model

/-- The relation joins on the property alone, which the model neither declares nor identifies by,
and leads to the column that the foreign key refers to. -/
structure Implies (m : Model) (registry : Registry) (style : NamingStyle) (r : Relation)
    (property : String) (key : ForeignKey) : Prop where
  source : ∃ token, r.join.source = .single token ∧ cutReference token = some (m.name, property)
  not_identifying : property ∉ m.idProperties
  not_declared : property ∉ m.properties.keys
  target : ∃ token table column, r.join.target = .single token ∧
    cutReference token = some (table, column) ∧
    key = ⟨style.apply (registry.tableOf table), style.apply column, false⟩

/-- The first relation of the model that implies a foreign key on the property, by its name. -/
def firstImplying? (m : Model) (registry : Registry) (style : NamingStyle) (property : String) :
    Option (String × Relation) :=
  m.relations.find? fun entry ↦ (m.foreignKey? registry style entry.2).any (·.1 == property)

/-- The column is a property on which a relation implies the foreign key, and by this relation the
model belongs to another. -/
def BelongsBy (m : Model) (registry : Registry) (style : NamingStyle) (column : String)
    (key : ForeignKey) : Prop :=
  ∃ entry ∈ m.relations, entry.2.kind = .belongsToOne ∧
    ∃ property, style.apply property = column ∧ m.Implies registry style entry.2 property key

variable {registry : Registry} {style : NamingStyle} {m : Model} {property : String}
  {key : ForeignKey}

private theorem foreignKey?_eq_some_iff_implies {r : Relation} :
    m.foreignKey? registry style r = some (property, key) ↔
      m.Implies registry style r property key := by
  rw [foreignKey?_eq_some_iff]
  constructor
  · rintro ⟨source, target, table, column, hsource, hcut, htarget, hcut', hid, hdeclared, hkey⟩
    exact ⟨⟨source, hsource, hcut⟩, hid, hdeclared, target, table, column, htarget, hcut', hkey⟩
  · rintro ⟨⟨source, hsource, hcut⟩, hid, hdeclared, target, table, column, htarget, hcut', hkey⟩
    exact ⟨source, target, table, column, hsource, hcut, htarget, hcut', hid, hdeclared, hkey⟩

/-- For each property the first relation decides where the foreign key leads. -/
theorem mem_foreignKeys_iff : (property, key) ∈ m.foreignKeys registry style ↔
    ∃ entry, m.firstImplying? registry style property = some entry ∧
      m.Implies registry style entry.2 property key := by
  rw [foreignKeys_eq_appendNew, mem_appendNew_iff, List.find?_filterMap]
  simp only [List.not_mem_nil, List.map_nil, not_false_eq_true, true_and, false_or,
    Option.bind_eq_some_iff, foreignKey?_eq_some_iff_implies, firstImplying?]

/-- **References.** The columns of a model's table that refer to others are the properties on which
some relation implies a foreign key, and they refer to where the first such relation leads. -/
theorem references_iff {now : Timestamp} {mig : Migration}
    (h : m.migration registry style now = .ok mig) {name : String} :
    (∃ column ∈ mig.table.columns, column.name = name ∧ column.references = some key) ↔
      ∃ property entry, style.apply property = name ∧
        m.firstImplying? registry style property = some entry ∧
        m.Implies registry style entry.2 property key := by
  constructor
  · rintro ⟨column, hcolumn, hname, href⟩
    have hforeign := mem_foreignKeyColumns_of_references h hcolumn href
    obtain ⟨⟨property, key'⟩, hmem, rfl⟩ := List.mem_map.1 hforeign
    obtain rfl := Option.some.inj href
    obtain ⟨entry, hfirst, himplies⟩ := mem_foreignKeys_iff.1 hmem
    exact ⟨property, entry, hname, hfirst, himplies⟩
  · rintro ⟨property, entry, hname, hfirst, himplies⟩
    have hcolumns : ∃ column ∈ m.foreignKeyColumns registry style,
        column.name = name ∧ column.references = some key :=
      ⟨_, List.mem_map_of_mem (mem_foreignKeys_iff.2 ⟨entry, hfirst, himplies⟩), hname, rfl⟩
    obtain ⟨column, hcolumn, hname, href⟩ := hcolumns
    obtain ⟨t, ht, rfl⟩ := migration_eq_ok_iff.1 h
    obtain ⟨keys, -, properties, -, rfl⟩ := table_eq_ok_iff.1 ht
    exact ⟨column, List.mem_append_left _ (List.mem_append_right _ hcolumn), hname, href⟩

/-- **Foreign keys and kinds of relations.** Every reference in a model's table is implied by a
relation of the model. Relations by which the model belongs to others are behind all of them exactly
if, for each property, the first relation that implies a foreign key is one of these, or one of them
implies the same foreign key on the same column. -/
theorem belongsBy_of_references_iff {now : Timestamp} {mig : Migration}
    (h : m.migration registry style now = .ok mig) :
    (∀ column ∈ mig.table.columns, ∀ key, column.references = some key →
      ∃ entry ∈ m.relations, ∃ property, style.apply property = column.name ∧
        m.Implies registry style entry.2 property key) ∧
    ((∀ column ∈ mig.table.columns, ∀ key, column.references = some key →
        m.BelongsBy registry style column.name key) ↔
      ∀ property entry key, m.firstImplying? registry style property = some entry →
        m.Implies registry style entry.2 property key →
          entry.2.kind = .belongsToOne ∨
            m.BelongsBy registry style (style.apply property) key) := by
  refine ⟨fun column hcolumn key href ↦ ?_, fun hall property entry key hfirst himplies ↦ ?_,
    fun hall column hcolumn key href ↦ ?_⟩
  · obtain ⟨property, entry, hname, hfirst, himplies⟩ :=
      (references_iff h).1 ⟨column, hcolumn, rfl, href⟩
    exact ⟨entry, List.mem_of_find?_eq_some hfirst, property, hname, himplies⟩
  · obtain ⟨column, hcolumn, hname, href⟩ :=
      (references_iff h).2 ⟨property, entry, rfl, hfirst, himplies⟩
    exact .inr (hname ▸ hall column hcolumn key href)
  · obtain ⟨property, entry, hname, hfirst, himplies⟩ :=
      (references_iff h).1 ⟨column, hcolumn, rfl, href⟩
    rcases hall property entry key hfirst himplies with hkind | hbelongs
    · exact ⟨entry, List.mem_of_find?_eq_some hfirst, hkind, property, hname, himplies⟩
    · exact hname ▸ hbelongs

end Model

/-- Authors, who have the books that bear their pen names, and belong to their publishers. -/
def authorsAndBooks : List ModelDefinition :=
  let relation : String → String → String → RelationDefinition := fun kind source target ↦
    ⟨kind, some (.single source), some (.single target), none, false, none, none, none, none, []⟩
  [⟨"Author", none, none, false, [], [
      ("publisher", relation "belongs-to" "Author.publisherId" "Publisher.id"),
      ("books", relation "has-many" "Author.penName" "Book.authorName")], []⟩,
    ⟨"Book", none, none, false, [("authorName", .string "string")], [], []⟩,
    ⟨"Publisher", none, none, false, [], [], []⟩]

namespace Model

/-- The foreign keys of authors. -/
theorem belongsBy_of_references_authorsAndBooks : ∃ c, Catalog.resolve authorsAndBooks = .ok c ∧
    ∃ m ∈ c.models, m.name = "Author" ∧
      ∃ mig, m.migration c.registry ⟨false⟩ ⟨2024, 3, 9, 8, 5, 7⟩ = .ok mig ∧
        (∀ column ∈ mig.table.columns, ∀ key, column.references = some key →
          ∃ entry ∈ m.relations, ∃ property, NamingStyle.apply ⟨false⟩ property = column.name ∧
            m.Implies c.registry ⟨false⟩ entry.2 property key) ∧
        ((∀ column ∈ mig.table.columns, ∀ key, column.references = some key →
            m.BelongsBy c.registry ⟨false⟩ column.name key) ↔
          ∀ property entry key, m.firstImplying? c.registry ⟨false⟩ property = some entry →
            m.Implies c.registry ⟨false⟩ entry.2 property key →
              entry.2.kind = .belongsToOne ∨
                m.BelongsBy c.registry ⟨false⟩ (NamingStyle.apply ⟨false⟩ property) key) := by
  have hmigrate : (Catalog.resolve authorsAndBooks).toOption.any fun c ↦ c.models.any fun m ↦
      (m.migration c.registry ⟨false⟩ ⟨2024, 3, 9, 8, 5, 7⟩).toOption.any fun _ ↦
        m.name == "Author" := by
    decide +kernel
  obtain ⟨c, hc, hmigrate⟩ := exists_of_any hmigrate
  obtain ⟨m, hm, hmigrate⟩ := List.any_eq_true.1 hmigrate
  obtain ⟨mig, hmig, hname⟩ := exists_of_any hmigrate
  exact ⟨c, hc, m, hm, beq_iff_eq.1 hname, mig, hmig, belongsBy_of_references_iff hmig⟩

/-- Authors refer to books, though it is not to books that they belong. -/
theorem not_belongsBy_authorsAndBooks : ∃ c, Catalog.resolve authorsAndBooks = .ok c ∧
    ∃ m ∈ c.models, ∃ mig,
      m.migration c.registry (Settings.namingStyle ⟨false, false⟩) ⟨2024, 3, 9, 8, 5, 7⟩ = .ok mig ∧
        ∃ column ∈ mig.table.columns, ∃ key, column.references = some key ∧
          ¬m.BelongsBy c.registry (Settings.namingStyle ⟨false, false⟩) column.name key := by
  have hrefer : (Catalog.resolve authorsAndBooks).toOption.any fun c ↦ c.models.any fun m ↦
      (m.migration c.registry ⟨false⟩ ⟨2024, 3, 9, 8, 5, 7⟩).toOption.any fun mig ↦
        mig.table.columns.any fun column ↦ column.references.any fun key ↦
          m.relations.all fun entry ↦ decide (entry.2.kind = .belongsToOne →
            (m.foreignKey? c.registry ⟨false⟩ entry.2).all (·.2 != key)) := by
    decide +kernel
  obtain ⟨c, hc, hrefer⟩ := exists_of_any hrefer
  obtain ⟨m, hm, hrefer⟩ := List.any_eq_true.1 hrefer
  obtain ⟨mig, hmig, hrefer⟩ := exists_of_any hrefer
  obtain ⟨column, hcolumn, hrefer⟩ := List.any_eq_true.1 hrefer
  obtain ⟨key, hkey, hrefer⟩ := (Option.any_eq_true _ _).1 hrefer
  refine ⟨c, hc, m, hm, mig, hmig, column, hcolumn, key, hkey, ?_⟩
  rintro ⟨entry, hentry, hkind, property, -, himplies⟩
  have hother := of_decide_eq_true (List.all_eq_true.1 hrefer entry hentry) hkind
  have himplied : m.foreignKey? c.registry ⟨false⟩ entry.2 = some (property, key) :=
    foreignKey?_eq_some_iff_implies.2 himplies
  simp [himplied] at hother

end Model

end ModelCatalog
