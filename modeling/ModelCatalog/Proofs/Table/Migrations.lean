import ModelCatalog.Proofs.Model.Catalog
import ModelCatalog.Proofs.Table.Columns
import ModelCatalog.Proofs.Table.JoinTable

/-!
# The migrations of a catalog

There is a migration for each model. A join table has one if no model's table has its name, and then
it is that of the first relation with a join table of this name. So the name alone decides which
columns there are: a later relation with the same name and other columns goes without them.

No column is named twice in a model's table. In a join table one is if, and only if, the keys of the
relation name it twice.
-/

namespace ModelCatalog

open Outcome

/-- Some migration creates a table of this name that has the columns, among others perhaps. -/
def Declares (ms : List Migration) (name : String) (columns : List String) : Prop :=
  ∃ mig ∈ ms, mig.table.name = name ∧ columns ⊆ mig.table.columnNames

namespace Catalog

def relations (c : Catalog) : List Relation := c.models.flatMap fun m ↦ m.relations.map (·.2)

def firstJoining? (c : Catalog) (style : NamingStyle) (name : String) : Option Relation :=
  c.relations.find? fun r ↦ (r.joinTable? c.registry style).any (·.name == name)

/-- The table that gets the name has the columns: a model's table of this name or, where there is
none, the join table of the first relation that has one of this name. -/
def Provides (c : Catalog) (style : NamingStyle) (now : Timestamp) (name : String)
    (columns : List String) : Prop :=
  (∃ m ∈ c.models, style.apply m.tableName = name ∧
    ∃ mig, m.migration c.registry style now = .ok mig ∧ columns ⊆ mig.table.columnNames) ∨
  (∀ m ∈ c.models, style.apply m.tableName ≠ name) ∧
    ∃ first, c.firstJoining? style name = some first ∧
      columns ⊆ first.joinColumnNames.map style.apply

variable {c : Catalog} {style : NamingStyle} {now : Timestamp} {ms : List Migration}
  {mig : Migration}

/-! ## Which migrations there are

Join tables are added one after the other unless there is a table of the name. So the first relation
decides, and the tables of models come before all relations. -/

theorem migrations_eq_ok_iff : c.migrations style now = .ok ms ↔
    ∃ ofModels, List.Forall₂ (fun m mig ↦ m.migration c.registry style now = .ok mig)
        c.models ofModels ∧
      ms = appendNew (·.table.name) ofModels
        (c.relations.filterMap (Relation.joinMigration? c.registry style now)) := by
  simp only [migrations, bind_eq_ok_iff, mapM_eq_ok_iff, pure_eq_ok_iff, addMigrations_eq_appendNew,
    relations, eq_comm (a := ms)]

theorem map_name_of_migrations {models : List Model} {ofModels : List Migration}
    (h : List.Forall₂ (fun m mig ↦ m.migration c.registry style now = .ok mig) models ofModels) :
    ofModels.map (·.table.name) = models.map fun m ↦ style.apply m.tableName :=
  (map_eq_map_of_forall₂ h fun _ _ hmig ↦ (Model.name_of_migration hmig).symm).symm

theorem joinMigration?_eq_some_iff {registry : Registry} {r : Relation} :
    r.joinMigration? registry style now = some mig ↔
      ∃ table, r.joinTable? registry style = some table ∧ mig = ⟨table, now⟩ := by
  simp only [Relation.joinMigration?, Option.map_eq_some_iff, eq_comm (a := mig)]

private theorem exists_of_firstJoining? {name : String} {first : Relation}
    (h : c.firstJoining? style name = some first) :
    ∃ table, first.joinTable? c.registry style = some table ∧ table.name = name := by
  rw [firstJoining?] at h
  have htest := List.find?_some h
  obtain ⟨table, htable, hname⟩ := (Option.any_eq_true _ _).1 htest
  exact ⟨table, htable, beq_iff_eq.1 hname⟩

private theorem find?_joinMigration? (name : String) :
    (c.relations.filterMap (Relation.joinMigration? c.registry style now)).find?
        (·.table.name == name) =
      (c.firstJoining? style name).bind (Relation.joinMigration? c.registry style now) := by
  rw [List.find?_filterMap, firstJoining?]
  simp only [Relation.joinMigration?, Option.any_map]

/-- The migrations are those of the models and, for each name that no model's table has, that of the
first relation with a join table of this name. -/
theorem mem_migrations_iff (h : c.migrations style now = .ok ms) : mig ∈ ms ↔
    (∃ m ∈ c.models, m.migration c.registry style now = .ok mig) ∨
      (∀ m ∈ c.models, style.apply m.tableName ≠ mig.table.name) ∧
        (c.firstJoining? style mig.table.name).bind
          (Relation.joinMigration? c.registry style now) = some mig := by
  obtain ⟨ofModels, hall, rfl⟩ := migrations_eq_ok_iff.1 h
  have hmem : mig ∈ ofModels ↔ ∃ m ∈ c.models, m.migration c.registry style now = .ok mig := by
    refine ⟨exists_left_of_forall₂ hall, ?_⟩
    rintro ⟨m, hm, hmig⟩
    obtain ⟨mig', hmem, hmig'⟩ := exists_right_of_forall₂ hall hm
    exact Except.ok.inj (hmig.symm.trans hmig') ▸ hmem
  rw [mem_appendNew_iff, hmem, find?_joinMigration?, map_name_of_migrations hall]
  simp only [List.mem_map, not_exists, not_and, ne_eq]

theorem mem_names_migrations_iff (h : c.migrations style now = .ok ms) {name : String} :
    (∃ mig ∈ ms, mig.table.name = name) ↔ (∃ m ∈ c.models, style.apply m.tableName = name) ∨
      ∃ r ∈ c.relations, ∃ table, r.joinTable? c.registry style = some table ∧
        table.name = name := by
  obtain ⟨ofModels, hall, rfl⟩ := migrations_eq_ok_iff.1 h
  rw [← List.mem_map, mem_names_appendNew_iff, map_name_of_migrations hall]
  simp only [List.mem_map, List.mem_filterMap, joinMigration?_eq_some_iff]
  refine or_congr_right ⟨?_, ?_⟩
  · rintro ⟨mig, ⟨r, hr, table, htable, rfl⟩, hname⟩
    exact ⟨r, hr, table, htable, hname⟩
  · rintro ⟨r, hr, table, htable, hname⟩
    exact ⟨⟨table, now⟩, ⟨r, hr, table, htable, rfl⟩, hname⟩

/-! ## The columns of join tables -/

section

variable {registry : Registry} {r : Relation} {t : Through}

private theorem columnNames_joinMigration? (h : r.joinMigration? registry style now = some mig) :
    mig.table.columnNames = r.joinColumnNames.map style.apply := by
  obtain ⟨table, htable, rfl⟩ := joinMigration?_eq_some_iff.1 h
  exact Relation.columnNames_joinTable? htable

/-- A relation whose keys pair off finds a table under the name of its join table. -/
theorem exists_migration_of_pairsWith (h : c.migrations style now = .ok ms) (hr : r ∈ c.relations)
    (ht : r.join.through = some t) (hmodel : t.model = none)
    (hfound : ¬c.registry.contains t.table) (hsource : t.source.PairsWith r.join.source)
    (htarget : t.target.PairsWith r.join.target) :
    ∃ mig ∈ ms, mig.table.name = style.apply t.table := by
  obtain ⟨table, htable, hname⟩ :=
    @Relation.exists_joinTable? c.registry style r t ht hmodel hfound hsource htarget
  exact (mem_names_migrations_iff h).2 (.inr ⟨r, hr, table, htable, hname⟩)

/-- What is declared under a name is what the table has that gets the name. -/
theorem declares_iff (h : c.migrations style now = .ok ms) {name : String}
    {columns : List String} : Declares ms name columns ↔ c.Provides style now name columns := by
  constructor
  · rintro ⟨mig, hmig, rfl, hcolumns⟩
    rcases (mem_migrations_iff h).1 hmig with ⟨m, hm, hmig⟩ | ⟨hnone, hfirst⟩
    · exact .inl ⟨m, hm, (Model.name_of_migration hmig).symm, mig, hmig, hcolumns⟩
    · obtain ⟨first, hfirst, hjoin⟩ := Option.bind_eq_some_iff.1 hfirst
      exact .inr ⟨hnone, first, hfirst, columnNames_joinMigration? hjoin ▸ hcolumns⟩
  · rintro (⟨m, hm, rfl, mig, hmig, hcolumns⟩ | ⟨hnone, first, hfirst, hcolumns⟩)
    · exact ⟨mig, (mem_migrations_iff h).2 (.inl ⟨m, hm, hmig⟩), Model.name_of_migration hmig,
        hcolumns⟩
    · obtain ⟨table, htable, rfl⟩ := exists_of_firstJoining? hfirst
      have hjoin : first.joinMigration? c.registry style now = some ⟨table, now⟩ :=
        joinMigration?_eq_some_iff.2 ⟨table, htable, rfl⟩
      refine ⟨⟨table, now⟩, (mem_migrations_iff h).2 (.inr ⟨hnone, ?_⟩), rfl,
        columnNames_joinMigration? hjoin ▸ hcolumns⟩
      rw [hfirst, Option.bind_some, hjoin]

/-- **The columns of join tables.** A relation whose keys pair off finds a table under the name of
its join table. The columns that these keys name are declared under that name exactly if the table
that gets it has them: a model's table, or else the first join table of this name. -/
theorem declaresJoin_iff {settings : Settings} (hplain : settings.normalizeDbNames = false)
    (h : c.migrations settings.namingStyle now = .ok ms) (hr : r ∈ c.relations)
    (ht : r.join.through = some t) (hmodel : t.model = none)
    (hfound : ¬c.registry.contains t.table) :
    (t.source.PairsWith r.join.source → t.target.PairsWith r.join.target →
      ∃ mig ∈ ms, mig.table.name = t.table) ∧
    (Declares ms t.table t.columnNames ↔
      c.Provides settings.namingStyle now t.table t.columnNames) := by
  refine ⟨fun hsource htarget ↦ ?_, declares_iff h⟩
  have hexists := exists_migration_of_pairsWith h hr ht hmodel hfound hsource htarget
  rwa [NamingStyle.apply_eq_id hplain, id] at hexists

end

end Catalog

/-- Two pairs of models, each with a relation from one to the other. Put one after the other, the
names of either pair are the same. -/
def overlappingNames : List ModelDefinition :=
  let towards : String → String → RelationDefinition := fun source target ↦
    ⟨"many-to-many", some (.single (source ++ ".id")), some (.single (target ++ ".id")), none,
      false, none, none, none, none, []⟩
  [⟨"A", none, none, false, [], [("bcs", towards "A" "BC")], []⟩,
    ⟨"AB", none, none, false, [], [("cs", towards "AB" "C")], []⟩,
    ⟨"BC", none, none, false, [], [], []⟩, ⟨"C", none, none, false, [], [], []⟩]

namespace Catalog

/-- One of the relations has a join table that no migration declares in full. -/
theorem exists_join_overlappingNames : ∃ c, resolve overlappingNames = .ok c ∧
    ∃ ms, c.migrations ⟨false⟩ ⟨2024, 3, 9, 8, 5, 7⟩ = .ok ms ∧
      ∃ r ∈ c.relations, ∃ t, r.join.through = some t ∧ t.model = none ∧
        ¬c.registry.contains t.table ∧
        ∀ mig ∈ ms, mig.table.name = t.table → ¬t.columnNames ⊆ mig.table.columnNames := by
  have hlost : (resolve overlappingNames).toOption.any fun c ↦
      (c.migrations ⟨false⟩ ⟨2024, 3, 9, 8, 5, 7⟩).toOption.any fun ms ↦
        c.relations.any fun r ↦ r.join.through.any fun t ↦
          decide (t.model = none ∧ ¬c.registry.contains t.table ∧
            ∀ mig ∈ ms, mig.table.name = t.table → ¬t.columnNames ⊆ mig.table.columnNames) := by
    decide +kernel
  obtain ⟨c, hc, htest⟩ := exists_of_any hlost
  obtain ⟨ms, hms, htest⟩ := exists_of_any htest
  obtain ⟨r, hr, htest⟩ := List.any_eq_true.1 htest
  obtain ⟨t, ht, htest⟩ := (Option.any_eq_true _ _).1 htest
  exact ⟨c, hc, ms, hms, r, hr, t, ht, of_decide_eq_true htest⟩

theorem declaresJoin_iff_overlappingNames : ∃ c, resolve overlappingNames = .ok c ∧
    ∃ ms, c.migrations ⟨false⟩ ⟨2024, 3, 9, 8, 5, 7⟩ = .ok ms ∧
      ∃ r ∈ c.relations, ∃ t, r.join.through = some t ∧ t.model = none ∧
        ¬c.registry.contains t.table ∧
        (t.source.PairsWith r.join.source → t.target.PairsWith r.join.target →
          ∃ mig ∈ ms, mig.table.name = t.table) ∧
        (Declares ms t.table t.columnNames ↔
          c.Provides ⟨false⟩ ⟨2024, 3, 9, 8, 5, 7⟩ t.table t.columnNames) := by
  obtain ⟨c, hc, ms, hms, r, hr, t, ht, hmodel, hfound, -⟩ := exists_join_overlappingNames
  have hplain : (⟨false, false⟩ : Settings).normalizeDbNames = false := rfl
  exact ⟨c, hc, ms, hms, r, hr, t, ht, hmodel, hfound,
    declaresJoin_iff hplain hms hr ht hmodel hfound⟩

/-- A join table is lost to another one whose name is the same. -/
theorem not_declares_overlappingNames : ∃ c, resolve overlappingNames = .ok c ∧
    ∃ ms, c.migrations ⟨false⟩ ⟨2024, 3, 9, 8, 5, 7⟩ = .ok ms ∧
      ∃ m ∈ c.models, ∃ entry ∈ m.relations, ∃ t, entry.2.join.through = some t ∧
        t.model = none ∧ ¬c.registry.contains t.table ∧ ¬Declares ms t.table t.columnNames := by
  obtain ⟨c, hc, ms, hms, r, hr, t, ht, hmodel, hfound, hlost⟩ := exists_join_overlappingNames
  obtain ⟨m, hm, hr⟩ := List.mem_flatMap.1 hr
  obtain ⟨entry, hentry, rfl⟩ := List.mem_map.1 hr
  refine ⟨c, hc, ms, hms, m, hm, entry, hentry, t, ht, hmodel, hfound, ?_⟩
  rintro ⟨mig, hmig, hname, hcolumns⟩
  exact hlost mig hmig hname hcolumns

/-! ## Distinct columns

For the tables of models this has been proved. The columns of join tables are named by keys, and
nothing makes these name distinct columns. -/

section

variable {ds : List ModelDefinition} {c : Catalog} {style : NamingStyle} {now : Timestamp}

theorem nodup_columnNames_of_mem (hresolve : resolve ds = .ok c)
    (hids : ∀ d ∈ ds, d.idProperties.Nodup) (hproperties : ∀ d ∈ ds, d.properties.Distinct)
    (hstyle : style.normalize = false) {m : Model} (hm : m ∈ c.models) {mig : Migration}
    (hmig : m.migration c.registry style now = .ok mig) : mig.table.columnNames.Nodup := by
  obtain ⟨d, hd, hdescribes⟩ := (holds_of_resolve hresolve).exists_describes hm
  obtain ⟨t, ht, rfl⟩ := Model.migration_eq_ok_iff.1 hmig
  refine Model.nodup_columnNames_table hstyle ?_ ?_ ht
  · rw [hdescribes.idProperties_eq]
    exact hids d hd
  · exact hdescribes.distinct_properties (hproperties d hd)

/-- **Distinct columns.** The columns of a model's table have distinct names, and those of a join
table have exactly if the keys of its relation name distinct columns. -/
theorem nodup_columnNames_iff (hresolve : resolve ds = .ok c)
    (hids : ∀ d ∈ ds, d.idProperties.Nodup) (hproperties : ∀ d ∈ ds, d.properties.Distinct)
    {settings : Settings} (hplain : settings.normalizeDbNames = false) {ms : List Migration}
    (h : c.migrations settings.namingStyle now = .ok ms) :
    (∀ m ∈ c.models, ∃ mig ∈ ms, m.migration c.registry settings.namingStyle now = .ok mig ∧
      mig.table.columnNames.Nodup) ∧
    ∀ mig ∈ ms, mig.table.columnNames.Nodup ↔
      ∀ r ∈ c.relations, r.joinMigration? c.registry settings.namingStyle now = some mig →
        r.joinColumnNames.Nodup := by
  have hmodels := @nodup_columnNames_of_mem ds c settings.namingStyle now hresolve hids hproperties
    hplain
  have hjoin : ∀ {r : Relation} {mig : Migration},
      r.joinMigration? c.registry settings.namingStyle now = some mig →
        mig.table.columnNames = r.joinColumnNames := fun hr ↦ by
    rw [columnNames_joinMigration? hr, NamingStyle.apply_eq_id hplain, List.map_id]
  constructor
  · intro m hm
    obtain ⟨ofModels, hall, -⟩ := migrations_eq_ok_iff.1 h
    obtain ⟨mig, -, hmig⟩ := exists_right_of_forall₂ hall hm
    exact ⟨mig, (mem_migrations_iff h).2 (.inl ⟨m, hm, hmig⟩), hmig, hmodels hm hmig⟩
  · intro mig hmig
    refine ⟨fun hnodup r _ hr ↦ hjoin hr ▸ hnodup, fun hnodup ↦ ?_⟩
    rcases (mem_migrations_iff h).1 hmig with ⟨m, hm, hmig⟩ | ⟨-, hfirst⟩
    · exact hmodels hm hmig
    · obtain ⟨first, hfirst, hr⟩ := Option.bind_eq_some_iff.1 hfirst
      rw [hjoin hr]
      exact hnodup first (List.mem_of_find?_eq_some hfirst) hr

end

end Catalog

/-- Users and their friends, who are users too. -/
def friendsOfUsers : List ModelDefinition :=
  let friends : RelationDefinition := ⟨"many-to-many", some (.single "User.id"),
    some (.single "User.id"), none, false, none, none, none, none, []⟩
  [⟨"User", none, none, false, [("name", .string "string")], [("friends", friends)], []⟩]

namespace Catalog

theorem nodup_columnNames_iff_friendsOfUsers : ∃ c, resolve friendsOfUsers = .ok c ∧
    (∀ d ∈ friendsOfUsers, d.idProperties.Nodup) ∧ (∀ d ∈ friendsOfUsers, d.properties.Distinct) ∧
      ∃ ms, c.migrations ⟨false⟩ ⟨2024, 3, 9, 8, 5, 7⟩ = .ok ms ∧
        (∀ m ∈ c.models, ∃ mig ∈ ms,
          m.migration c.registry ⟨false⟩ ⟨2024, 3, 9, 8, 5, 7⟩ = .ok mig ∧
            mig.table.columnNames.Nodup) ∧
        ∀ mig ∈ ms, mig.table.columnNames.Nodup ↔ ∀ r ∈ c.relations,
          r.joinMigration? c.registry ⟨false⟩ ⟨2024, 3, 9, 8, 5, 7⟩ = some mig →
            r.joinColumnNames.Nodup := by
  have hmigrate : (resolve friendsOfUsers).toOption.any fun c ↦
      (c.migrations ⟨false⟩ ⟨2024, 3, 9, 8, 5, 7⟩).toOption.any fun _ ↦ true := by
    decide +kernel
  obtain ⟨c, hc, hmigrate⟩ := exists_of_any hmigrate
  obtain ⟨ms, hms, -⟩ := exists_of_any hmigrate
  have hids : ∀ d ∈ friendsOfUsers, d.idProperties.Nodup := by decide
  have hproperties : ∀ d ∈ friendsOfUsers, d.properties.Distinct := by
    simp [friendsOfUsers]
  have hplain : (⟨false, false⟩ : Settings).normalizeDbNames = false := rfl
  exact ⟨c, hc, hids, hproperties, ms, hms, nodup_columnNames_iff hc hids hproperties hplain hms⟩

/-- The two sides of a join table between users and users are columns of one name. -/
theorem not_nodup_columnNames_friendsOfUsers : ∃ c, resolve friendsOfUsers = .ok c ∧
    (∀ d ∈ friendsOfUsers, d.idProperties.Nodup) ∧
      ∃ ms, c.migrations ⟨false⟩ ⟨2024, 3, 9, 8, 5, 7⟩ = .ok ms ∧
        ∃ mig ∈ ms, ¬mig.table.columnNames.Nodup := by
  have hrepeats : (resolve friendsOfUsers).toOption.any fun c ↦
      (c.migrations ⟨false⟩ ⟨2024, 3, 9, 8, 5, 7⟩).toOption.any fun ms ↦
        ms.any fun mig ↦ decide ¬mig.table.columnNames.Nodup := by
    decide +kernel
  obtain ⟨c, hc, hrepeats⟩ := exists_of_any hrepeats
  obtain ⟨ms, hms, hrepeats⟩ := exists_of_any hrepeats
  obtain ⟨mig, hmig, hrepeats⟩ := List.any_eq_true.1 hrepeats
  exact ⟨c, hc, by decide, ms, hms, mig, hmig, of_decide_eq_true hrepeats⟩

end Catalog

end ModelCatalog
