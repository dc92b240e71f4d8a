import ModelCatalog.Proofs.Table.InversePair
import ModelCatalog.Proofs.Table.Migrations

/-!
# The list of migrations

The migrations of a catalog are listed in two parts: one for each model, in the order of the models,
and behind them one for each join table whose name no model's table has. A join table has its place
where its name first occurs among the relations of the models, and the migration is that of the
relation where it does.

If the tables of the models have distinct names, all tables have, and so have the files.
-/

namespace ModelCatalog

open Outcome

/-! ## Names of files

All files bear the stamp of one moment, so they differ exactly if their tables do. -/

/-- At one moment different tables have different files. -/
theorem Migration.fileNameOf_injective (stamp : Timestamp) :
    Function.Injective (fileNameOf · stamp) := by
  intro table table' h
  have hlists := congrArg String.toList h
  simp only [fileNameOf, String.toList_append, List.append_assoc] at hlists
  exact String.toList_inj.1 (List.append_cancel_right
    (List.append_cancel_left (List.append_cancel_left hlists)))

namespace Catalog

variable {c : Catalog} {style : NamingStyle} {now : Timestamp} {ms : List Migration}
  {mig : Migration}

/-- The migrations of the join tables of all relations, in the order of the models. -/
def joinMigrations (c : Catalog) (style : NamingStyle) (now : Timestamp) : List Migration :=
  c.relations.filterMap (Relation.joinMigration? c.registry style now)

/-- The migrations are those of the models and, behind them, those of the further join tables in the
order in which their names first occur. No table and no file is there twice, and no join table is
missing. -/
structure Lists (c : Catalog) (style : NamingStyle) (now : Timestamp) (ms : List Migration) :
    Prop where
  split : ∃ ofModels further, ms = ofModels ++ further ∧
    List.Forall₂ (fun m mig ↦ m.migration c.registry style now = .ok mig) c.models ofModels ∧
    further.map (·.table.name) =
      (((c.joinMigrations style now).map (·.table.name)).filter
        (· ∉ ofModels.map (·.table.name))).eraseDups ∧
    ∀ mig ∈ further,
      (c.joinMigrations style now).find? (·.table.name == mig.table.name) = some mig
  nodup_names : (ms.map (·.table.name)).Nodup
  nodup_fileNames : (ms.map (·.fileName)).Nodup
  exists_join : ∀ m ∈ c.models, ∀ entry ∈ m.relations, ∀ join,
    entry.2.joinMigration? c.registry style now = some join →
      ∃ mig ∈ ms, mig.table.name = join.table.name

private theorem stamp_of_mem_migrations (h : c.migrations style now = .ok ms) (hmig : mig ∈ ms) :
    mig.stamp = now := by
  rcases (mem_migrations_iff h).1 hmig with ⟨m, -, hm⟩ | ⟨-, hfirst⟩
  · obtain ⟨t, -, rfl⟩ := Model.migration_eq_ok_iff.1 hm
    rfl
  · obtain ⟨first, -, hjoin⟩ := Option.bind_eq_some_iff.1 hfirst
    obtain ⟨t, -, rfl⟩ := joinMigration?_eq_some_iff.1 hjoin
    rfl

private theorem map_fileName_migrations (h : c.migrations style now = .ok ms) :
    ms.map (·.fileName) = (ms.map (·.table.name)).map (Migration.fileNameOf · now) := by
  rw [List.map_map]
  refine List.map_congr_left fun mig hmig ↦ ?_
  rw [Migration.fileName, stamp_of_mem_migrations h hmig]
  rfl

/-- **The list of migrations.** Where the tables of the models have distinct names, the migrations
of a catalog are a complete list. -/
theorem lists_migrations {settings : Settings}
    (htables : (c.models.map fun m ↦ settings.namingStyle.apply m.tableName).Nodup)
    (h : c.migrations settings.namingStyle now = .ok ms) :
    c.Lists settings.namingStyle now ms := by
  obtain ⟨ofModels, hall, hms⟩ := migrations_eq_ok_iff.1 h
  have hnames : (ms.map (·.table.name)).Nodup := by
    rw [hms]
    exact nodup_names_appendNew _ (map_name_of_migrations hall ▸ htables)
  obtain ⟨further, hfurther, -, hfresh⟩ := exists_appendNew_eq (·.table.name) ofModels
    (c.joinMigrations settings.namingStyle now)
  have hsplit : ms = ofModels ++ further := hms.trans hfurther
  refine ⟨⟨ofModels, further, hsplit, hall, ?_, fun mig hmig ↦ ?_⟩, hnames, ?_, ?_⟩
  · -- the names of both parts are known, and so are those of the first
    have hboth := map_name_appendNew (·.table.name) ofModels
      (c.joinMigrations settings.namingStyle now)
    rw [hfurther, List.map_append] at hboth
    exact List.append_cancel_left hboth
  · have hmem : mig ∈ appendNew (·.table.name) ofModels
        (c.joinMigrations settings.namingStyle now) := by
      rw [hfurther]
      exact List.mem_append_right _ hmig
    rcases (mem_appendNew_iff _ _ _).1 hmem with hmodel | ⟨-, hfirst⟩
    · exact absurd (List.mem_map_of_mem hmodel) (hfresh mig hmig)
    · exact hfirst
  · rw [map_fileName_migrations h]
    exact hnames.map (Migration.fileNameOf_injective now)
  · intro m hm entry hentry join hjoin
    obtain ⟨table, htable, rfl⟩ := joinMigration?_eq_some_iff.1 hjoin
    have hrelation : entry.2 ∈ c.relations :=
      List.mem_flatMap.2 ⟨m, hm, List.mem_map_of_mem hentry⟩
    exact (mem_names_migrations_iff h).2 (.inr ⟨entry.2, hrelation, table, htable, rfl⟩)

end Catalog

/-- Users, their groups and their friends. The relation between users and groups is declared on both
sides. -/
def usersInGroups : List ModelDefinition :=
  [⟨"User", none, none, false, [], [
      ("groups", .between "many-to-many" (.single "User.id") (.single "Group.id") false []),
      ("friends", .between "many-to-many" (.single "User.id") (.single "User.name") false [])], []⟩,
    ⟨"Group", none, none, false, [],
      [("users", .between "many-to-many" (.single "Group.id") (.single "User.id") true [])], []⟩]

/-- The list has four tables: those of the two models, and two join tables. -/
theorem Catalog.lists_migrations_usersInGroups : ∃ c, resolve usersInGroups = .ok c ∧
    (c.models.map fun m ↦ (Settings.namingStyle ⟨false, true⟩).apply m.tableName).Nodup ∧
    ∃ ms, c.migrations (Settings.namingStyle ⟨false, true⟩) ⟨2024, 3, 9, 8, 5, 7⟩ = .ok ms ∧
      ms.length = 4 ∧
      c.Lists (Settings.namingStyle ⟨false, true⟩) ⟨2024, 3, 9, 8, 5, 7⟩ ms := by
  have hlist : (resolve usersInGroups).toOption.any fun c ↦
      (c.migrations (Settings.namingStyle ⟨false, true⟩) ⟨2024, 3, 9, 8, 5, 7⟩).toOption.any
        fun ms ↦ decide ((c.models.map fun m ↦
          (Settings.namingStyle ⟨false, true⟩).apply m.tableName).Nodup ∧ ms.length = 4) := by
    decide +kernel
  obtain ⟨c, hc, hlist⟩ := exists_of_any hlist
  obtain ⟨ms, hms, hlist⟩ := exists_of_any hlist
  obtain ⟨htables, hlength⟩ := of_decide_eq_true hlist
  exact ⟨c, hc, htables, ms, hms, hlength, lists_migrations htables hms⟩

end ModelCatalog
