import ModelCatalog.Proofs.Table.Columns
import ModelCatalog.Proofs.Table.JoinTable

/-!
# The tables of generated joins

A generated join names its columns as references into its table, next to the keys that they stand
for, and its table is put together from these references once they have been taken apart again. The
name of the table has no point, so taking a reference apart at its first point gives the column back
even if the name of a property has points. What a column stands for is found at the same place of
the key, on a model that the registry finds.
-/

namespace ModelCatalog

open Outcome

/-- The column that a reference `own` into the join table names. It cannot be null, and refers to
the property that the part `target` of a key names, in the table of its model. -/
def Column.JoinsOn (registry : Registry) (table own target : String) (column : Column) : Prop :=
  own = table ++ "." ++ column.name ∧
    ∃ m model property, cutReference target = some (model, property) ∧
      registry.lookup model = some m ∧
      column = { Column.plain column.name .integer with
        notNull := true
        references := some ⟨m.tableName, property, true⟩ }

/-- The columns of the join table towards one side, one for each part of the key `own` into the
table and of the key `target` on that side. -/
structure Key.JoinsOn (registry : Registry) (table : String) (own target : Key)
    (columns : List Column) : Prop where
  length_eq : own.tokens.length = target.tokens.length
  columns : List.Forall₂ (fun pair column ↦ column.JoinsOn registry table pair.1 pair.2)
    (own.tokens.zip target.tokens) columns

namespace Relation

variable {registry : Registry} {style : NamingStyle}

private theorem joinsOn_of_joinColumn? (hstyle : style.normalize = false)
    {own target table name model property : String} {column : Column}
    (hown : cutReference own = some (table, name))
    (htarget : cutReference target = some (model, property)) (hfound : registry.contains model)
    (h : joinColumn? registry style own target = some column) :
    column.JoinsOn registry table own target := by
  obtain ⟨table', name', model', property', hown', htarget', rfl⟩ := joinColumn?_eq_some_iff.1 h
  obtain ⟨rfl, rfl⟩ := Prod.mk.inj (Option.some.inj (hown.symm.trans hown'))
  obtain ⟨rfl, rfl⟩ := Prod.mk.inj (Option.some.inj (htarget.symm.trans htarget'))
  obtain ⟨m, hm⟩ := Option.isSome_iff_exists.1 hfound
  have htable : registry.tableOf model = m.tableName := by rw [Registry.tableOf, hm]
  simp only [NamingStyle.apply_eq_id hstyle, id, htable]
  exact ⟨(cutReference_eq_some_iff.1 hown).1, m, model, property, htarget, hm, rfl⟩

/-- The columns that are generated for a key on a model that is found are all rendered. -/
theorem exists_joinColumns?_of_columnsIn (hstyle : style.normalize = false) {key columns : Key}
    {table model : String} (hcolumns : key.ColumnsIn columns table) (hon : key.On model)
    (hfound : registry.contains model) :
    ∃ rendered, joinColumns? registry style columns key = some rendered ∧
      columns.JoinsOn registry table key rendered := by
  obtain ⟨rendered, hrendered⟩ := @exists_joinColumns? registry style _ _ hcolumns.pairsWith
  refine ⟨rendered, hrendered, hcolumns.length_eq.symm, ?_⟩
  refine forall₂_imp_of_mem (mapM_eq_some_iff.1 hrendered) fun pair hpair column _ hcolumn ↦ ?_
  obtain ⟨own, target⟩ := pair
  obtain ⟨property, htarget, -⟩ := hon.cut target (List.of_mem_zip hpair).2
  obtain ⟨-, hzip⟩ := List.forall₂_iff_zip.1 (List.Forall₂.flip hcolumns)
  obtain ⟨model', property', htarget', hown⟩ := hzip hpair
  exact joinsOn_of_joinColumn? hstyle hown htarget hfound hcolumn

end Relation

/-- **The table of a generated join**, where the registry finds no model under its name. It has one
column for each part of the keys into it, first those towards the source, and all of them make up
the primary key. -/
theorem Registry.joinMigration_of_generated {registry : Registry} {d : RelationDefinition}
    {r : Relation} (hresolve : registry.resolveRelation d = .ok r)
    (hkind : (RelationKind.ofName? d.relation).any (·.isThrough)) (hjoin : d.join = none)
    (hgenerated : d.through = none ∨ ∃ flag, d.through = some (.generated flag))
    {settings : Settings} (hplain : settings.normalizeDbNames = false)
    (hfound : ∀ t, r.join.through = some t → ¬registry.contains t.table) (now : Timestamp) :
    ∃ t source target, r.join.through = some t ∧
      t.source.JoinsOn registry t.table r.join.source source ∧
      t.target.JoinsOn registry t.table r.join.target target ∧
      r.joinMigration? registry settings.namingStyle now =
        some ⟨⟨t.table, source ++ target, some ((source ++ target).map (·.name))⟩, now⟩ := by
  have hstyle : settings.namingStyle.normalize = false := hplain
  obtain ⟨hname, hkeys⟩ := relationOfKeys_of_resolveRelation hresolve hjoin
  have hthrough : r.kind.isThrough := by simpa [hname] using hkind
  have hfollows := followsKeys_of_relationOfKeys hkeys
  obtain ⟨t, ht, hsource, htarget⟩ := hfollows.generated hthrough hgenerated
  obtain ⟨model, hmodel, hsourceOn⟩ := hfollows.source_on
  obtain ⟨hrelated, htargetOn⟩ := hfollows.target_on
  obtain ⟨source, hrendered, hsource⟩ :=
    Relation.exists_joinColumns?_of_columnsIn hstyle hsource hsourceOn hmodel
  obtain ⟨target, hrendered', htarget⟩ :=
    Relation.exists_joinColumns?_of_columnsIn hstyle htarget htargetOn hrelated
  refine ⟨t, source, target, ht, hsource, htarget, ?_⟩
  have htable : r.joinTable? registry settings.namingStyle =
      some ⟨t.table, source ++ target, some ((source ++ target).map (·.name))⟩ := by
    refine Relation.joinTable?_eq_some_iff.2 ⟨t, ht, ?_, hfound t ht, source, hrendered, target,
      hrendered', ?_⟩
    · exact model_eq_none_of_relationOfKeys hkeys hthrough hgenerated ht
    · rw [NamingStyle.apply_eq_id hstyle, id]
  rw [Relation.joinMigration?, htable, Option.map_some]

/-- Users, whose table has a name of its own, and teams. -/
def teamModels : Registry :=
  .exact [{ Model.named "User" with tableName := "users" }, .named "Team"]

/-- The teams of a user, with points in the name of a property. -/
def teamsOfUser : RelationDefinition :=
  ⟨"many-to-many", some (.composite ["User.realm", "User.name"]),
    some (.composite ["Team.realm", "Team.slug.v2"]), some (.generated true), false, none, none,
    none, none, []⟩

/-- Those teams as a resolved relation. -/
def userTeams : Relation :=
  let through : Through := ⟨"UserTeam", .composite ["UserTeam.userRealm", "UserTeam.userName"],
    .composite ["UserTeam.teamRealm", "UserTeam.teamSlug.v2"], none⟩
  ⟨.manyToMany, "Team", ⟨.composite ["User.realm", "User.name"],
    .composite ["Team.realm", "Team.slug.v2"], some through⟩, none, []⟩

theorem Registry.joinMigration_of_generated_teamsOfUser :
    teamModels.resolveRelation teamsOfUser = .ok userTeams ∧
      (∀ t, userTeams.join.through = some t → ¬teamModels.contains t.table) ∧
      ∃ t source target, userTeams.join.through = some t ∧
        t.source.JoinsOn teamModels t.table userTeams.join.source source ∧
        t.target.JoinsOn teamModels t.table userTeams.join.target target ∧
        userTeams.joinMigration? teamModels ⟨false⟩ ⟨2024, 3, 9, 8, 5, 7⟩ =
          some ⟨⟨t.table, source ++ target, some ((source ++ target).map (·.name))⟩,
            ⟨2024, 3, 9, 8, 5, 7⟩⟩ := by
  have hresolve : teamModels.resolveRelation teamsOfUser = .ok userTeams := by rfl
  have hfound : ∀ t, userTeams.join.through = some t → ¬teamModels.contains t.table := by
    intro t ht
    obtain rfl := Option.some.inj ht
    decide
  have hplain : (⟨false, false⟩ : Settings).normalizeDbNames = false := rfl
  exact ⟨hresolve, hfound, joinMigration_of_generated hresolve (by decide) rfl (.inr ⟨true, rfl⟩)
    hplain hfound _⟩

example : (userTeams.joinTable? teamModels ⟨false⟩).map Table.columnNames =
    some ["userRealm", "userName", "teamRealm", "teamSlug.v2"] := by
  decide

end ModelCatalog
