import ModelCatalog.Proofs.Table.JoinTable

/-!
# Inverse relations meet in one table

A relation through a generated join table may be declared on either side, on one of them as the
inverse. Both declarations are resolved or neither is, and both relations go through the same table:
the columns that lead the one towards its source lead the other towards its target. What is rendered
for the one differs from what is rendered for the other in the order of the columns only.
-/

namespace ModelCatalog

open Outcome

/-! ## The other side -/

/-- The join table with its sides exchanged. -/
def Through.flip (t : Through) : Through := { t with source := t.target, target := t.source }

/-- The join read from its target. -/
def Join.flip (j : Join) : Join := ⟨j.target, j.source, j.through.map Through.flip⟩

private theorem joinTableName_flip (source target : String) (inverse : Bool) :
    joinTableName target source (!inverse) = joinTableName source target inverse := by
  cases inverse <;> rfl

/-- The table that is generated from the other side, the other way round, is the same. -/
theorem Reference.throughTo_flip {source target : Reference} {inverse : Bool} {t : Through}
    (h : source.throughTo target inverse = .ok t) :
    target.throughTo source (!inverse) = .ok t.flip := by
  obtain ⟨join, hjoin, h⟩ := bind_eq_ok_iff.1 h
  rw [GeneratedJoin.between] at hjoin
  split at hjoin
  · rename_i hfit
    obtain ⟨hlength, hne, hsource, htarget⟩ := hfit
    have hne' : target.properties ≠ [] := by
      rwa [← List.length_pos_iff, ← hlength, List.length_pos_iff]
    obtain rfl := Except.ok.inj hjoin
    obtain rfl := pure_eq_ok_iff.1 h
    rw [throughTo, GeneratedJoin.between, if_pos ⟨hlength.symm, hne', htarget, hsource⟩,
      joinTableName_flip]
    rfl
  · cases hjoin

/-! ## Tables

The columns of the two tables are the same, those towards the one side first in the one table and
last in the other. -/

/-- The tables have the same name, and the same columns in some order. -/
structure Table.SameUpToOrder (t t' : Table) : Prop where
  name_eq : t.name = t'.name
  columns_perm : t.columns.Perm t'.columns
  primaryKey_perm : Option.Rel List.Perm t.primaryKey t'.primaryKey

/-- The migrations have the same file name, and their tables the same columns in some order. -/
structure Migration.SameUpToOrder (m m' : Migration) : Prop where
  fileName_eq : m.fileName = m'.fileName
  table : m.table.SameUpToOrder m'.table

namespace Relation

variable {r r' : Relation}

private theorem joinTable?_flip (h : r'.join = r.join.flip) (registry : Registry)
    (style : NamingStyle) :
    Option.Rel Table.SameUpToOrder (r.joinTable? registry style)
      (r'.joinTable? registry style) := by
  unfold joinTable?
  rw [h, Join.flip]
  cases r.join.through with
  | none => exact .none
  | some t =>
    simp only [Option.map_some, Option.bind_eq_bind, Option.bind_some, Through.flip]
    split
    · exact .none
    · -- the columns towards either side are the same, and one side without columns fails both
      cases joinColumns? registry style t.source r.join.source with
      | none => cases joinColumns? registry style t.target r.join.target <;> exact .none
      | some source =>
        cases joinColumns? registry style t.target r.join.target with
        | none => exact .none
        | some target =>
          have hperm : (source ++ target).Perm (target ++ source) := List.perm_append_comm
          exact .some ⟨rfl, hperm, .some (hperm.map _)⟩

theorem joinMigration?_flip (h : r'.join = r.join.flip) (registry : Registry) (style : NamingStyle)
    (now : Timestamp) : Option.Rel Migration.SameUpToOrder
      (r.joinMigration? registry style now) (r'.joinMigration? registry style now) := by
  have htable := joinTable?_flip h registry style
  rw [joinMigration?, joinMigration?]
  cases hr : r.joinTable? registry style <;> cases hr' : r'.joinTable? registry style <;>
    rw [hr, hr'] at htable
  · exact .none
  · cases htable
  · cases htable
  · rename_i t t'
    obtain ⟨hsame⟩ := htable
    have hname : (⟨t, now⟩ : Migration).fileName = (⟨t', now⟩ : Migration).fileName := by
      rw [Migration.fileName, Migration.fileName, hsame.name_eq]
    exact .some ⟨hname, hsame⟩

/-- The relations go through the same table, the one from the side where the other arrives, and need
the same migration for it, if any. -/
structure InverseTo (r r' : Relation) : Prop where
  through : ∃ t t', r.join.through = some t ∧ r'.join.through = some t' ∧ t'.table = t.table ∧
    t'.source = t.target ∧ t'.target = t.source
  migration : ∀ registry style now, Option.Rel Migration.SameUpToOrder
    (r.joinMigration? registry style now) (r'.joinMigration? registry style now)

end Relation

/-! ## Both declarations -/

/-- A relation between two keys that leaves its join table to be generated. -/
def RelationDefinition.between (relation : String) (source target : Key) (inverse : Bool)
    (rest : Fields Json) : RelationDefinition :=
  ⟨relation, some source, some target, none, inverse, none, none, none, none, rest⟩

namespace Registry

variable {registry : Registry} {relation relation' : String} {kind kind' : RelationKind}
  {source target : Key} {inverse : Bool} {rest rest' : Fields Json} {r : Relation}

theorem resolveRelation_between_eq_ok_iff (hname : RelationKind.ofName? relation = some kind)
    (hkind : kind.isThrough) :
    registry.resolveRelation (.between relation source target inverse rest) = .ok r ↔
      ∃ s, Reference.ofKey registry false source = .ok s ∧
      ∃ u, Reference.ofKey registry false target = .ok u ∧
      ∃ t, s.throughTo u inverse = .ok t ∧
        r = ⟨kind, u.model, ⟨s.toKey, u.toKey, some t⟩, none, rest⟩ := by
  have hscopes : ∀ model, checkScopes registry model none = .ok () := by
    intro model
    rw [checkScopes]
    cases registry.lookup model <;> rfl
  have hresolve : registry.resolveRelation (.between relation source target inverse rest) =
      relationOfKeys registry kind (.between relation source target inverse rest) := by
    unfold resolveRelation
    rw [RelationDefinition.between, hname]
  rw [hresolve, relationOfKeys]
  simp only [RelationDefinition.between, RelationDefinition.modifier, requireEndpoint, ok_bind,
    bind_eq_ok_iff, throughBetween_of_generated hkind (.inl rfl), map_eq_ok_iff, pure_eq_ok_iff]
  constructor
  · rintro ⟨s, hs, u, hu, -, -, through, ⟨t, ht, rfl⟩, rfl⟩
    exact ⟨s, hs, u, hu, t, ht, rfl⟩
  · rintro ⟨s, hs, u, hu, t, ht, rfl⟩
    exact ⟨s, hs, u, hu, (), hscopes u.model, some t, ⟨t, ht, rfl⟩, rfl⟩

/-- What is resolved on one side can be resolved on the other. -/
theorem exists_resolveRelation_flip (hname : RelationKind.ofName? relation = some kind)
    (hkind : kind.isThrough) (hname' : RelationKind.ofName? relation' = some kind')
    (hkind' : kind'.isThrough)
    (h : registry.resolveRelation (.between relation source target inverse rest) = .ok r) :
    ∃ r', registry.resolveRelation (.between relation' target source (!inverse) rest') = .ok r' ∧
      r'.join = r.join.flip := by
  obtain ⟨s, hs, u, hu, t, ht, rfl⟩ := (resolveRelation_between_eq_ok_iff hname hkind).1 h
  exact ⟨_, (resolveRelation_between_eq_ok_iff hname' hkind').2
    ⟨u, hu, s, hs, t.flip, Reference.throughTo_flip ht, rfl⟩, rfl⟩

/-- **Inverse relations.** A relation from one key to another through a generated join table, and
the inverse relation back, are resolved or refused together, and meet in the same table. -/
theorem inverseTo_of_between (hname : RelationKind.ofName? relation = some kind)
    (hkind : kind.isThrough) (hname' : RelationKind.ofName? relation' = some kind')
    (hkind' : kind'.isThrough) :
    ((∃ r, registry.resolveRelation (.between relation source target inverse rest) = .ok r) ↔
      ∃ r', registry.resolveRelation (.between relation' target source (!inverse) rest') = .ok r') ∧
      ∀ r r', registry.resolveRelation (.between relation source target inverse rest) = .ok r →
        registry.resolveRelation (.between relation' target source (!inverse) rest') = .ok r' →
          r.InverseTo r' := by
  refine ⟨⟨fun ⟨r, hr⟩ ↦ ?_, fun ⟨r', hr'⟩ ↦ ?_⟩, fun r r' hr hr' ↦ ?_⟩
  · obtain ⟨r', hr', -⟩ := exists_resolveRelation_flip hname hkind hname' hkind' hr
    exact ⟨r', hr'⟩
  · obtain ⟨r, hr, -⟩ := exists_resolveRelation_flip hname' hkind' hname hkind hr'
    exact ⟨r, by simpa using hr⟩
  · obtain ⟨s, hs, u, hu, t, ht, rfl⟩ := (resolveRelation_between_eq_ok_iff hname hkind).1 hr
    obtain ⟨r'', hr'', hflip⟩ := exists_resolveRelation_flip hname hkind hname' hkind' hr
    obtain rfl : r'' = r' := Except.ok.inj (hr''.symm.trans hr')
    exact ⟨⟨t, t.flip, rfl, by rw [hflip]; rfl, rfl, rfl, rfl⟩,
      Relation.joinMigration?_flip hflip⟩

def groupsOf : RelationDefinition :=
  .between "many-to-many" (.composite ["User.realm", "User.name"])
    (.composite ["Group.realm", "Group.name"]) false []

def usersOf : RelationDefinition :=
  .between "ManyToManyRelation" (.composite ["Group.realm", "Group.name"])
    (.composite ["User.realm", "User.name"]) true []

theorem inverseTo_of_between_groupsAndUsers :
    ∃ r r', groupModels.resolveRelation groupsOf = .ok r ∧
      groupModels.resolveRelation usersOf = .ok r' ∧ r.InverseTo r' := by
  have hname : RelationKind.ofName? "many-to-many" = some .manyToMany := by decide +kernel
  have hname' : RelationKind.ofName? "ManyToManyRelation" = some .manyToMany := by decide +kernel
  have hgroups : ∃ r, groupModels.resolveRelation groupsOf = .ok r := ⟨_, rfl⟩
  obtain ⟨hboth, hinverse⟩ := inverseTo_of_between hname rfl hname' rfl
  obtain ⟨r, hr⟩ := hgroups
  obtain ⟨r', hr'⟩ := hboth.1 ⟨r, hr⟩
  exact ⟨r, r', hr, hr', hinverse r r' hr hr'⟩

end Registry

end ModelCatalog
