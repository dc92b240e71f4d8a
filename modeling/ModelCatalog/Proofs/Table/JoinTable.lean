import ModelCatalog.Proofs.Relation.Consistency
import ModelCatalog.Table.Migration

/-!
# Join tables

The join table of a relation has a column for each part of the keys into it, side by side with the
parts of the relation's own keys, which the columns refer to. So a part without a counterpart is
left out, and a part without a point leaves the relation without a join table.

## Generated tables

Neither happens to a generated join table: it has a column for each part of either key, in order
(`Relation.FollowsKeys.joinColumnNames_eq`). But the columns are named after models and properties
alone, so a relation between a model and itself that has a part in both of its keys gives one name
to two columns (`Relation.FollowsKeys.not_nodup_joinColumnNames`).
-/

namespace ModelCatalog

open Outcome

/-! ## Names of columns -/

/-- The columns that tokens name: what stands behind the first point of each. -/
def columnsNamed (tokens : List String) : List String :=
  tokens.filterMap fun token ↦ (cutReference token).map Prod.snd

namespace Key

def columnNames (key : Key) : List String := columnsNamed key.tokens

/-- The columns that a key into a join table names, as far as the key that they refer to has
parts. -/
def columnNamesTowards (own target : Key) : List String :=
  columnsNamed ((own.tokens.zip target.tokens).map Prod.fst)

/-- The keys have the same number of parts, and all of them have points. -/
def PairsWith (own target : Key) : Prop :=
  List.Forall₂ (fun own target ↦ (cutReference own).isSome ∧ (cutReference target).isSome)
    own.tokens target.tokens

theorem PairsWith.columnNamesTowards_eq {own target : Key} (h : own.PairsWith target) :
    own.columnNamesTowards target = own.columnNames := by
  rw [columnNamesTowards, columnNames, List.map_fst_zip (Nat.le_of_eq h.length_eq)]

end Key

def Through.columnNames (t : Through) : List String := t.source.columnNames ++ t.target.columnNames

namespace Relation

def joinColumnNames (r : Relation) : List String :=
  match r.join.through with
  | none => []
  | some t => t.source.columnNamesTowards r.join.source ++ t.target.columnNamesTowards r.join.target

/-! ## Columns -/

variable {registry : Registry} {style : NamingStyle} {r : Relation} {t : Through}

theorem joinColumn?_eq_some_iff {own target : String} {column : Column} :
    joinColumn? registry style own target = some column ↔
      ∃ table name model property, cutReference own = some (table, name) ∧
        cutReference target = some (model, property) ∧
        column = { Column.plain (style.apply name) .integer with
          notNull := true
          references :=
            some ⟨style.apply (registry.tableOf model), style.apply property, true⟩ } := by
  simp only [joinColumn?, Option.bind_eq_bind, Option.bind_eq_some_iff, Prod.exists,
    Option.some.injEq, exists_and_left, eq_comm (a := column)]

private theorem map_name_of_forall₂_joinColumn? {pairs : List (String × String)}
    {columns : List Column}
    (h : List.Forall₂ (fun pair column ↦ joinColumn? registry style pair.1 pair.2 = some column)
      pairs columns) :
    columns.map (·.name) = (columnsNamed (pairs.map Prod.fst)).map style.apply := by
  induction h with
  | nil => rfl
  | cons hcolumn _ ih =>
    obtain ⟨table, name, model, property, hown, -, rfl⟩ := joinColumn?_eq_some_iff.1 hcolumn
    rw [List.map_cons, ih, List.map_cons, columnsNamed, columnsNamed, List.filterMap_cons, hown]
    rfl

private theorem map_name_of_joinColumns? {own target : Key} {columns : List Column}
    (h : joinColumns? registry style own target = some columns) :
    columns.map (·.name) = (own.columnNamesTowards target).map style.apply :=
  map_name_of_forall₂_joinColumn? (mapM_eq_some_iff.1 h)

theorem exists_joinColumns? {own target : Key} (h : own.PairsWith target) :
    ∃ columns, joinColumns? registry style own target = some columns := by
  rw [Key.PairsWith] at h
  simp only [joinColumns?, mapM_eq_some_iff]
  generalize own.tokens = owns, target.tokens = targets at h
  induction h with
  | nil => exact ⟨[], .nil⟩
  | cons hpair _ ih =>
    obtain ⟨columns, hcolumns⟩ := ih
    obtain ⟨⟨table, name⟩, hown⟩ := Option.isSome_iff_exists.1 hpair.1
    obtain ⟨⟨model, property⟩, htarget⟩ := Option.isSome_iff_exists.1 hpair.2
    exact ⟨_, .cons (joinColumn?_eq_some_iff.2 ⟨table, name, model, property, hown, htarget, rfl⟩)
      hcolumns⟩

/-! ## Tables -/

theorem joinTable?_eq_some_iff {table : Table} : r.joinTable? registry style = some table ↔
    ∃ t, r.join.through = some t ∧ t.model = none ∧ ¬registry.contains t.table ∧
      ∃ source, joinColumns? registry style t.source r.join.source = some source ∧
      ∃ target, joinColumns? registry style t.target r.join.target = some target ∧
        table = ⟨style.apply t.table, source ++ target,
          some ((source ++ target).map (·.name))⟩ := by
  simp only [joinTable?, Option.bind_eq_bind, Option.bind_eq_some_iff, Bool.or_eq_true,
    Option.isSome_iff_ne_none]
  refine exists_congr fun t ↦ and_congr_right fun _ ↦ ?_
  split
  · rename_i hstands
    constructor
    · rintro ⟨⟩
    · rintro ⟨hmodel, hfound, -⟩
      exact (hstands.elim (· hmodel) hfound).elim
  · rename_i hstands
    rw [not_or, not_ne_iff] at hstands
    simp only [Option.bind_eq_some_iff, Option.some.injEq, hstands.1, hstands.2, not_false_eq_true,
      true_and, Bool.false_eq_true, eq_comm (a := table)]

theorem columnNames_joinTable? {table : Table} (h : r.joinTable? registry style = some table) :
    table.columnNames = r.joinColumnNames.map style.apply := by
  obtain ⟨t, ht, -, -, source, hsource, target, htarget, rfl⟩ := joinTable?_eq_some_iff.1 h
  rw [Table.columnNames, List.map_append, map_name_of_joinColumns? hsource,
    map_name_of_joinColumns? htarget, joinColumnNames, ht, List.map_append]

/-- A relation whose keys pair off has a join table, unless a model stands for it. -/
theorem exists_joinTable? (ht : r.join.through = some t) (hmodel : t.model = none)
    (hfound : ¬registry.contains t.table) (hsource : t.source.PairsWith r.join.source)
    (htarget : t.target.PairsWith r.join.target) :
    ∃ table, r.joinTable? registry style = some table ∧ table.name = style.apply t.table := by
  obtain ⟨source, hsource⟩ := @exists_joinColumns? registry style _ _ hsource
  obtain ⟨target, htarget⟩ := @exists_joinColumns? registry style _ _ htarget
  exact ⟨_, joinTable?_eq_some_iff.2 ⟨t, ht, hmodel, hfound, source, hsource, target, htarget, rfl⟩,
    rfl⟩

private theorem joinColumnNames_of_pairsWith (ht : r.join.through = some t)
    (hsource : t.source.PairsWith r.join.source) (htarget : t.target.PairsWith r.join.target) :
    r.joinColumnNames = t.columnNames := by
  rw [joinColumnNames, ht]
  dsimp only
  rw [hsource.columnNamesTowards_eq, htarget.columnNamesTowards_eq, Through.columnNames]

end Relation

/-! ## Generated join tables -/

/-- The column that is generated for a part of a key. -/
def generatedColumn? (token : String) : Option String :=
  (cutReference token).map fun (model, property) ↦ joinColumnName model property

section

variable {key columns : Key} {table : String}

theorem Key.ColumnsIn.pairsWith (h : key.ColumnsIn columns table) : columns.PairsWith key := by
  refine List.Forall₂.flip (h.imp fun token column hcolumn ↦ ?_)
  obtain ⟨model, property, htoken, hcolumn⟩ := hcolumn
  exact ⟨by rw [hcolumn, Option.isSome_some], by rw [htoken, Option.isSome_some]⟩

theorem Key.ColumnsIn.columnNames_eq (h : key.ColumnsIn columns table) :
    columns.columnNames = key.tokens.filterMap generatedColumn? := by
  rw [Key.ColumnsIn] at h
  rw [Key.columnNames]
  generalize key.tokens = tokens, columns.tokens = columns at h
  induction h with
  | nil => rfl
  | cons hcolumn _ ih =>
    obtain ⟨model, property, htoken, hcolumn⟩ := hcolumn
    rw [columnsNamed] at ih ⊢
    rw [List.filterMap_cons, List.filterMap_cons, generatedColumn?, htoken, hcolumn, ih]
    rfl

end

namespace Relation.FollowsKeys

variable {registry : Registry} {d : RelationDefinition} {r : Relation}

/-- **Generated columns.** A generated join table has a column for each part of either key. -/
theorem joinColumnNames_eq (h : r.FollowsKeys registry d) (hkind : r.kind.isThrough)
    (hgenerated : d.through = none ∨ ∃ flag, d.through = some (.generated flag)) :
    ∃ t, r.join.through = some t ∧ t.source.PairsWith r.join.source ∧
      t.target.PairsWith r.join.target ∧
      r.joinColumnNames =
        (r.join.source.tokens ++ r.join.target.tokens).filterMap generatedColumn? := by
  obtain ⟨t, ht, hsource, htarget⟩ := h.generated hkind hgenerated
  refine ⟨t, ht, hsource.pairsWith, htarget.pairsWith, ?_⟩
  rw [joinColumnNames_of_pairsWith ht hsource.pairsWith htarget.pairsWith, Through.columnNames,
    hsource.columnNames_eq, htarget.columnNames_eq, List.filterMap_append]

/-- **Columns of one name.** A part that both keys have gives its name to two columns. -/
theorem not_nodup_joinColumnNames (h : r.FollowsKeys registry d) (hkind : r.kind.isThrough)
    (hgenerated : d.through = none ∨ ∃ flag, d.through = some (.generated flag)) {token : String}
    (hsource : token ∈ r.join.source.tokens) (htarget : token ∈ r.join.target.tokens) :
    ¬r.joinColumnNames.Nodup := by
  obtain ⟨t, ht, -, -, hnames⟩ := h.joinColumnNames_eq hkind hgenerated
  obtain ⟨model, -, hon⟩ := h.source_on
  obtain ⟨property, hcut, -⟩ := hon.cut token hsource
  have hname : generatedColumn? token = some (joinColumnName model property) := by
    rw [generatedColumn?, hcut]
    rfl
  rw [hnames, List.filterMap_append]
  intro hnodup
  exact (List.nodup_append.1 hnodup).2.2 _ (List.mem_filterMap.2 ⟨token, hsource, hname⟩) _
    (List.mem_filterMap.2 ⟨token, htarget, hname⟩) rfl

end Relation.FollowsKeys

end ModelCatalog
