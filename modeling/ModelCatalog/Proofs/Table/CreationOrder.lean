import ModelCatalog.Proofs.Table.Migrations

/-!
# The order of creation

The tables of the models are created in the order of the catalog, and the join tables after them. So
every model's table is there when a join table refers to it.

## Where the order says nothing

In a model's table foreign keys come from the relations of the model. As a rule these belong to
their targets, and relations of this kind do not count in the order of the catalog. So the table
referred to is sure to be there only if its model leads to the one with the foreign key by relations
of other kinds, and is not led back to.
-/

namespace ModelCatalog

open Outcome

/-- Some column of the table refers to the other table. -/
def Migration.References (mig : Migration) (table : String) : Prop :=
  ∃ column ∈ mig.table.columns, ∃ key, column.references = some key ∧ key.table = table

instance (mig : Migration) (table : String) : Decidable (mig.References table) :=
  decidable_of_iff
    (mig.table.columns.any fun column ↦ column.references.any fun key ↦ key.table == table)
    (by simp [Migration.References, Option.any_eq_true])

/-! ## What foreign keys refer to -/

namespace Model

variable {registry : Registry} {style : NamingStyle} {m : Model} {columns : List Column}
  {column : Column}

private theorem references_of_mem_keyColumns (h : m.keyColumns style = .ok columns)
    (hcolumn : column ∈ columns) : column.references = none := by
  rw [keyColumns] at h
  split at h
  · obtain ⟨key, -, hkey⟩ := exists_left_of_forall₂ (mapM_eq_ok_iff.1 h) hcolumn
    obtain ⟨type, -, hkey⟩ := bind_eq_ok_iff.1 hkey
    obtain rfl := pure_eq_ok_iff.1 hkey
    rfl
  · obtain rfl := Except.ok.inj h
    obtain ⟨key, -, rfl⟩ := List.mem_map.1 hcolumn
    rfl

private theorem references_of_mem_propertyColumns (h : m.propertyColumns style = .ok columns)
    (hcolumn : column ∈ columns) : column.references = none := by
  obtain ⟨entry, -, -, hentry⟩ := (mem_propertyColumns_iff h).1 hcolumn
  obtain ⟨expanded, -, -, rfl⟩ := propertyColumn?_eq_ok_some_iff.1 hentry
  rfl

/-- Of the columns of a model's table, only those of foreign keys refer to others. -/
theorem mem_foreignKeyColumns_of_references {now : Timestamp} {mig : Migration}
    (h : m.migration registry style now = .ok mig) (hcolumn : column ∈ mig.table.columns)
    {key : ForeignKey} (href : column.references = some key) :
    column ∈ m.foreignKeyColumns registry style := by
  obtain ⟨t, ht, rfl⟩ := migration_eq_ok_iff.1 h
  obtain ⟨keys, hkeys, properties, hproperties, rfl⟩ := table_eq_ok_iff.1 ht
  rw [List.mem_append, List.mem_append] at hcolumn
  rcases hcolumn with (hcolumn | hcolumn) | hcolumn
  · rw [references_of_mem_keyColumns hkeys hcolumn] at href
    cases href
  · exact hcolumn
  · rw [references_of_mem_propertyColumns hproperties hcolumn] at href
    cases href

/-- What a model's table refers to are the foreign keys of the model's relations. -/
theorem exists_foreignKey?_of_references {now : Timestamp} {mig : Migration}
    (h : m.migration registry style now = .ok mig) {table : String} (href : mig.References table) :
    ∃ entry ∈ m.relations, ∃ property key,
      m.foreignKey? registry style entry.2 = some (property, key) ∧ key.table = table := by
  obtain ⟨column, hcolumn, key, hkey, hname⟩ := href
  have hforeign := mem_foreignKeyColumns_of_references h hcolumn hkey
  obtain ⟨⟨property, key'⟩, hmem, rfl⟩ := List.mem_map.1 hforeign
  obtain rfl := Option.some.inj hkey
  rw [foreignKeys_eq_appendNew, mem_appendNew_iff] at hmem
  obtain ⟨-, hfind⟩ := hmem.resolve_left List.not_mem_nil
  obtain ⟨entry, hentry, hforeign⟩ := List.mem_filterMap.1 (List.mem_of_find?_eq_some hfind)
  exact ⟨entry, hentry, property, key', hforeign, hname⟩

end Model

/-! ## Before and after in a list -/

private theorem idxOf_lt_of_sublist {names : List String} (hnames : names.Nodup) {u v : String}
    (h : [u, v].Sublist names) : names.idxOf u < names.idxOf v := by
  have hordered : names.Pairwise fun u v ↦ names.idxOf u < names.idxOf v := by
    refine List.pairwise_iff_getElem.2 fun i j hi hj hij ↦ ?_
    rwa [hnames.idxOf_getElem i hi, hnames.idxOf_getElem j hj]
  exact List.pairwise_iff_forall_sublist.1 hordered h

/-! ## The order of names

A name precedes another one that it depends on, unless that one leads back to it. Sorting puts it
first, also along a chain of such steps. -/

namespace Registry

variable {r : Registry} {names : List String} {u v : String}

/-- A name leads to another that does not lead back. -/
def Precedes (r : Registry) (name related : String) : Prop :=
  r.DependsOn name related ∧ ¬Relation.ReflTransGen r.DependsOn related name

private theorem precedes_congr {r' : Registry} (h : r.lookup = r'.lookup) :
    r.Precedes = r'.Precedes := by
  have hdepends : r.DependsOn = r'.DependsOn := by
    funext name related
    rw [DependsOn, DependsOn, contains, contains, h]
  funext name related
  rw [Precedes, Precedes, hdepends]

theorem idxOf_lt_of_precedes (hu : u ∈ r.sortNames names) (h : r.Precedes u v) :
    v ∈ r.sortNames names ∧ (r.sortNames names).idxOf u < (r.sortNames names).idxOf v := by
  obtain ⟨visit, hvisit, hsort⟩ := r.visited_sortNames names
  have hback : ¬Visit.Leads r.dependencies v u := by
    rw [leads_eq_dependsOn]
    exact h.2
  have hsub : [u, v].Sublist (r.sortNames names) := by
    rw [hsort] at hu ⊢
    exact hvisit.ordered.before hu (mem_dependencies_iff.2 h.1) hback
  exact ⟨hsub.subset (by simp), idxOf_lt_of_sublist (r.nodup_sortNames names) hsub⟩

theorem idxOf_lt_of_chain (hu : u ∈ r.sortNames names) (h : Relation.TransGen r.Precedes u v) :
    v ∈ r.sortNames names ∧ (r.sortNames names).idxOf u < (r.sortNames names).idxOf v := by
  induction h with
  | single h => exact idxOf_lt_of_precedes hu h
  | tail _ h ih =>
    obtain ⟨hmem, hlt⟩ := idxOf_lt_of_precedes ih.1 h
    exact ⟨hmem, Nat.lt_trans ih.2 hlt⟩

end Registry

/-! ## The order of tables -/

namespace Catalog

variable {ds : List ModelDefinition} {c : Catalog} {style : NamingStyle} {now : Timestamp}
  {ms : List Migration}

private theorem getElem?_migrations (h : c.migrations style now = .ok ms) {i : Nat} {m : Model}
    (hi : c.models[i]? = some m) :
    ∃ mig, ms[i]? = some mig ∧ m.migration c.registry style now = .ok mig := by
  obtain ⟨ofModels, hall, rfl⟩ := migrations_eq_ok_iff.1 h
  obtain ⟨extra, heq, -, -⟩ := exists_appendNew_eq (·.table.name) ofModels
    (c.relations.filterMap (Relation.joinMigration? c.registry style now))
  obtain ⟨hlt, rfl⟩ := List.getElem?_eq_some_iff.1 hi
  obtain ⟨hlength, hget⟩ := List.forall₂_iff_get.1 hall
  have hlt' : i < ofModels.length := hlength ▸ hlt
  refine ⟨ofModels[i], ?_, hget i hlt hlt'⟩
  rw [heq, List.getElem?_append_left hlt', List.getElem?_eq_getElem hlt']

/-- A model's table is created before the tables of the models that it precedes, and before all join
tables. -/
theorem exists_earlier_of_leads (hresolve : resolve ds = .ok c)
    (h : c.migrations style now = .ok ms) {i : Nat} {target : Model} (htarget : target ∈ c.models)
    (hleads : ∀ m, c.models[i]? = some m → m = target ∨
      Relation.TransGen (Registry.exact c.models).Precedes target.name m.name) :
    ∃ j ≤ i, ∃ earlier, ms[j]? = some earlier ∧
      earlier.table.name = style.apply target.tableName := by
  obtain ⟨r, hlookup, hnames⟩ := exists_sortNames_of_resolve hresolve
  rw [← Registry.precedes_congr hlookup] at hleads
  obtain ⟨j, hj⟩ := List.mem_iff_getElem?.1 htarget
  obtain ⟨earlier, hearlier, hmigration⟩ := getElem?_migrations h hj
  refine ⟨j, ?_, earlier, hearlier, Model.name_of_migration hmigration⟩
  -- a model stands where its name is sorted
  have hplace : ∀ {k : Nat} {m : Model}, c.models[k]? = some m →
      (r.sortNames (ds.map (·.name))).idxOf m.name = k := by
    intro k m hk
    have hname : (r.sortNames (ds.map (·.name)))[k]? = some m.name := by
      rw [← hnames, List.getElem?_map, hk]
      rfl
    obtain ⟨hlt, hname⟩ := List.getElem?_eq_some_iff.1 hname
    rw [← hname, (r.nodup_sortNames _).idxOf_getElem k hlt]
  cases hm : c.models[i]? with
  | none =>
    have hlt := (List.getElem?_eq_some_iff.1 hj).1
    have hle := List.getElem?_eq_none_iff.1 hm
    omega
  | some m =>
    rw [← hplace hj, ← hplace hm]
    rcases hleads m hm with rfl | hchain
    · exact Nat.le_refl _
    · have hsorted : target.name ∈ r.sortNames (ds.map (·.name)) :=
        hnames ▸ List.mem_map_of_mem htarget
      exact Nat.le_of_lt (Registry.idxOf_lt_of_chain hsorted hchain).2

/-- **The order of creation.** Where a foreign key refers to a model's table, this table is created
before or in the same migration, unless the foreign key is that of a relation of another model,
which the one referred to does not precede. -/
theorem exists_earlier_of_references (hresolve : resolve ds = .ok c)
    (h : c.migrations style now = .ok ms) {i : Nat} {mig : Migration} (hi : ms[i]? = some mig)
    {target : Model} (htarget : target ∈ c.models)
    (href : mig.References (style.apply target.tableName)) :
    (∃ j ≤ i, ∃ earlier, ms[j]? = some earlier ∧
      earlier.table.name = style.apply target.tableName) ∨
    ∃ m, c.models[i]? = some m ∧ m ≠ target ∧
      ¬Relation.TransGen (Registry.exact c.models).Precedes target.name m.name ∧
      ∃ entry ∈ m.relations, ∃ property key,
        m.foreignKey? c.registry style entry.2 = some (property, key) ∧
          key.table = style.apply target.tableName := by
  by_cases hleads : ∀ m, c.models[i]? = some m → m = target ∨
      Relation.TransGen (Registry.exact c.models).Precedes target.name m.name
  · exact .inl (exists_earlier_of_leads hresolve h htarget hleads)
  · simp only [not_forall, not_or] at hleads
    obtain ⟨m, hm, hother, hnot⟩ := hleads
    obtain ⟨mig', hi', hmig⟩ := getElem?_migrations h hm
    obtain rfl : mig' = mig := Option.some.inj (hi'.symm.trans hi)
    exact .inr ⟨m, hm, hother, hnot, Model.exists_foreignKey?_of_references hmig href⟩

end Catalog

/-- Posts with their comments, and the users who wrote the posts. The relation between posts and
comments goes both ways, that between posts and users one way. -/
def postsAndComments : List ModelDefinition :=
  let relation : String → String → String → RelationDefinition := fun kind source target ↦
    ⟨kind, some (.single source), some (.single target), none, false, none, none, none, none, []⟩
  [⟨"Comment", none, none, false, [],
      [("post", relation "belongs-to" "Comment.postId" "Post.id")], []⟩,
    ⟨"Post", none, none, false, [], [("comments", relation "has-many" "Post.id" "Comment.postId"),
      ("author", relation "belongs-to" "Post.authorId" "User.id")], []⟩,
    ⟨"User", none, none, false, [], [], []⟩]

namespace Catalog

/-- Comments refer to posts, which precede them. -/
theorem exists_earlier_of_references_postsAndComments :
    ∃ c, resolve postsAndComments = .ok c ∧
      ∃ ms, c.migrations ⟨false⟩ ⟨2024, 3, 9, 8, 5, 7⟩ = .ok ms ∧
        ∃ mig, ms[1]? = some mig ∧ ∃ target ∈ c.models, mig.References target.tableName ∧
          ((∃ j ≤ 1, ∃ earlier, ms[j]? = some earlier ∧ earlier.table.name = target.tableName) ∨
            ∃ m, c.models[1]? = some m ∧ m ≠ target ∧
              ¬Relation.TransGen (Registry.exact c.models).Precedes target.name m.name ∧
              ∃ entry ∈ m.relations, ∃ property key,
                m.foreignKey? c.registry ⟨false⟩ entry.2 = some (property, key) ∧
                  key.table = target.tableName) := by
  have hrefer : (resolve postsAndComments).toOption.any fun c ↦
      (c.migrations ⟨false⟩ ⟨2024, 3, 9, 8, 5, 7⟩).toOption.any fun ms ↦
        ms[1]?.any fun mig ↦
          c.models.any fun target ↦ decide (mig.References target.tableName) := by
    decide +kernel
  obtain ⟨c, hc, hrefer⟩ := exists_of_any hrefer
  obtain ⟨ms, hms, hrefer⟩ := exists_of_any hrefer
  obtain ⟨mig, hmig, hrefer⟩ := (Option.any_eq_true _ _).1 hrefer
  obtain ⟨target, htarget, hrefer⟩ := List.any_eq_true.1 hrefer
  have hrefer := of_decide_eq_true hrefer
  exact ⟨c, hc, ms, hms, mig, hmig, target, htarget, hrefer,
    exists_earlier_of_references hc hms hmig htarget hrefer⟩

/-- The tables that one table refers to, itself apart. -/
def RefersTo (ms : List Migration) (table other : String) : Prop :=
  ∃ mig ∈ ms, mig.table.name = table ∧ mig.References other ∧ table ≠ other

/-- Posts refer to users, and the table of users is created last, though no table refers back. -/
theorem not_exists_earlier_postsAndComments :
    ∃ c, resolve postsAndComments = .ok c ∧
      ∃ ms, c.migrations ⟨false⟩ ⟨2024, 3, 9, 8, 5, 7⟩ = .ok ms ∧
        (c.models.map (·.tableName)).Nodup ∧
        (∀ table, ¬Relation.TransGen (RefersTo ms) table table) ∧
        ∃ mig, ms[0]? = some mig ∧ mig.References "User" ∧
          (∃ later ∈ ms, later.table.name = "User") ∧
          ¬∃ j ≤ 0, ∃ earlier, ms[j]? = some earlier ∧ earlier.table.name = "User" := by
  -- every foreign key goes down in this list
  have hcreate : (resolve postsAndComments).toOption.any fun c ↦
      (c.migrations ⟨false⟩ ⟨2024, 3, 9, 8, 5, 7⟩).toOption.any fun ms ↦ ms[0]?.any fun mig ↦
        decide ((c.models.map (·.tableName)).Nodup ∧
          ms.map (·.table.name) = ["Post", "Comment", "User"] ∧ mig.References "User" ∧
            ∀ mig ∈ ms, ∀ column ∈ mig.table.columns, ∀ key ∈ column.references,
              ["User", "Post", "Comment"].idxOf key.table <
                ["User", "Post", "Comment"].idxOf mig.table.name) := by
    decide +kernel
  obtain ⟨c, hc, hcreate⟩ := exists_of_any hcreate
  obtain ⟨ms, hms, hcreate⟩ := exists_of_any hcreate
  obtain ⟨mig, hmig, hcreate⟩ := (Option.any_eq_true _ _).1 hcreate
  obtain ⟨htables, hnames, hrefers, hdown⟩ := of_decide_eq_true hcreate
  refine ⟨c, hc, ms, hms, htables, fun table hcycle ↦ ?_, mig, hmig, hrefers, ?_, ?_⟩
  · have hstep : ∀ {table other : String}, RefersTo ms table other →
        ["User", "Post", "Comment"].idxOf other < ["User", "Post", "Comment"].idxOf table := by
      rintro _ _ ⟨mig, hmig, rfl, ⟨column, hcolumn, key, hkey, rfl⟩, -⟩
      exact hdown mig hmig column hcolumn key hkey
    have hchain : ∀ {other : String}, Relation.TransGen (RefersTo ms) table other →
        ["User", "Post", "Comment"].idxOf other < ["User", "Post", "Comment"].idxOf table := by
      intro other h
      induction h with
      | single h => exact hstep h
      | tail _ h ih => exact Nat.lt_trans (hstep h) ih
    exact Nat.lt_irrefl _ (hchain hcycle)
  · exact List.mem_map.1 (hnames ▸ by simp)
  · rintro ⟨j, hj, earlier, hearlier, hname⟩
    obtain rfl := Nat.le_zero.1 hj
    have hfirst : (ms.map (·.table.name))[0]? = some "User" := by
      rw [List.getElem?_map, hearlier, Option.map_some, hname]
    rw [hnames] at hfirst
    exact absurd hfirst (by decide)

end Catalog

end ModelCatalog
