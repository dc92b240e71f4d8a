import Mathlib.Data.List.Nodup
import ModelCatalog.Proofs.Relation.Consistency
import ModelCatalog.Proofs.Table.Columns
import ModelCatalog.Proofs.Text.Casing

/-!
# Columns in order

The properties with a column are listed in three parts: the identifying ones, those that relations
join on alone, and the declared ones that are stored. No property is in two parts or twice in one.
Its column is named like the property, or in snake case. So the columns have names of their own
wherever snake case keeps the properties apart.
-/

namespace ModelCatalog

open Outcome

/-! ## Names in the database -/

/-- **Names in camel case are kept apart.** They can be read back from their names in snake case, so
that neither style makes one name of two. -/
theorem NamingStyle.readsBack_and_injOn (style : NamingStyle) :
    (∀ s, Text.IsCamelName s → Text.camelCase (Text.snakeCase s) = s) ∧
      Set.InjOn style.apply {s | Text.IsCamelName s} := by
  refine ⟨fun s hs ↦ ?_, fun s hs t ht heq ↦ ?_⟩
  · rw [Text.camelCase_snakeCase_of_isAlphanum hs.1, Text.lowerFirst_of_isCamelName hs]
  · rw [apply, apply] at heq
    split at heq
    · exact Text.snakeCase_injOn hs ht heq
    · exact heq

theorem NamingStyle.readsBack_and_injOn_userIDs :
    Text.IsCamelName "userID2" ∧ Text.IsCamelName "userId2" ∧
      Text.snakeCase "userID2" = "user_i_d2" ∧ Text.camelCase "user_i_d2" = "userID2" ∧
      NamingStyle.apply ⟨true⟩ "userID2" ≠ NamingStyle.apply ⟨true⟩ "userId2" := by
  have hcapitals : Text.IsCamelName "userID2" := by decide +kernel
  have hcapital : Text.IsCamelName "userId2" := by decide +kernel
  have hsnake : Text.snakeCase "userID2" = "user_i_d2" := by decide +kernel
  obtain ⟨hback, hinj⟩ := readsBack_and_injOn ⟨true⟩
  refine ⟨hcapitals, hcapital, hsnake, hsnake ▸ hback "userID2" hcapitals, fun heq ↦ ?_⟩
  exact absurd (hinj hcapitals hcapital heq) (by decide)

/-! ## Columns

Relations are gone through in order, and each adds the property that it joins on alone, unless it is
there, identifies, or is declared. -/

/-- The relation joins on the one property of the model, and on one property of another. -/
def Relation.JoinsSingly (r : Relation) (model property : String) : Prop :=
  r.join.source = .single (model ++ "." ++ property) ∧
    ∃ other own, r.join.target = .single (other ++ "." ++ own)

theorem Relation.joinsSingly_iff {r : Relation} {model property : String}
    (hmodel : '.' ∉ model.toList) : r.JoinsSingly model property ↔
      ∃ source target, r.join.source = .single source ∧
        cutReference source = some (model, property) ∧ r.join.target = .single target ∧
        (cutReference target).isSome := by
  constructor
  · rintro ⟨hsource, other, own, htarget⟩
    exact ⟨_, _, hsource, cutReference_eq_some_iff.2 ⟨rfl, hmodel⟩, htarget,
      isSome_cutReference_iff.2 ⟨other, own, rfl⟩⟩
  · rintro ⟨source, target, hsource, hcut, htarget, hpoint⟩
    obtain ⟨other, own, rfl⟩ := isSome_cutReference_iff.1 hpoint
    obtain ⟨rfl, -⟩ := cutReference_eq_some_iff.1 hcut
    exact ⟨hsource, other, own, htarget⟩

namespace Model

/-- The properties, neither identifying nor declared, that relations of the model join on alone.
Each is listed once, in the order of the first such relations. -/
structure ListsJoined (m : Model) (joined : List String) : Prop where
  nodup : joined.Nodup
  mem_iff : ∀ p, p ∈ joined ↔ p ∉ m.idProperties ∧ p ∉ m.properties.keys ∧
    ∃ entry ∈ m.relations, entry.2.JoinsSingly m.name p
  order : joined.Pairwise fun p q ↦ ∃ before entry after, m.relations = before ++ entry :: after ∧
    entry.2.JoinsSingly m.name p ∧ ∀ e ∈ before, ¬e.2.JoinsSingly m.name q

variable {registry : Registry} {style : NamingStyle} {m : Model} {property : String}

private theorem exists_foreignKey?_iff (hname : '.' ∉ m.name.toList) {r : Relation} :
    (∃ key, m.foreignKey? registry style r = some (property, key)) ↔
      r.JoinsSingly m.name property ∧ property ∉ m.idProperties ∧
        property ∉ m.properties.keys := by
  simp only [foreignKey?_eq_some_iff, Relation.joinsSingly_iff hname]
  constructor
  · rintro ⟨key, source, target, table, column, hsource, hcut, htarget, hcut', hid, hdeclared, -⟩
    exact ⟨⟨source, target, hsource, hcut, htarget, by rw [hcut', Option.isSome_some]⟩, hid,
      hdeclared⟩
  · rintro ⟨⟨source, target, hsource, hcut, htarget, hpoint⟩, hid, hdeclared⟩
    obtain ⟨⟨table, column⟩, hcut'⟩ := Option.isSome_iff_exists.1 hpoint
    exact ⟨_, source, target, table, column, hsource, hcut, htarget, hcut', hid, hdeclared, rfl⟩

private theorem listsJoined_keys_foreignKeys (hname : '.' ∉ m.name.toList) :
    m.ListsJoined (m.foreignKeys registry style).keys where
  nodup := nodup_keys_foreignKeys
  mem_iff p := by
    rw [mem_keys_foreignKeys_iff, JoinsAlone]
    simp only [Relation.joinsSingly_iff hname]
    tauto
  order := by
    have hordered := pairwise_appendNew_nil Prod.fst
      (m.relations.filterMap fun entry ↦ m.foreignKey? registry style entry.2)
    rw [← foreignKeys_eq_appendNew] at hordered
    refine List.pairwise_map.2 (hordered.imp_of_mem ?_)
    rintro ⟨p, key⟩ ⟨q, key'⟩ - hq ⟨before, after, hadded, hbefore⟩
    obtain ⟨-, hid, hdeclared⟩ :=
      mem_keys_foreignKeys_iff.1 (List.mem_map_of_mem hq : q ∈ (m.foreignKeys registry style).keys)
    -- the relation that the first of the two comes from, and those before it
    obtain ⟨earlier, others, hrelations, rfl, hothers⟩ := List.filterMap_eq_append_iff.1 hadded
    obtain ⟨without, entry, later, rfl, hwithout, hentry, -⟩ :=
      List.filterMap_eq_cons_iff.1 hothers
    refine ⟨earlier ++ without, entry, later, by rw [hrelations, List.append_assoc],
      ((exists_foreignKey?_iff hname).1 ⟨key, hentry⟩).1, fun e he hjoins ↦ ?_⟩
    obtain ⟨key'', hkey⟩ := (exists_foreignKey?_iff hname).2 ⟨hjoins, hid, hdeclared⟩
    rcases List.mem_append.1 he with he | he
    · exact hbefore _ (List.mem_filterMap.2 ⟨e, he, hkey⟩) rfl
    · cases (hwithout e he).symm.trans hkey

/-- **The columns of a model's table.** -/
theorem columnNames_of_migration (hname : '.' ∉ m.name.toList) (hids : m.idProperties.Nodup)
    (hproperties : m.properties.Distinct) {settings : Settings} {now : Timestamp} {mig : Migration}
    (h : m.migration registry settings.namingStyle now = .ok mig) :
    ∃ joined, m.ListsJoined joined ∧
      mig.table.columnNames = (m.idProperties ++ joined ++ m.storedNames).map (fun p ↦
        if settings.normalizeDbNames then Text.snakeCase p else p) ∧
      ((settings.normalizeDbNames → ∀ p ∈ m.idProperties ++ joined ++ m.storedNames,
          Text.IsCamelName p) → mig.table.columnNames.Nodup) := by
  obtain ⟨t, ht, rfl⟩ := migration_eq_ok_iff.1 h
  have hcolumns := columnNames_table ht
  have hnodup := @nodup_columnProperties registry settings.namingStyle m hids hproperties
  refine ⟨_, listsJoined_keys_foreignKeys hname, hcolumns, fun hcamel ↦ ?_⟩
  rw [hcolumns]
  refine List.Nodup.map_on (fun p hp q hq heq ↦ ?_) hnodup
  rw [NamingStyle.apply, NamingStyle.apply] at heq
  split at heq
  · rename_i hnormalize
    exact Text.snakeCase_injOn (hcamel hnormalize p hp) (hcamel hnormalize q hq) heq
  · exact heq

/-- Invoices, each of them to a customer, with a property whose value is computed. -/
def invoices : Model :=
  let relation : RelationKind → String → String → String → Relation :=
    fun kind related source target ↦
      ⟨kind, related, ⟨.single source, .single target, none⟩, none, []⟩
  { Model.named "Invoice" with
    properties := [("issuedOn", .string "date"),
      ("isPaid", .object [("type", .string "boolean"), ("computed", .bool true)])]
    relations := [
      ("lines", relation .hasMany "Line" "Invoice.id" "Line.invoiceId"),
      ("customer", relation .belongsToOne "Customer" "Invoice.customerId" "Customer.id")] }

theorem columnNames_of_migration_invoices :
    '.' ∉ invoices.name.toList ∧ invoices.idProperties.Nodup ∧ invoices.properties.Distinct ∧
      ∃ mig, invoices.migration (.exact [invoices]) (Settings.namingStyle ⟨false, true⟩)
          ⟨2024, 3, 9, 8, 5, 7⟩ = .ok mig ∧
        ∃ joined, invoices.ListsJoined joined ∧
          mig.table.columnNames = (invoices.idProperties ++ joined ++ invoices.storedNames).map
            Text.snakeCase ∧
          ((∀ p ∈ invoices.idProperties ++ joined ++ invoices.storedNames, Text.IsCamelName p) →
            mig.table.columnNames.Nodup) := by
  have hname : '.' ∉ invoices.name.toList := by decide
  have hids : invoices.idProperties.Nodup := by decide
  have hproperties : invoices.properties.Distinct := by
    simp [invoices]
  have hmigrate : (invoices.migration (.exact [invoices]) (Settings.namingStyle ⟨false, true⟩)
      ⟨2024, 3, 9, 8, 5, 7⟩).toOption.any fun _ ↦ true := by
    decide +kernel
  obtain ⟨mig, hmig, -⟩ := exists_of_any hmigrate
  obtain ⟨joined, hjoined, hcolumns, hnodup⟩ :=
    columnNames_of_migration hname hids hproperties hmig
  exact ⟨hname, hids, hproperties, mig, hmig, joined, hjoined, hcolumns, fun h ↦ hnodup fun _ ↦ h⟩

example : ((invoices.table (.exact [invoices]) ⟨true⟩).toOption.map Table.columnNames) =
    some ["id", "customer_id", "issued_on"] := by
  decide +kernel

end Model

end ModelCatalog
