import ModelCatalog.Proofs.Model.Catalog
import ModelCatalog.Proofs.Relation.Consistency
import ModelCatalog.Proofs.Table.Columns

/-!
# Relations that share a name with a property

Validation keeps the names of relations apart from those of declared properties, those that
timestamps add included. Queries may refer to more than these: to an `id` that nobody has declared,
and to properties that the model's relations join on. Those are the names that a relation can still
share with a property.
-/

namespace ModelCatalog

open Outcome

namespace ModelDefinition

variable {d : ModelDefinition} {name : String}

/-- Only the default `id` identifies without being declared. -/
theorem Valid.eq_id_of_mem_idProperties (hvalid : d.Valid) (hid : name ∈ d.idProperties)
    (hname : ¬d.allProperties.contains name) : name = "id" ∧ d.idProperties = ["id"] := by
  have hdefault : ¬d.declaresId := fun hdeclares ↦
    hname (contains_allProperties (hvalid.id_declared hdeclares name hid))
  have hids : d.idProperties = ["id"] := by
    rw [declaresId] at hdefault
    rw [idProperties]
    split at hdefault
    · rename_i hnone
      rw [hnone]
    · rename_i key hkey
      obtain rfl : key = .single "id" := by simpa using hdefault
      rw [hkey]
      rfl
  rw [hids] at hid
  exact ⟨List.mem_singleton.1 hid, hids⟩

end ModelDefinition

namespace Catalog

/-- **Names of relations and properties.** A relation never has the name of a declared property. It
has that of another property exactly if it is called `id` on a model that is identified by default,
or if a relation of the model joins on a property of its name. -/
theorem hasProperty_relationName_iff {ds : List ModelDefinition} {c : Catalog}
    (h : resolve ds = .ok c) {m : Model} (hm : m ∈ c.models) {name : String}
    (hname : name ∈ m.relations.keys) :
    name ∉ m.properties.keys ∧ (m.hasProperty name ↔ (name = "id" ∧ m.idProperties = ["id"]) ∨
      ∃ entry ∈ m.relations, m.name ++ "." ++ name ∈ entry.2.join.source.tokens) := by
  obtain ⟨hvalid, -⟩ := resolve_eq_ok_iff.1 h
  obtain ⟨d, hd, hdescribes⟩ := (holds_of_resolve h).exists_describes hm
  have hd := (validate_eq_ok_iff.1 hvalid).2 d hd
  rw [← hdescribes.keys_relations] at hname
  obtain ⟨described, hdescribed, rfl⟩ := List.mem_map.1 hname
  have hdeclared := hd.notMem_properties described hdescribed
  have hkeys : described.1 ∉ m.properties.keys := by
    rwa [hdescribes.properties_eq, ← Fields.contains_iff_mem_keys]
  have hdot : '.' ∉ m.name.toList :=
    hdescribes.name_eq ▸ dot_notMem_of_isIdentifier hd.identifier
  have hid : described.1 ∈ m.idProperties ↔ described.1 = "id" ∧ m.idProperties = ["id"] := by
    rw [hdescribes.idProperties_eq]
    refine ⟨fun hmem ↦ hd.eq_id_of_mem_idProperties hmem hdeclared, ?_⟩
    rintro ⟨hname, hids⟩
    rw [hids, hname]
    exact List.mem_singleton_self _
  have hown : described.1 ∈ m.ownKeys ↔
      ∃ entry ∈ m.relations, m.name ++ "." ++ described.1 ∈ entry.2.join.source.tokens := by
    rw [Model.mem_ownKeys_iff]
    refine exists_congr fun entry ↦ and_congr_right fun _ ↦ ?_
    simp [cutReference_eq_some_iff, hdot]
  refine ⟨hkeys, ?_⟩
  rw [Model.hasProperty_iff, hid, hown]
  exact or_iff_right hkeys

/-- Users and their posts, with a relation on each side that is called like the property that it
joins on. -/
def usersAndAuthors : List ModelDefinition :=
  let posts : RelationDefinition := ⟨"has-many", some (.single "User.id"),
    some (.single "Post.author"), none, false, none, none, none, none, []⟩
  let author : RelationDefinition := ⟨"belongs-to", some (.single "Post.author"),
    some (.single "User.id"), none, false, none, none, none, none, []⟩
  [⟨"User", none, none, false, [], [("id", posts)], []⟩,
    ⟨"Post", none, none, false, [], [("author", author)], []⟩]

/-- The relation `id` of users. -/
theorem hasProperty_relationName_iff_usersAndAuthors :
    ∃ c, resolve usersAndAuthors = .ok c ∧ ∃ m ∈ c.models, "id" ∈ m.relations.keys ∧
      "id" ∉ m.properties.keys ∧ m.hasProperty "id" := by
  have hfound : (resolve usersAndAuthors).toOption.any fun c ↦ c.models.any fun m ↦
      decide ("id" ∈ m.relations.keys ∧ m.idProperties = ["id"]) := by
    decide +kernel
  obtain ⟨c, hc, hfound⟩ := exists_of_any hfound
  obtain ⟨m, hm, hfound⟩ := List.any_eq_true.1 hfound
  obtain ⟨hname, hids⟩ := of_decide_eq_true hfound
  obtain ⟨hdeclared, hproperty⟩ := hasProperty_relationName_iff hc hm hname
  exact ⟨c, hc, m, hm, hname, hdeclared, hproperty.2 (.inl ⟨rfl, hids⟩)⟩

/-- Both relations have names that queries may refer to as properties. -/
theorem exists_hasProperty_relationName : ∃ c, resolve usersAndAuthors = .ok c ∧
    (∃ m ∈ c.models, "id" ∈ m.relations.keys ∧ m.hasProperty "id") ∧
      ∃ m ∈ c.models, "author" ∈ m.relations.keys ∧ m.hasProperty "author" := by
  have hfound : (resolve usersAndAuthors).toOption.any fun c ↦
      decide ((∃ m ∈ c.models, "id" ∈ m.relations.keys ∧ m.hasProperty "id") ∧
        ∃ m ∈ c.models, "author" ∈ m.relations.keys ∧ m.hasProperty "author") := by
    decide +kernel
  obtain ⟨c, hc, hfound⟩ := exists_of_any hfound
  exact ⟨c, hc, of_decide_eq_true hfound⟩

end Catalog

end ModelCatalog
