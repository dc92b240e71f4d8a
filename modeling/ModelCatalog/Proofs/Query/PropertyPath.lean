import ModelCatalog.Proofs.Outcome
import ModelCatalog.Proofs.Text.Cut
import ModelCatalog.Query.Parameters

/-!
# Property paths, relation by relation

A reference is resolved in one walk over its segments, along relations that may lead back to where
the walk came from. What the walk finds is what the recursive reading of a reference says: behind a
first relation, the rest of the reference is a reference from the related model.

The walk reports a fault in terms of the whole reference, so the two readings fail with different
errors, and only their results are compared.
-/

namespace ModelCatalog

open Outcome Text

namespace PropertyPath

/-- The reference that a path resolves, written from the names on the way. -/
def reference (p : PropertyPath) : String := ".".intercalate (p.relationNames ++ [p.property])

/-- The path goes from a model of the given table along one relation first, and then on as the
other path does from the related model. -/
structure Prepends (p : PropertyPath) (rootTable name : String) (relation : Relation)
    (rest : PropertyPath) : Prop where
  property : p.property = rest.property
  model : p.model = rest.model
  relations : p.relations = (name, relation.kind) :: rest.relations
  rootTable : p.rootTable = rootTable
  isOneToOne : p.isOneToOne ↔ relation.kind.isOneToOne ∧ rest.isOneToOne

end PropertyPath

/-! ## Segments

All segments but the last name relations, the last one names a property. -/

/-- The last segment of a reference, and the segments before it. -/
def propertyOf (reference : String) : String := (splitAt '.' reference).getLastD ""

def relationsOf (reference : String) : List String := (splitAt '.' reference).dropLast

theorem splitAt_ne_nil (sep : Char) (s : String) : splitAt sep s ≠ [] := by
  simp [splitAt]

private theorem splitAt_dotted {name : String} (h : '.' ∉ name.toList) (reference : String) :
    splitAt '.' (name ++ "." ++ reference) = name :: splitAt '.' reference := by
  have htoList : (name ++ "." ++ reference).toList = name.toList ++ '.' :: reference.toList := by
    simp
  rw [splitAt, htoList, List.splitOn_append_cons_self_of_not_mem h, List.map_cons,
    String.ofList_toList]
  rfl

private theorem propertyOf_dotted {name : String} (h : '.' ∉ name.toList) (reference : String) :
    propertyOf (name ++ "." ++ reference) = propertyOf reference := by
  rw [propertyOf, splitAt_dotted h, List.getLastD_cons, propertyOf]
  obtain ⟨last, hlast⟩ := Option.ne_none_iff_exists'.1
    (mt List.getLast?_eq_none_iff.1 (splitAt_ne_nil '.' reference))
  simp [List.getLastD_eq_getLast?, hlast]

private theorem relationsOf_dotted {name : String} (h : '.' ∉ name.toList) (reference : String) :
    relationsOf (name ++ "." ++ reference) = name :: relationsOf reference := by
  rw [relationsOf, splitAt_dotted h, List.dropLast_cons_of_ne_nil (splitAt_ne_nil '.' reference),
    relationsOf]

/-- A reference is made up of its segments. -/
theorem intercalate_segments (reference : String) :
    ".".intercalate (relationsOf reference ++ [propertyOf reference]) = reference := by
  have hsegments : relationsOf reference ++ [propertyOf reference] = splitAt '.' reference := by
    have hne := splitAt_ne_nil '.' reference
    rw [relationsOf, propertyOf, List.getLastD_eq_getLast?, List.getLast?_eq_some_getLast hne,
      Option.getD_some, List.dropLast_append_getLast]
  have hdot : ".".toList = ['.'] := rfl
  have hpieces : (reference.toList.splitOn '.').map (String.toList ∘ String.ofList) =
      reference.toList.splitOn '.' := by simp
  rw [hsegments, ← String.toList_inj, String.toList_intercalate, splitAt, List.map_map, hpieces,
    hdot, List.intercalate_splitOn]

namespace Registry

variable {registry : Registry} {unknown : QueryError} {model last : Model}
  {segments : List String} {relations : List (String × RelationKind)}

/-! ## The walk

A walk that succeeds has found a relation for each segment and ends at a model. Nothing else about
it matters, and in particular not what it would have reported. -/

@[simp] theorem find_eq_ok_iff {name : String} {m : Model} :
    registry.find name = .ok m ↔ registry.lookup name = some m := by
  rw [find]
  cases registry.lookup name <;> simp

theorem follow_cons_eq_ok_iff {segment : String} :
    registry.follow unknown model (segment :: segments) = .ok (relations, last) ↔
      ∃ relation related rest, model.relation? segment = some relation ∧
        registry.lookup relation.relatedModel = some related ∧
          registry.follow unknown related segments = .ok (rest, last) ∧
            relations = (segment, relation.kind) :: rest := by
  rw [follow]
  cases model.relation? segment with
  | none => simp
  | some relation =>
    simp only [bind_eq_ok_iff, find_eq_ok_iff, pure_eq_ok_iff, Prod.exists, Prod.mk.injEq,
      Option.some.injEq, exists_and_left, exists_eq_left']
    refine exists_congr fun related ↦ and_congr_right fun _ ↦ ?_
    constructor
    · rintro ⟨rest, other, hfollow, rfl, rfl⟩
      exact ⟨rest, hfollow, rfl⟩
    · rintro ⟨rest, hfollow, rfl⟩
      exact ⟨rest, last, hfollow, rfl, rfl⟩

/-- The names on the way are the segments. -/
theorem map_fst_of_follow (h : registry.follow unknown model segments = .ok (relations, last)) :
    relations.map (·.1) = segments := by
  induction segments generalizing model relations with
  | nil =>
    rw [follow] at h
    obtain ⟨rfl, -⟩ := Prod.mk.inj (Except.ok.inj h)
    rfl
  | cons segment segments ih =>
    obtain ⟨relation, related, rest, -, -, hrest, rfl⟩ := follow_cons_eq_ok_iff.1 h
    rw [List.map_cons, ih hrest]

/-- Which error stands for a segment without a relation makes no difference to the result. -/
theorem follow_eq_ok_congr (unknown other : QueryError) :
    registry.follow unknown model segments = .ok (relations, last) ↔
      registry.follow other model segments = .ok (relations, last) := by
  induction segments generalizing model relations with
  | nil => rfl
  | cons segment segments ih =>
    rw [follow_cons_eq_ok_iff, follow_cons_eq_ok_iff]
    simp only [ih]

/-! ## References -/

theorem propertyPath_eq_ok_iff {name reference : String} {p : PropertyPath} :
    registry.propertyPath name reference = .ok p ↔
      ∃ root relations last, registry.lookup name = some root ∧ propertyOf reference ≠ "" ∧
        registry.follow (.unknownProperty root.name reference) root (relationsOf reference) =
            .ok (relations, last) ∧
          last.hasProperty (propertyOf reference) ∧
            p = ⟨relations, propertyOf reference, last.name, root.tableName⟩ := by
  simp only [propertyPath, bind_eq_ok_iff, find_eq_ok_iff, exists_and_left, propertyOf,
    relationsOf]
  refine exists_congr fun root ↦ and_congr_right fun _ ↦ ?_
  generalize (splitAt '.' reference).getLastD "" = property
  generalize (splitAt '.' reference).dropLast = names
  by_cases hproperty : property = ""
  · simp [hproperty]
  · rw [if_neg (by simpa using hproperty)]
    simp only [bind_eq_ok_iff, Prod.exists, ne_eq, hproperty, not_false_eq_true, true_and]
    refine exists_congr fun relations ↦ exists_congr fun last ↦ and_congr_right fun _ ↦ ?_
    split
    · rename_i hhas
      rw [pure_eq_ok_iff, eq_comm]
      exact (and_iff_right hhas).symm
    · rename_i hnot
      simp [hnot]

theorem reference_of_propertyPath {name reference : String} {p : PropertyPath}
    (h : registry.propertyPath name reference = .ok p) : p.reference = reference := by
  obtain ⟨root, relations, last, -, -, hfollow, -, rfl⟩ := propertyPath_eq_ok_iff.1 h
  rw [PropertyPath.reference, PropertyPath.relationNames, map_fst_of_follow hfollow,
    intercalate_segments]

/-- Behind its first relation, a path is that of the rest of the reference. -/
theorem exists_prepends_of_propertyPath {name relationName rest : String} {root : Model}
    (hroot : registry.lookup name = some root) (hname : '.' ∉ relationName.toList)
    {p : PropertyPath} (h : registry.propertyPath name (relationName ++ "." ++ rest) = .ok p) :
    ∃ relation q, root.relation? relationName = some relation ∧
      registry.propertyPath relation.relatedModel rest = .ok q ∧
        p.Prepends root.tableName relationName relation q := by
  obtain ⟨root', relations, last, hroot', hproperty, hfollow, hhas, rfl⟩ :=
    propertyPath_eq_ok_iff.1 h
  obtain rfl := Option.some.inj (hroot.symm.trans hroot')
  rw [propertyOf_dotted hname] at hproperty hhas
  rw [relationsOf_dotted hname] at hfollow
  obtain ⟨relation, related, others, hrelation, hrelated, hrest, rfl⟩ :=
    follow_cons_eq_ok_iff.1 hfollow
  refine ⟨relation, ⟨others, propertyOf rest, last.name, related.tableName⟩, hrelation,
    propertyPath_eq_ok_iff.2 ⟨related, others, last, hrelated, hproperty,
      (follow_eq_ok_congr _ _).1 hrest, hhas, rfl⟩, ?_⟩
  exact ⟨propertyOf_dotted hname rest, rfl, rfl, rfl, by simp [PropertyPath.isOneToOne]⟩

theorem succeeds_propertyPath_of_relation {name relationName rest : String} {root : Model}
    (hroot : registry.lookup name = some root) (hname : '.' ∉ relationName.toList)
    {relation : Relation} (hrelation : root.relation? relationName = some relation)
    {q : PropertyPath} (h : registry.propertyPath relation.relatedModel rest = .ok q) :
    Succeeds (registry.propertyPath name (relationName ++ "." ++ rest)) := by
  obtain ⟨related, others, last, hrelated, hproperty, hfollow, hhas, -⟩ :=
    propertyPath_eq_ok_iff.1 h
  refine ⟨_, propertyPath_eq_ok_iff.2 ⟨root, (relationName, relation.kind) :: others, last, hroot,
    ?_, ?_, ?_, rfl⟩⟩
  · rwa [propertyOf_dotted hname]
  · rw [relationsOf_dotted hname]
    exact follow_cons_eq_ok_iff.2 ⟨relation, related, others, hrelation, hrelated,
      (follow_eq_ok_congr _ _).1 hfollow, rfl⟩
  · rwa [propertyOf_dotted hname]

/-- **A reference that begins with a relation.** It resolves if the model has the relation and the
rest resolves from the related model, and the path then goes along the relation first and on as the
path of the rest does, and its names make up the reference. -/
theorem propertyPath_dotted {name relationName : String} {root : Model}
    (hroot : registry.lookup name = some root) (hname : '.' ∉ relationName.toList)
    (rest : String) :
    (Succeeds (registry.propertyPath name (relationName ++ "." ++ rest)) ↔
      ∃ relation, root.relation? relationName = some relation ∧
        Succeeds (registry.propertyPath relation.relatedModel rest)) ∧
    ∀ p, registry.propertyPath name (relationName ++ "." ++ rest) = .ok p →
      ∃ relation q, root.relation? relationName = some relation ∧
        registry.propertyPath relation.relatedModel rest = .ok q ∧
          p.Prepends root.tableName relationName relation q ∧
            p.reference = relationName ++ "." ++ rest := by
  refine ⟨⟨?_, ?_⟩, fun p hp ↦ ?_⟩
  · rintro ⟨p, hp⟩
    obtain ⟨relation, q, hrelation, hq, -⟩ := exists_prepends_of_propertyPath hroot hname hp
    exact ⟨relation, hrelation, q, hq⟩
  · rintro ⟨relation, hrelation, q, hq⟩
    exact succeeds_propertyPath_of_relation hroot hname hrelation hq
  · obtain ⟨relation, q, hrelation, hq, hprepends⟩ := exists_prepends_of_propertyPath hroot hname hp
    exact ⟨relation, q, hrelation, hq, hprepends, reference_of_propertyPath hp⟩

/-- A post, which has an author. -/
def postWithAuthor : Model :=
  ⟨"Post", "posts", ["id"], [("title", .string "string")], [("author", ⟨.belongsToOne, "User",
    ⟨.single "Post.authorId", .single "User.id", none⟩, none, []⟩)], []⟩

def authorOfPosts : Model :=
  ⟨"User", "users", ["id"], [], [("posts", ⟨.hasMany, "Post",
    ⟨.single "User.id", .single "Post.authorId", none⟩, none, []⟩)], []⟩

theorem propertyPath_dotted_otherPosts :
    let registry := exact [postWithAuthor, authorOfPosts]
    registry.lookup "Post" = some postWithAuthor ∧ '.' ∉ "author".toList ∧
      ∃ p relation q, registry.propertyPath "Post" ("author" ++ "." ++ "posts.title") = .ok p ∧
        postWithAuthor.relation? "author" = some relation ∧
        registry.propertyPath relation.relatedModel "posts.title" = .ok q ∧
        p.Prepends "posts" "author" relation q ∧ p.reference = "author.posts.title" := by
  intro registry
  have hroot : registry.lookup "Post" = some postWithAuthor := rfl
  have hname : '.' ∉ "author".toList := by decide
  have hresolves : (registry.propertyPath "Post" ("author" ++ "." ++ "posts.title")).toOption.any
      fun p ↦ p.model == "Post" := by
    decide +kernel
  obtain ⟨p, hp, -⟩ := exists_of_any hresolves
  obtain ⟨relation, q, hrelation, hq, hprepends, hreference⟩ :=
    (propertyPath_dotted hroot hname "posts.title").2 p hp
  exact ⟨hroot, hname, p, relation, q, hp, hrelation, hq, hprepends, hreference⟩

end Registry

end ModelCatalog
