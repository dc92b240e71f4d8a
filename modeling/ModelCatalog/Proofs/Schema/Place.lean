import ModelCatalog.Proofs.Schema.Tree
import ModelCatalog.Schema.Conversion

/-!
# The place of a schema

A pass is told where a schema stands, for the sake of its errors. Where there is no error, the place
makes no difference: conversion and expansion have the same result at every place.

What a pass does at a node depends on the outcomes in the keywords, so this is an induction over the
tree, and all it takes of a pass is that its nodes are extensional: what a node results in depends
on the results inside it, and not on the errors.
-/

namespace ModelCatalog

open Outcome

namespace Schema

/-- Two nodes have the same keywords, with the same results as far as there are any. -/
structure KeywordsAgree (keywords keywords' : Fields Keyword) : Prop where
  written : keywords.mapValues (·.written) = keywords'.mapValues (·.written)
  compiled : ∀ key keyword keyword', keywords.get? key = some keyword →
    keywords'.get? key = some keyword' → SameResult keyword.compiled keyword'.compiled

variable {keywords keywords' : Fields Keyword} {fields : Fields Json} {key : String}

namespace KeywordsAgree

theorem get?_written (h : KeywordsAgree keywords keywords') (key : String) :
    (keywords.get? key).map (·.written) = (keywords'.get? key).map (·.written) := by
  rw [← Fields.get?_mapValues, ← Fields.get?_mapValues, h.written]

theorem lookup (h : KeywordsAgree keywords keywords') (key : String) :
    (keywords.get? key = none ∧ keywords'.get? key = none) ∨
      ∃ written compiled compiled', keywords.get? key = some ⟨written, compiled⟩ ∧
        keywords'.get? key = some ⟨written, compiled'⟩ ∧ SameResult compiled compiled' := by
  have hwritten := h.get?_written key
  cases hkey : keywords.get? key with
  | none =>
    rw [hkey, Option.map_none, eq_comm, Option.map_eq_none_iff] at hwritten
    exact .inl ⟨rfl, hwritten⟩
  | some keyword =>
    rw [hkey, Option.map_some, eq_comm, Option.map_eq_some_iff] at hwritten
    obtain ⟨keyword', hkey', heq⟩ := hwritten
    refine .inr ⟨keyword.written, keyword.compiled, keyword'.compiled, rfl, ?_,
      h.compiled key keyword keyword' hkey hkey'⟩
    rw [hkey', ← heq]

/-! ## Expansion -/

theorem expandKeyword (h : KeywordsAgree keywords keywords') :
    SameResult (expandKeyword keywords fields key) (expandKeyword keywords' fields key) := by
  rw [Schema.expandKeyword, Schema.expandKeyword]
  rcases h.lookup key with ⟨hnone, hnone'⟩ | ⟨written, _, _, hkey, hkey', hcompiled⟩
  · rw [hnone, hnone']
    exact .of_eq rfl
  · rw [hkey, hkey']
    by_cases hinto : expandsInto key written
    · simp only [if_pos hinto]
      exact hcompiled.bind fun _ ↦ .of_eq rfl
    · simp only [if_neg hinto]
      exact .of_eq rfl

/-! ## Conversion -/

theorem convertComposite (h : KeywordsAgree keywords keywords') :
    SameResult (convertComposite keywords fields key) (convertComposite keywords' fields key) := by
  rw [Schema.convertComposite, Schema.convertComposite]
  rcases h.lookup key with ⟨hnone, hnone'⟩ | ⟨written, _, _, hkey, hkey', hcompiled⟩
  · rw [hnone, hnone']
    exact .of_eq rfl
  · rw [hkey, hkey']
    cases written with
    | array items => exact hcompiled.bind fun _ ↦ .of_eq rfl
    | _ => exact .of_eq rfl

theorem convertSchemaKeyword (h : KeywordsAgree keywords keywords') :
    SameResult (convertSchemaKeyword keywords fields key)
      (convertSchemaKeyword keywords' fields key) := by
  rw [Schema.convertSchemaKeyword, Schema.convertSchemaKeyword]
  rcases h.lookup key with ⟨hnone, hnone'⟩ | ⟨written, _, _, hkey, hkey', hcompiled⟩
  · rw [hnone, hnone']
    exact .of_eq rfl
  · rw [hkey, hkey']
    exact hcompiled.bind fun _ ↦ .of_eq rfl

theorem convertMapping (h : KeywordsAgree keywords keywords') :
    SameResult (convertMapping keywords fields key) (convertMapping keywords' fields key) := by
  rw [Schema.convertMapping, Schema.convertMapping]
  rcases h.lookup key with ⟨hnone, hnone'⟩ | ⟨written, _, _, hkey, hkey', hcompiled⟩
  · rw [hnone, hnone']
    exact .of_eq rfl
  · rw [hkey, hkey']
    cases written with
    | object properties => exact hcompiled.bind fun _ ↦ .of_eq rfl
    | _ => exact .of_eq rfl

theorem convertObject (h : KeywordsAgree keywords keywords') :
    SameResult (convertObject keywords fields) (convertObject keywords' fields) := by
  -- the required names are read off the properties as written
  have hproperties : (keywords.get? "properties").bind (·.written.object?) =
      (keywords'.get? "properties").bind (·.written.object?) := by
    have hwritten := congrArg (Option.bind · Json.object?) (h.get?_written "properties")
    simpa only [Option.bind_map, Function.comp_def] using hwritten
  rw [Schema.convertObject, Schema.convertObject]
  refine h.convertMapping.bind ?_
  rintro ⟨listed, named⟩
  rw [hproperties]
  exact h.convertMapping.bind fun _ ↦ .of_eq rfl

theorem convertTypeName (h : KeywordsAgree keywords keywords') (options : ConversionOptions)
    (name : String) : SameResult (convertTypeName options keywords fields name)
      (convertTypeName options keywords' fields name) := by
  rw [Schema.convertTypeName, Schema.convertTypeName]
  split
  · dsimp only
    split
    · exact h.convertObject
    · exact h.convertSchemaKeyword
    · exact .of_eq rfl
  · exact .of_eq rfl
  · exact .of_eq rfl

theorem convertType (h : KeywordsAgree keywords keywords') (options : ConversionOptions) :
    SameResult (convertType options keywords fields) (convertType options keywords' fields) := by
  rw [Schema.convertType, Schema.convertType]
  split
  · exact h.convertTypeName options _
  · rename_i types _
    have hitems : ∀ fields, SameResult
        (if types.any (·.isString "array") then convertArray keywords fields else .ok fields)
        (if types.any (·.isString "array") then convertArray keywords' fields else .ok fields) := by
      intro fields
      split
      · exact h.convertSchemaKeyword
      · exact .of_eq rfl
    dsimp only
    split
    · exact h.convertObject.bind hitems
    · exact SameResult.bind (.of_eq rfl) hitems
  · exact .of_eq rfl

end KeywordsAgree

/-! ## Passes

A pass is given by what it does at a node, so extensionality is proved for the two passes, and the
rest is an induction over the tree that serves both. -/

/-- The result at a node is that of the schemas inside it, whatever their errors are. -/
def Pass.Extensional (pass : Pass) : Prop :=
  ∀ keywords keywords', KeywordsAgree keywords keywords' →
    SameResult (pass.node keywords) (pass.node keywords')

theorem extensional_expansion : expansion.Extensional := by
  intro keywords keywords' h
  change SameResult (expandNode keywords) (expandNode keywords')
  rw [expandNode, expandNode, ← h.written]
  exact (SameResult.foldlM (fun _ _ ↦ h.expandKeyword) _ _).bind fun _ ↦ .of_eq rfl

theorem extensional_conversion (options : ConversionOptions) :
    (conversion options).Extensional := by
  intro keywords keywords' h
  change SameResult (convertNode options keywords) (convertNode options keywords')
  rw [convertNode, convertNode, ← h.written]
  refine (SameResult.foldlM (fun _ _ ↦ h.convertComposite) _ _).bind fun _ ↦ ?_
  refine h.convertSchemaKeyword.bind fun _ ↦ ?_
  exact (h.convertType options).bind fun _ ↦ .of_eq rfl

namespace Pass

variable {pass : Pass}

theorem runItems_eq_mapM (path : String) (items : List Json) :
    pass.runItems path items = items.mapM (pass.run path) := by
  induction items with
  | nil => rw [runItems, List.mapM_nil]; rfl
  | cons item items ih => rw [runItems, List.mapM_cons, ih]

private theorem runNumbered_eq_mapM (path : String) (index : Nat) (items : List Json) :
    pass.runNumbered path index items =
      (items.zipIdx index).mapM fun item ↦ pass.run (below path (toString item.2)) item.1 := by
  induction items generalizing index with
  | nil => rw [runNumbered, List.zipIdx_nil, List.mapM_nil]; rfl
  | cons item items ih => rw [runNumbered, List.zipIdx_cons, List.mapM_cons, ih]

theorem runProperties_eq_mapM (path : String) (properties : Fields Json) :
    pass.runProperties path properties = properties.mapM fun property ↦ do
      let out ← pass.run (pass.propertyPath path property.1) property.2
      return (property.1, out) := by
  induction properties with
  | nil => rw [runProperties, List.mapM_nil]; rfl
  | cons property properties ih =>
    rw [runProperties, List.mapM_cons, ih, bind_assoc]
    rfl

/-- If the schemas in a value have the same results at every place, so has the value. -/
theorem sameResult_onKeyword {role : Role} {value : Json}
    (h : ∀ part ∈ role.schemas value, ∀ path path',
      SameResult (pass.run path part) (pass.run path' part)) (path path' : String) :
    SameResult (pass.onKeyword path role value) (pass.onKeyword path' role value) := by
  unfold onKeyword
  split
  · rw [runNumbered_eq_mapM, runNumbered_eq_mapM]
    exact (SameResult.mapM fun item hitem ↦ h item.1 (List.fst_mem_of_mem_zipIdx hitem) _ _).map _
  · rw [runProperties_eq_mapM, runProperties_eq_mapM]
    refine (SameResult.mapM fun property hproperty ↦ ?_).map _
    exact (h property.2 (List.mem_map_of_mem hproperty) _ _).bind fun _ ↦ .of_eq rfl
  · rw [runItems_eq_mapM, runItems_eq_mapM]
    exact (SameResult.mapM fun item hitem ↦ h item hitem _ _).map _
  · rename_i hvalue
    exact h value (by simp [Role.schemas_items_of_ne_array hvalue]) _ _
  · exact h value (by simp [Role.schemas]) _ _
  · exact .of_eq rfl

/-- **Places.** What an extensional pass makes of a schema it makes of it at every place. -/
theorem Extensional.sameResult_run (hpass : pass.Extensional) (v : Json) (path path' : String) :
    SameResult (pass.run path v) (pass.run path' v) := by
  induction v using induction_inFull generalizing path path' with
  | step v ih =>
    cases hfull : inFull v with
    | none =>
      have hbool : ∀ path path' out, pass.run path v = .ok out → pass.run path' v = .ok out := by
        intro path path' out hrun
        obtain ⟨value, rfl, rfl⟩ := eq_bool_of_inFull hfull hrun
        rw [run]
      exact sameResult_iff.2 fun out ↦ ⟨hbool path path' out, hbool path' path out⟩
    | some fields =>
      rw [run_of_inFull hfull, run_of_inFull hfull]
      refine hpass _ _ ⟨by rw [mapValues_runKeywords, mapValues_runKeywords], ?_⟩
      intro key keyword keyword' hkey hkey'
      rw [get?_runKeywords, Option.map_eq_some_iff] at hkey hkey'
      obtain ⟨value, hvalue, rfl⟩ := hkey
      obtain ⟨value', hvalue', rfl⟩ := hkey'
      obtain rfl := Option.some.inj (hvalue.symm.trans hvalue')
      exact sameResult_onKeyword
        (fun part hpart ↦ ih fields hfull part ⟨key, value, hvalue, hpart⟩) _ _

theorem Extensional.run_eq_ok_iff (hpass : pass.Extensional) {v out : Json} {path : String}
    (path' : String) : pass.run path v = .ok out ↔ pass.run path' v = .ok out :=
  sameResult_iff.1 (hpass.sameResult_run v path path') out

theorem Extensional.succeeds_run_iff (hpass : pass.Extensional) {v : Json} {path : String}
    (path' : String) : Succeeds (pass.run path v) ↔ Succeeds (pass.run path' v) :=
  (hpass.sameResult_run v path path').succeeds_iff

theorem Extensional.succeeds_onKeyword_iff (hpass : pass.Extensional) {role : Role} {value : Json}
    {path : String} : Succeeds (pass.onKeyword path role value) ↔
      ∀ part ∈ role.schemas value, Succeeds (pass.run "" part) := by
  unfold onKeyword
  split
  · rename_i items
    rw [succeeds_map_iff, runNumbered_eq_mapM, succeeds_mapM_iff]
    refine (forall₂_congr fun item _ ↦ hpass.succeeds_run_iff "").trans ?_
    rw [← List.forall_mem_map (f := Prod.fst) (P := fun part ↦ Succeeds (pass.run "" part)),
      List.zipIdx_map_fst]
    rfl
  · rename_i properties
    rw [succeeds_map_iff, runProperties_eq_mapM, succeeds_mapM_iff, Role.schemas,
      List.forall_mem_map]
    simp only [bind_pure_comp, succeeds_map_iff]
    exact forall₂_congr fun property _ ↦ hpass.succeeds_run_iff ""
  · rw [succeeds_map_iff, runItems_eq_mapM, succeeds_mapM_iff]
    exact forall₂_congr fun item _ ↦ hpass.succeeds_run_iff ""
  · rename_i hvalue
    rw [Role.schemas_items_of_ne_array hvalue, List.forall_mem_singleton]
    exact hpass.succeeds_run_iff ""
  · rw [Role.schemas, List.forall_mem_singleton]
    exact hpass.succeeds_run_iff ""
  · refine iff_of_true (succeeds_ok _) ?_
    unfold Role.schemas
    split <;> simp_all

end Pass

end Schema

end ModelCatalog
