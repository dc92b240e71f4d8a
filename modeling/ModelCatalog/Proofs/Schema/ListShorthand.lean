import ModelCatalog.Proofs.Schema.Expansion
import ModelCatalog.Proofs.Schema.Place

/-!
# Lists of one item type

A list of one item type stands for the arrays of such items, so its expansion should be that of the
item type, put under `items`. But `items` may also hold a list of schemas, and an item type that is
itself a list is put there before it is expanded. So it is taken for several schemas that share one
place, and not for the arrays that it stands for.

The law therefore holds of every item type but lists. Of a list it holds only where there is no
expansion either way, because what is put under `items` is a list in the one case and a mapping in
the other.
-/

namespace ModelCatalog

open Outcome

namespace Schema

/-- The list of one item type has the expansion of the item type under `items`, if there is one, and
no expansion if there is none. -/
def Wraps (item : Json) : Prop :=
  SameResult (expand (.array [item])) ((fun out ↦ .object (listOf out)) <$> expand item)

/-- The expansion of what is written under `items`: of each schema in a list, or of a schema. -/
def expandItems : Json → Except SchemaError Json
  | .array items => .array <$> items.mapM expand
  | item => expand item

variable {item : Json}

/-- Of the keywords that a list of one item type stands for, expansion changes `items` only. -/
theorem expand_singleton_eq (item : Json) : expand (.array [item]) =
    (fun out ↦ .object (listOf out)) <$> expansion.onKeyword (below "" "items") .items item := by
  have hfull : inFull (.array [item]) = some (listOf item) := rfl
  rw [expand, Pass.run_of_inFull hfull, Pass.runKeywords_eq]
  change (expansion.listNode ⟨item, expansion.onKeyword (below "" "items") .items item⟩) = _
  cases expansion.onKeyword (below "" "items") .items item <;> rfl

private theorem sameResult_onKeyword_items (path : String) (item : Json) :
    SameResult (expansion.onKeyword path .items item) (expandItems item) := by
  cases item with
  | array items =>
    rw [Pass.onKeyword, expandItems, Pass.runItems_eq_mapM]
    exact (SameResult.mapM fun item _ ↦ extensional_expansion.sameResult_run item path "").map _
  | _ => exact extensional_expansion.sameResult_run _ path ""

private theorem sameResult_expand_singleton (item : Json) :
    SameResult (expand (.array [item]))
      ((fun out ↦ .object (listOf out)) <$> expandItems item) := by
  rw [expand_singleton_eq]
  exact (sameResult_onKeyword_items _ item).map _

/-- A list of schemas is put under `items` as a list, and no schema expands to a list. -/
theorem sameResult_expandItems_array_iff {items : List Json} :
    SameResult (expandItems (.array items)) (expand (.array items)) ↔
      ¬Succeeds (expand (.array items)) ∧ ¬Succeeds (expandItems (.array items)) := by
  have hne : ∀ t, expandItems (.array items) = .ok t → expand (.array items) ≠ .ok t := by
    intro t ht hexpand
    obtain ⟨outs, -, rfl⟩ := map_eq_ok_iff.1 ht
    exact Pass.Yields.ne_array (fun _ _ ↦ isObject_of_expandNode) ⟨"", hexpand⟩ outs rfl
  constructor
  · intro hsame
    have hiff := sameResult_iff.1 hsame
    exact ⟨fun ⟨t, ht⟩ ↦ hne t ((hiff t).2 ht) ht, fun ⟨t, ht⟩ ↦ hne t ht ((hiff t).1 ht)⟩
  · rintro ⟨hexpand, hitems⟩
    exact sameResult_iff.2 fun t ↦
      iff_of_false (fun ht ↦ hitems ⟨t, ht⟩) fun ht ↦ hexpand ⟨t, ht⟩

private theorem wraps_iff_sameResult :
    Wraps item ↔ SameResult (expandItems item) (expand item) := by
  have hinjective : Function.Injective fun out ↦ Json.object (listOf out) := by
    intro out out' heq
    simpa [listOf] using heq
  have hlist := sameResult_expand_singleton item
  rw [← sameResult_map_iff hinjective]
  exact ⟨fun h ↦ hlist.symm.trans h, fun h ↦ hlist.trans h⟩

/-- **Lists of one item type.** What is put under `items` is what the item type is expanded to
there. That is the expansion of the item type, or there is none of either, except for lists: one
that is expanded in one of the two ways is not expanded alike in the other. -/
theorem expand_singleton (item : Json) :
    SameResult (expand (.array [item])) ((fun out ↦ .object (listOf out)) <$> expandItems item) ∧
      (Wraps item ↔
        item.isArray = false ∨ ¬Succeeds (expand item) ∧ ¬Succeeds (expandItems item)) := by
  refine ⟨sameResult_expand_singleton item, wraps_iff_sameResult.trans ?_⟩
  cases item with
  | array items =>
    refine sameResult_expandItems_array_iff.trans ?_
    simp
  | _ => exact iff_of_true (.of_eq rfl) (.inl rfl)

/-- A list in a list should stand for the lists of lists of texts. It is expanded to the lists whose
first item is a text. -/
theorem not_wraps_listOfTexts : ¬Wraps (.array [.string "string"]) := by
  intro hwraps
  obtain ⟨hexpand, -⟩ := sameResult_expandItems_array_iff.1 (wraps_iff_sameResult.1 hwraps)
  exact hexpand ⟨.object (listOf (.object (ofName "string"))), rfl⟩

end Schema

end ModelCatalog
