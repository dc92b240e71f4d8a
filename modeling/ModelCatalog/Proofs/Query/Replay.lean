import ModelCatalog.Proofs.Table.FirstOfName
import ModelCatalog.Query.Session
import Mathlib.Data.List.Induction

/-!
# What a plan amounts to

A query builder takes the steps of a plan one after the other, in any mixture. What it has collected
in the end can be read off the plan as a whole: `Specification.ofPlan` looks, for each part of the
specification, at the steps of one kind in their order. Conditions and orderings are all kept, of
ranges, limits and offsets the last, and names where they first occur.

## The invariant

A further step changes what is read off the plan in the way in which it changes a specification,
whatever its kind (`Specification.ofPlan_concat`), and the whole follows by induction from the end
of the plan.
-/

namespace ModelCatalog

/-! ## Values without repetition

Names are collected by merging one list after another. The outcome is that of joining all lists and
keeping first occurrences. -/

/-- Merging appends the values that are new, each where it first occurs. -/
theorem mergeUnique_eq (target values : List String) :
    mergeUnique target values = target ++ (values.filter (· ∉ target)).eraseDups := by
  have hnew : mergeUnique target values = (appendNew id target values).map id := by
    simp [mergeUnique, appendNew]
  rw [hnew, map_name_appendNew, List.map_id, List.map_id]

/-- Merging drops what is there already, so each value stands where it first occurs. -/
theorem mergeUnique_eraseDups (seen values : List String) :
    mergeUnique seen.eraseDups values = (seen ++ values).eraseDups := by
  rw [mergeUnique_eq, List.eraseDups_append]
  simp [List.removeAll]

private theorem eraseDups_concat (values : List String) (value : String) :
    (values ++ [value]).eraseDups =
    if value ∈ values then values.eraseDups else values.eraseDups ++ [value] := by
  rw [List.eraseDups_append]
  split <;> simp_all [List.removeAll, List.eraseDups_cons]

private theorem nodup_eraseDups (values : List String) : values.eraseDups.Nodup := by
  have hdistinct := Fields.distinct_ofList (values.map fun value ↦ (value, ()))
  simpa [Fields.Distinct, Fields.keys_ofList, Function.comp_def] using hdistinct

/-! ## Lists by model -/

def listsOf (model : String) (entries : List (String × List String)) : List String :=
  (entries.filter (·.1 = model)).flatMap (·.2)

/-- For each model that is named, in the order in which they are first named, its properties, each
where it first occurs. -/
def listsByModel (entries : List (String × List String)) : Fields (List String) :=
  (entries.map (·.1)).eraseDups.map fun model ↦ (model, (listsOf model entries).eraseDups)

section

variable (entries : List (String × List String))

private theorem listsOf_concat (model : String) (entry : String × List String) :
    listsOf model (entries ++ [entry]) =
      listsOf model entries ++ if entry.1 = model then entry.2 else [] := by
  by_cases h : entry.1 = model <;> simp [listsOf, h]

private theorem listsOf_eq_nil {model : String} (h : model ∉ entries.map (·.1)) :
    listsOf model entries = [] := by
  rw [listsOf, List.filter_eq_nil_iff.2 fun entry hentry ↦ ?_, List.flatMap_nil]
  rw [decide_eq_true_eq]
  rintro rfl
  exact h (List.mem_map_of_mem hentry)

private theorem keys_listsByModel : (listsByModel entries).keys =
    (entries.map (·.1)).eraseDups := by
  rw [listsByModel, Fields.keys, List.map_map]
  exact List.map_id _

private theorem get?_listsByModel (model : String) : (listsByModel entries).get? model =
    if model ∈ entries.map (·.1) then some (listsOf model entries).eraseDups else none := by
  have hget : ∀ names : List String,
      Fields.get? (names.map fun name ↦ (name, (listsOf name entries).eraseDups)) model =
        if model ∈ names then some (listsOf model entries).eraseDups else none := by
    intro names
    induction names with
    | nil => simp
    | cons name names ih =>
      rw [List.map_cons, Fields.get?_cons, ih]
      by_cases h : name = model
      · simp [h]
      · simp [h, Ne.symm h]
  simp only [listsByModel, hget, List.mem_eraseDups]

private theorem getD_get?_listsByModel (model : String) :
    ((listsByModel entries).get? model).getD [] = (listsOf model entries).eraseDups := by
  rw [get?_listsByModel]
  split
  · rfl
  · rename_i h
    rw [listsOf_eq_nil entries h]
    rfl

theorem listsByModel_concat (model : String) (properties : List String) :
    listsByModel (entries ++ [(model, properties)]) =
      mergeAt (listsByModel entries) model properties := by
  have hkeys : (listsByModel (entries ++ [(model, properties)])).keys =
      (mergeAt (listsByModel entries) model properties).keys := by
    simp only [mergeAt, Fields.keys_insert, keys_listsByModel, List.map_append, List.map_singleton,
      eraseDups_concat, List.mem_eraseDups]
  refine Fields.ext_of_distinct ?_ hkeys fun key ↦ ?_
  · rw [Fields.Distinct, keys_listsByModel]
    exact nodup_eraseDups _
  · rw [mergeAt, Fields.get?_insert, getD_get?_listsByModel, mergeUnique_eraseDups,
      get?_listsByModel, get?_listsByModel, listsOf_concat]
    by_cases h : model = key
    · subst h
      simp
    · have hmem : key ∈ (entries ++ [(model, properties)]).map (·.1) ↔ key ∈ entries.map (·.1) := by
        simp [Ne.symm h]
      simp only [hmem, if_neg h, List.append_nil]

end

/-! ## The steps of a kind

What is read off a plan for one part of the specification depends on the steps of one kind only. -/

namespace Step

def condition? : Step → Option (WhereKind × Filter)
  | .filter kind condition => some (kind, condition)
  | _ => none

def ordering? : Step → Option (String × Direction)
  | .orderBy column direction => some (column, direction)
  | _ => none

def selected? : Step → Option String
  | .select expression => some expression
  | _ => none

def range? : Step → Option (Int × Int)
  | .range first last => some (first, last)
  | _ => none

def limit? : Step → Option Nat
  | .limit count => some count
  | _ => none

def offset? : Step → Option Nat
  | .offset count => some count
  | _ => none

def eager? : Step → Option String
  | .mergeEager expression => some expression
  | _ => none

def scopes : Step → List String
  | .mergeScope names => names
  | _ => []

def eagerScopes : Step → List String
  | .mergeEagerScope names => names
  | _ => []

def picked? : Step → Option (String × List String)
  | .pick model properties => some (model, properties)
  | _ => none

def omitted? : Step → Option (String × List String)
  | .omit model properties => some (model, properties)
  | _ => none

end Step

/-! ## The plan as a whole -/

namespace Specification

/-- The specification that a plan amounts to. -/
def ofPlan (plan : List Step) : Specification where
  filters := plan.filterMap Step.condition?
  order := plan.filterMap Step.ordering?
  selects := (plan.filterMap Step.selected?).eraseDups
  range := (plan.filterMap Step.range?).getLast?
  limit := (plan.filterMap Step.limit?).getLast?
  offset := (plan.filterMap Step.offset?).getLast?
  eager := (plan.filterMap Step.eager?).eraseDups
  scopes := (plan.flatMap Step.scopes).eraseDups
  eagerScopes := (plan.flatMap Step.eagerScopes).eraseDups
  picked := listsByModel (plan.filterMap Step.picked?)
  omitted := listsByModel (plan.filterMap Step.omitted?)

/-- A further step changes what a plan amounts to in the way in which it changes a specification. -/
theorem ofPlan_concat (plan : List Step) (step : Step) :
    ofPlan (plan ++ [step]) = (ofPlan plan).apply step := by
  cases step <;>
    simp [ofPlan, apply, List.filterMap_cons, mergeUnique_eraseDups, listsByModel_concat,
      Step.condition?, Step.ordering?, Step.selected?, Step.range?, Step.limit?, Step.offset?,
      Step.eager?, Step.scopes, Step.eagerScopes, Step.picked?, Step.omitted?]

/-- **Replaying a plan.** -/
theorem applyAll_empty (plan : List Step) : empty.applyAll plan = ofPlan plan := by
  induction plan using List.reverseRecOn with
  | nil => rfl
  | append_singleton plan step ih => rw [applyAll, List.foldl_concat, ← applyAll, ih, ofPlan_concat]

example :
    let s := empty.applyAll [.mergeScope ["active", "recent"], .pick "User" ["id"], .limit 5,
      .mergeScope ["active"], .pick "User" ["id", "name"], .limit 3]
    s.scopes = ["active", "recent"] ∧ s.picked = [("User", ["id", "name"])] ∧ s.limit = some 3 := by
  decide

end Specification

end ModelCatalog
