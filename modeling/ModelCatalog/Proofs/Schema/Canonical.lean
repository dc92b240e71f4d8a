import ModelCatalog.Proofs.Schema.Expansion

/-!
# Schemas without shorthand

A schema is canonical if it abbreviates nothing: it is a truth value or a mapping of keywords in
full, and so are the schemas that it holds. Expansion leads to canonical schemas and leaves them as
they are, down to the order of their keys. So the canonical schemas are its fixed points, and a
second expansion does nothing.
-/

namespace ModelCatalog

open Outcome

namespace Schema

/-- The schemas that stand under a keyword. Properties stand in a mapping, the alternatives of a
composition in a list, and items alone or in a list; only a mapping is negated. -/
def schemasUnder (key : String) : Json → List Json
  | .array values => if key ∈ ["items", "allOf", "anyOf", "oneOf"] then values else []
  | .object fields =>
    if key ∈ ["properties", "patternProperties"] then fields.map (·.2)
    else if key ∈ ["items", "not"] then [.object fields]
    else []
  | value => if key = "items" then [value] else []

/-- Nothing is abbreviated in a schema. -/
inductive Canonical : Json → Prop where
  | bool (value : Bool) : Canonical (.bool value)
  | node {fields : Fields Json}
      (hexplicit : Shorthand.ofJson (.object fields) = .explicit fields)
      (hparts : ∀ key value, fields.get? key = some value →
        ∀ part ∈ schemasUnder key value, Canonical part) : Canonical (.object fields)

theorem ofJson_eq_explicit_iff {fields : Fields Json} :
    Shorthand.ofJson (.object fields) = .explicit fields ↔ isExplicit fields := by
  rw [Shorthand.ofJson]
  split <;> simp [*]

/-- The schemas under a keyword are those that expansion descends into. -/
theorem schemasUnder_eq (key : String) (value : Json) :
    schemasUnder key value = if expandsInto key value then (Role.of key).schemas value else [] := by
  by_cases hkey : key ∈ expandedKeywords
  · simp only [expandedKeywords, List.mem_cons, List.not_mem_nil, or_false] at hkey
    rcases hkey with rfl | rfl | rfl | rfl | rfl | rfl | rfl <;> cases value <;> rfl
  · have hinto : ¬expandsInto key value := fun hinto ↦ hkey (mem_expandedKeywords hinto)
    simp only [expandedKeywords, List.mem_cons, List.not_mem_nil, or_false, not_or] at hkey
    rw [if_neg hinto]
    cases value <;> simp [schemasUnder, hkey]

/-! ## Canonical schemas stay as they are -/

namespace Pass

variable {pass : Pass} {path : String}

private theorem runItems_eq_self {items : List Json}
    (h : ∀ item ∈ items, ∀ path, pass.run path item = .ok item) :
    pass.runItems path items = .ok items := by
  induction items with
  | nil => rw [runItems]
  | cons item items ih =>
    rw [runItems, h item (by simp), ih fun other hother ↦ h other (List.mem_cons_of_mem _ hother)]
    rfl

private theorem runNumbered_eq_self {index : Nat} {items : List Json}
    (h : ∀ item ∈ items, ∀ path, pass.run path item = .ok item) :
    pass.runNumbered path index items = .ok items := by
  induction items generalizing index with
  | nil => rw [runNumbered]
  | cons item items ih =>
    rw [runNumbered, h item (by simp),
      ih fun other hother ↦ h other (List.mem_cons_of_mem _ hother)]
    rfl

private theorem runProperties_eq_self {properties : Fields Json}
    (h : ∀ property ∈ properties.map (·.2), ∀ path, pass.run path property = .ok property) :
    pass.runProperties path properties = .ok properties := by
  induction properties with
  | nil => rw [runProperties]
  | cons property properties ih =>
    rw [runProperties, h property.2 (by simp),
      ih fun other hother ↦ h other (List.mem_cons_of_mem _ hother)]
    rfl

private theorem onKeyword_eq_self {role : Role} {value : Json}
    (h : ∀ part ∈ role.schemas value, ∀ path, pass.run path part = .ok part) :
    pass.onKeyword path role value = .ok value := by
  unfold onKeyword
  split
  · exact map_eq_ok_iff.2 ⟨_, runNumbered_eq_self h, rfl⟩
  · exact map_eq_ok_iff.2 ⟨_, runProperties_eq_self h, rfl⟩
  · exact map_eq_ok_iff.2 ⟨_, runItems_eq_self h, rfl⟩
  · rename_i hvalue
    exact h _ (by simp [Role.schemas_items_of_ne_array hvalue]) path
  · exact h _ (by simp [Role.schemas]) path
  · rfl

end Pass

private theorem expandNode_eq_self {keywords : Fields Keyword}
    (h : ∀ key keyword, keywords.get? key = some keyword → expandsInto key keyword.written →
      keyword.compiled = .ok keyword.written) :
    expandNode keywords = .ok (.object (keywords.mapValues (·.written))) := by
  have hstep : ∀ key, expandKeyword keywords (keywords.mapValues (·.written)) key =
      .ok (keywords.mapValues (·.written)) := by
    intro key
    rw [expandKeyword]
    cases hkey : keywords.get? key with
    | none => rfl
    | some keyword =>
      by_cases hinto : expandsInto key keyword.written
      · have hheld : (keywords.mapValues (·.written)).get? key = some keyword.written := by
          rw [Fields.get?_mapValues, hkey]
          rfl
        simp only [if_pos hinto, h key keyword hkey hinto]
        exact congrArg Except.ok (Fields.insert_eq_self hheld)
      · simp only [if_neg hinto]
  have hfold : ∀ keys : List String,
      keys.foldlM (expandKeyword keywords) (keywords.mapValues (·.written)) =
        .ok (keywords.mapValues (·.written)) := by
    intro keys
    induction keys with
    | nil => rfl
    | cons key keys ih => exact (bind_eq_ok_iff.2 ⟨_, hstep key, ih⟩)
  exact bind_eq_ok_iff.2 ⟨_, hfold _, rfl⟩

theorem Canonical.run_eq_self {schema : Json} (h : Canonical schema) (path : String) :
    expansion.run path schema = .ok schema := by
  induction h generalizing path with
  | bool value => rw [Pass.run]
  | @node fields hexplicit _ ih =>
    rw [Pass.run_of_inFull (inFull_of_isExplicit (ofJson_eq_explicit_iff.1 hexplicit))]
    refine (expandNode_eq_self fun key keyword hkey hinto ↦ ?_).trans ?_
    · rw [Pass.get?_runKeywords, Option.map_eq_some_iff] at hkey
      obtain ⟨value, hvalue, rfl⟩ := hkey
      refine Pass.onKeyword_eq_self fun part hpart ↦ ih key value hvalue part ?_
      rw [schemasUnder_eq, if_pos hinto]
      exact hpart
    · rw [Pass.mapValues_runKeywords]

/-! ## Expansion leads to canonical schemas

The node that a value stands for is in full already, so the expanded node is canonical as soon as
the schemas in it are. -/

/-- Expansion replaces a value under a keyword by another. -/
def ExpandsTo (key : String) (value value' : Json) : Prop :=
  if expandsInto key value then
    ∃ place, expansion.onKeyword place (Role.of key) value = .ok value'
  else value' = value

section

variable {fields out : Fields Json} {path key : String}

theorem exists_expanded (h : expandNode (expansion.runKeywords path fields) = .ok (.object out))
    {value : Json} (hvalue : fields.get? key = some value) :
    ∃ value', out.get? key = some value' ∧ ExpandsTo key value value' := by
  have hkey : Fields.get? (expansion.runKeywords path fields) key =
      some ⟨value, expansion.onKeyword (below path key) (Role.of key) value⟩ := by
    rw [Pass.get?_runKeywords, hvalue]
    rfl
  by_cases hinto : expandsInto key value
  · obtain ⟨value', hvalue', hget⟩ := get?_of_expandsInto h hkey hinto
    refine ⟨value', hget, ?_⟩
    rw [ExpandsTo, if_pos hinto]
    exact ⟨_, hvalue'⟩
  · refine ⟨value, get?_of_not_expandsInto h hkey hinto, ?_⟩
    rw [ExpandsTo, if_neg hinto]

private theorem exists_written
    (h : expandNode (expansion.runKeywords path fields) = .ok (.object out))
    {value' : Json} (hvalue' : out.get? key = some value') :
    ∃ value, fields.get? key = some value ∧ ExpandsTo key value value' := by
  have hget : out.get? key = _ := get?_of_expandNode h key
  cases hvalue : fields.get? key with
  | none => simp [Pass.get?_runKeywords, hvalue, hvalue'] at hget
  | some value =>
    obtain ⟨expanded, hexpanded, hto⟩ := exists_expanded h hvalue
    obtain rfl := Option.some.inj (hexpanded.symm.trans hvalue')
    exact ⟨value, rfl, hto⟩

/-- Expansion keeps the marks of a schema in full. -/
theorem isExplicit_of_expandNode
    (h : expandNode (expansion.runKeywords path fields) = .ok (.object out))
    (hfields : isExplicit fields) : isExplicit out := by
  have hplain : ∀ {key}, Role.of key = .plain → out.get? key = fields.get? key := fun hrole ↦ by
    have hget := get?_of_plain h hrole
    rwa [Pass.mapValues_runKeywords] at hget
  simp only [isExplicit, Bool.or_eq_true, Option.any_eq_true, List.any_eq_true] at hfields ⊢
  rcases hfields with ((⟨type, htype, hdeclares⟩ | ⟨reference, href, hstring⟩) |
    ⟨key, hkey, list, hlist, harray⟩) | ⟨inner, hinner, hobject⟩
  · exact .inl (.inl (.inl ⟨type, (hplain (by decide)).trans htype, hdeclares⟩))
  · exact .inl (.inl (.inr ⟨reference, (hplain (by decide)).trans href, hstring⟩))
  · -- a list of alternatives stays a list
    have hrole : Role.of key = .composite := by simp [Role.of, hkey]
    obtain ⟨list', hget, hto⟩ := exists_expanded h hlist
    rw [ExpandsTo, if_pos (by simp [expandsInto, hrole, harray]), hrole] at hto
    obtain ⟨place, hlist'⟩ := hto
    obtain ⟨items, rfl⟩ := Json.isArray_iff.1 harray
    obtain ⟨items', -, rfl⟩ := map_eq_ok_iff.1 hlist'
    exact .inl (.inr ⟨key, hkey, _, hget, rfl⟩)
  · -- what is negated stays a mapping
    obtain ⟨inner', hget, hto⟩ := exists_expanded h hinner
    rw [ExpandsTo, if_pos (show expandsInto "not" inner from hobject)] at hto
    obtain ⟨place, hinner'⟩ := hto
    obtain ⟨keywords, rfl⟩ := Json.isObject_iff.1 hobject
    have hrun : expansion.run place (.object keywords) = .ok inner' := hinner'
    rw [Pass.run_of_inFull rfl] at hrun
    exact .inr ⟨inner', hget, isObject_of_expandNode hrun⟩

end

private theorem canonical_of_yields {v e : Json} (h : expansion.Yields v e) : Canonical e := by
  induction v using induction_inFull generalizing e with
  | step v ih =>
    obtain ⟨path, hrun⟩ := h
    cases hfull : inFull v with
    | none =>
      obtain ⟨value, -, rfl⟩ := Pass.eq_bool_of_inFull hfull hrun
      exact .bool value
    | some fields =>
      rw [Pass.run_of_inFull hfull] at hrun
      obtain ⟨out, rfl⟩ := Json.isObject_iff.1 (isObject_of_expandNode hrun)
      refine .node (ofJson_eq_explicit_iff.2 (isExplicit_of_expandNode hrun
        (isExplicit_of_inFull hfull))) fun key value' hvalue' part' hpart' ↦ ?_
      -- a schema that expansion descends into comes from one in the node as written
      rw [schemasUnder_eq] at hpart'
      split at hpart'
      · rename_i hinto'
        obtain ⟨value, hvalue, hto⟩ := exists_written hrun hvalue'
        rw [ExpandsTo] at hto
        split at hto
        · obtain ⟨place, hcompiled⟩ := hto
          obtain ⟨part, hpart, hyields⟩ := exists_left_of_forall₂
            (Pass.forall₂_onKeyword (fun _ _ ↦ isObject_of_expandNode) hcompiled) hpart'
          exact ih fields hfull part ⟨key, value, hvalue, hpart⟩ hyields
        · rename_i hinto
          exact absurd (hto ▸ hinto') hinto
      · simp at hpart'

/-- **Expansion and canonical schemas.** What expansion leads to is canonical, and a canonical
schema is its own expansion, with its keys in the same order; so expanding twice is expanding
once. -/
theorem expand_canonical :
    (∀ v e, expand v = .ok e → Canonical e ∧ expand e = .ok e) ∧
      ∀ schema, Canonical schema → expand schema = .ok schema := by
  refine ⟨fun v e h ↦ ?_, fun schema h ↦ h.run_eq_self ""⟩
  have hcanonical := canonical_of_yields ⟨"", h⟩
  exact ⟨hcanonical, hcanonical.run_eq_self ""⟩

/-- An order that lists its items as a pair, under a property with the name of a keyword. What is
negated is no mapping, so it stays as written. -/
def orderProperties (first second : Json) : Fields Json :=
  [("items", .object [("type", .string "array"), ("items", .array [first, second]),
    ("not", .array [.string "Order"])])]

theorem expand_canonical_orderProperties :
    let written := Json.object (orderProperties (.string "Tag")
      (.array [.string "string", .string "integer"]))
    let expanded := Json.object (closedObject (orderProperties (.object (ofName "Tag"))
      (.object (listOf (.object (anyOf [.object (ofName "string"),
        .object (ofName "integer")]))))))
    expand written = .ok expanded ∧ Canonical expanded ∧ expand expanded = .ok expanded := by
  intro written expanded
  have hexpand : expand written = .ok expanded := rfl
  obtain ⟨hcanonical, -⟩ := expand_canonical.1 written expanded hexpand
  exact ⟨hexpand, hcanonical, expand_canonical.2 expanded hcanonical⟩

end Schema

end ModelCatalog
