import ModelCatalog.Proofs.Schema.Tree
import Mathlib.Tactic.ByContra

/-!
# What expansion leaves in place

Expansion keeps the keywords of a node and replaces the values of those that hold schemas. What the
expanded node has under a keyword is `Keyword.expanded?`.
-/

namespace ModelCatalog

open Outcome

namespace Schema

/-- What expansion puts in the place of a keyword's value. -/
def Keyword.expanded? (keyword : Keyword) (key : String) : Option Json :=
  if expandsInto key keyword.written then keyword.compiled.toOption else some keyword.written

variable {keywords : Fields Keyword}

theorem get?_of_expandKeyword {fields out : Fields Json} {key : String}
    (hwritten : fields.get? key = (keywords.get? key).map (·.written))
    (h : expandKeyword keywords fields key = .ok out) (other : String) :
    out.get? other =
      if key = other then (keywords.get? key).bind (·.expanded? key) else fields.get? other := by
  rw [expandKeyword] at h
  cases hkey : keywords.get? key with
  | none =>
    simp only [hkey, Except.ok.injEq] at h
    subst h
    split
    · rename_i heq
      rw [← heq, hwritten, hkey]
      rfl
    · rfl
  | some keyword =>
    simp only [hkey] at h
    by_cases hinto : expandsInto key keyword.written
    · rw [if_pos hinto] at h
      obtain ⟨value, hvalue, h⟩ := bind_eq_ok_iff.1 h
      rw [← pure_eq_ok_iff.1 h, Fields.get?_insert, Option.bind_some, Keyword.expanded?,
        if_pos hinto, hvalue]
      rfl
    · rw [if_neg hinto] at h
      obtain rfl := Except.ok.inj h
      split
      · rename_i heq
        rw [← heq, hwritten, hkey, Option.bind_some, Keyword.expanded?, if_neg hinto]
        rfl
      · rfl

private theorem get?_of_foldlM_expandKeyword {keys : List String} (hkeys : keys.Nodup)
    {fields out : Fields Json}
    (hwritten : ∀ key ∈ keys, fields.get? key = (keywords.get? key).map (·.written))
    (h : keys.foldlM (expandKeyword keywords) fields = .ok out) (other : String) :
    out.get? other =
      if other ∈ keys then (keywords.get? other).bind (·.expanded? other)
      else fields.get? other := by
  induction keys generalizing fields with
  | nil =>
    obtain rfl := pure_eq_ok_iff.1 h
    simp
  | cons key keys ih =>
    obtain ⟨hkey, hkeys⟩ := List.nodup_cons.1 hkeys
    obtain ⟨next, hnext, h⟩ := bind_eq_ok_iff.1 h
    have hget := get?_of_expandKeyword (hwritten key (by simp)) hnext
    have hrest : ∀ later ∈ keys, next.get? later = (keywords.get? later).map (·.written) := by
      intro later hlater
      have hne : key ≠ later := fun heq ↦ hkey (heq ▸ hlater)
      rw [hget, if_neg hne]
      exact hwritten later (List.mem_cons_of_mem _ hlater)
    rw [ih hkeys hrest h, hget]
    by_cases heq : key = other
    · subst heq
      simp [hkey]
    · simp [heq, Ne.symm heq]

/-- Expanding keywords adds none, drops none and moves none. -/
theorem keys_of_foldlM_expandKeyword {keys : List String} {fields out : Fields Json}
    (hfields : fields.keys = keywords.keys)
    (h : keys.foldlM (expandKeyword keywords) fields = .ok out) : out.keys = keywords.keys := by
  induction keys generalizing fields with
  | nil =>
    obtain rfl := pure_eq_ok_iff.1 h
    exact hfields
  | cons first keys ih =>
    obtain ⟨next, hnext, h⟩ := bind_eq_ok_iff.1 h
    refine ih ?_ h
    rw [expandKeyword] at hnext
    split at hnext
    · rename_i keyword hkey
      have hmem : first ∈ fields.keys := by
        by_contra hnot
        simp [Fields.get?_eq_none_iff.2 (hfields ▸ hnot)] at hkey
      split at hnext
      · obtain ⟨value, -, hnext⟩ := bind_eq_ok_iff.1 hnext
        rw [← pure_eq_ok_iff.1 hnext, Fields.keys_insert, if_pos hmem, hfields]
      · obtain rfl := Except.ok.inj hnext
        exact hfields
    · obtain rfl := Except.ok.inj hnext
      exact hfields

theorem isObject_of_expandNode {e : Json} (h : expandNode keywords = .ok e) : e.isObject := by
  obtain ⟨fields, -, h⟩ := bind_eq_ok_iff.1 h
  rw [← pure_eq_ok_iff.1 h]
  rfl

theorem keys_of_expandNode {out : Fields Json} (h : expandNode keywords = .ok (.object out)) :
    out.keys = keywords.keys := by
  obtain ⟨fields, hfields, h⟩ := bind_eq_ok_iff.1 h
  obtain rfl := Json.object.inj (pure_eq_ok_iff.1 h)
  exact keys_of_foldlM_expandKeyword (Fields.keys_mapValues _ keywords) hfields

/-- The keywords that expansion descends into are all that can hold schemas. -/
theorem mem_expandedKeywords {key : String} {value : Json} (h : expandsInto key value) :
    key ∈ expandedKeywords := by
  by_contra hkey
  have hplain : Role.of key = .plain := by
    simp only [expandedKeywords, List.mem_cons, List.not_mem_nil, not_or] at hkey
    simp [Role.of, compositeKeywords, hkey]
  simp [expandsInto, hplain] at h

/-- **Expanding a node.** -/
theorem get?_of_expandNode {e : Json} (h : expandNode keywords = .ok e) (key : String) :
    e.get? key = (keywords.get? key).bind (·.expanded? key) := by
  obtain ⟨out, hout, h⟩ := bind_eq_ok_iff.1 h
  have hwritten : ∀ key, (keywords.mapValues (·.written)).get? key =
      (keywords.get? key).map (·.written) := Fields.get?_mapValues _ keywords
  have hget := get?_of_foldlM_expandKeyword (by decide) (fun key _ ↦ hwritten key) hout key
  rw [← pure_eq_ok_iff.1 h, Json.get?, hget]
  split
  · rfl
  · rename_i hkey
    rw [hwritten]
    cases keywords.get? key with
    | none => rfl
    | some keyword =>
      have hinto : ¬expandsInto key keyword.written := fun hinto ↦ hkey (mem_expandedKeywords hinto)
      rw [Option.map_some, Option.bind_some, Keyword.expanded?, if_neg hinto]

section

variable {e : Json} {key : String} {keyword : Keyword}

/-- Where expansion descends into a value, the expanded node has the outcome. -/
theorem get?_of_expandsInto (h : expandNode keywords = .ok e)
    (hkey : keywords.get? key = some keyword) (hinto : expandsInto key keyword.written) :
    ∃ value, keyword.compiled = .ok value ∧ e.get? key = some value := by
  have hget := get?_of_expandNode h key
  rw [hkey, Option.bind_some, Keyword.expanded?, if_pos hinto] at hget
  -- the keyword is still there, so its schemas have been expanded
  have hsome : e.get? key ≠ none := by
    obtain ⟨out, rfl⟩ := Json.isObject_iff.1 (isObject_of_expandNode h)
    rw [Json.get?, ne_eq, Fields.get?_eq_none_iff_of_keys (keys_of_expandNode h), hkey]
    simp
  cases hcompiled : keyword.compiled with
  | ok value =>
    rw [hcompiled] at hget
    exact ⟨value, rfl, hget⟩
  | error cause =>
    rw [hcompiled] at hget
    exact absurd hget hsome

theorem get?_of_not_expandsInto (h : expandNode keywords = .ok e)
    (hkey : keywords.get? key = some keyword) (hinto : ¬expandsInto key keyword.written) :
    e.get? key = some keyword.written := by
  rw [get?_of_expandNode h, hkey, Option.bind_some, Keyword.expanded?, if_neg hinto]

end

theorem get?_of_plain {e : Json} {key : String} (h : expandNode keywords = .ok e)
    (hrole : Role.of key = .plain) :
    e.get? key = (keywords.mapValues (·.written)).get? key := by
  rw [get?_of_expandNode h, Fields.get?_mapValues]
  cases keywords.get? key with
  | none => rfl
  | some keyword => simp [Keyword.expanded?, expandsInto, hrole]

/-! ## Well-placed keywords

The keywords of objects and of arrays stand with their types. Expansion changes neither the keywords
nor the types, so a node and its expansion are well placed together. -/

/-- The type of a schema is the named one or a list with it. -/
def Declares (schema : Json) (name : String) : Prop :=
  ∃ type, schema.get? "type" = some type ∧
    (type = .string name ∨ ∃ types, type = .array types ∧ .string name ∈ types)

/-- The keywords that belong to a type stand where the type is declared, what is negated is a schema
in full, and nothing is a reference and of a type at once. -/
structure PlacedNode (schema : Json) : Prop where
  properties : ∀ key ∈ ["properties", "patternProperties"],
    (schema.get? key).isSome → Declares schema "object"
  items : (schema.get? "items").isSome → Declares schema "array"
  negation : ∀ value, schema.get? "not" = some value → value.isObject ∨ ∃ b, value = .bool b
  reference : schema.get? "$ref" = none ∨ schema.get? "type" = none

/-- All keywords of the expanded schema are well placed. -/
def WellPlaced (schema : Json) : Prop := ∃ e, expand schema = .ok e ∧ Everywhere PlacedNode e

/-- A node that holds no schemas and is no reference is well placed. -/
theorem everywhere_placedNode {fields : Fields Json}
    (hplain : ∀ entry ∈ fields, Role.of entry.1 = .plain) (href : fields.get? "$ref" = none) :
    Everywhere PlacedNode (.object fields) := by
  have hget : ∀ key value, fields.get? key = some value → Role.of key = .plain := fun key value h ↦
    hplain (key, value) (Fields.mem_of_get? h)
  have hnone : ∀ key, Role.of key ≠ .plain → fields.get? key = none := by
    intro key hkey
    by_contra hsome
    obtain ⟨value, hvalue⟩ := Option.ne_none_iff_exists'.1 hsome
    exact hkey (hget key value hvalue)
  refine everywhere_iff.2 ⟨⟨fun key hkey hsome ↦ ?_, ?_, ?_, .inl href⟩, ?_⟩
  · rw [Json.get?, hnone key (by rcases List.mem_pair.1 hkey with rfl | rfl <;> decide)] at hsome
    simp at hsome
  · simp [hnone "items" (by decide)]
  · simp [hnone "not" (by decide)]
  · rintro part ⟨key, value, hvalue, hpart⟩
    simp [hget key value hvalue, Role.schemas] at hpart

/-- Where the keywords of an expanded node are well placed, they are so as written. -/
theorem PlacedNode.of_expandNode {e : Json} (h : expandNode keywords = .ok e) (he : PlacedNode e) :
    PlacedNode (.object (keywords.mapValues (·.written))) := by
  have hwritten : ∀ key, (Json.object (keywords.mapValues (·.written))).get? key =
      (keywords.get? key).map (·.written) := Fields.get?_mapValues _ keywords
  have hsome : ∀ key, ((Json.object (keywords.mapValues (·.written))).get? key).isSome →
      (e.get? key).isSome := by
    intro key hkey
    rw [hwritten, Option.isSome_map, Option.isSome_iff_exists] at hkey
    obtain ⟨keyword, hkeyword⟩ := hkey
    by_cases hinto : expandsInto key keyword.written
    · obtain ⟨value, -, hvalue⟩ := get?_of_expandsInto h hkeyword hinto
      exact Option.isSome_of_eq_some hvalue
    · exact Option.isSome_of_eq_some (get?_of_not_expandsInto h hkeyword hinto)
  -- the type is no place for schemas, so it is as written
  have hdeclares : ∀ name, Declares e name →
      Declares (.object (keywords.mapValues (·.written))) name := by
    rintro name ⟨type, htype, hname⟩
    exact ⟨type, (get?_of_plain h (by decide)).symm.trans htype, hname⟩
  refine ⟨fun key hkey hthere ↦ hdeclares _ (he.properties key hkey (hsome key hthere)),
    fun hthere ↦ hdeclares _ (he.items (hsome "items" hthere)), fun value hvalue ↦ ?_, ?_⟩
  · rw [hwritten, Option.map_eq_some_iff] at hvalue
    obtain ⟨keyword, hkeyword, rfl⟩ := hvalue
    by_cases hinto : expandsInto "not" keyword.written
    · exact .inl hinto
    · exact he.negation _ (get?_of_not_expandsInto h hkeyword hinto)
  · rw [Json.get?, Json.get?, ← get?_of_plain h (by decide), ← get?_of_plain h (by decide)]
    exact he.reference

end Schema

end ModelCatalog
