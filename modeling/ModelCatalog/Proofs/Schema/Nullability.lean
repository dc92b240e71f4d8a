import Mathlib.Tactic.Tauto
import ModelCatalog.Proofs.Schema.WellFormed

/-!
# What nullable schemas accept

Letting a node accept `null` takes one of two forms: `null` joins the types of the node, or the node
becomes one of two alternatives. Both accept `null` and what the node accepts, and nothing else,
whatever the keywords of the node mean.

## What is asked of the keywords

Two things are: the keywords that are taken to be harmless have to be so, and the check that
`validate` asks for has to let `null` pass, as it stays beside the alternatives. A `Reading` is any
meaning of keywords that grants them, and `Reading.ofKeywords` makes one of whatever the keywords
without a fixed meaning are told to accept.
-/

namespace ModelCatalog

namespace Fields

variable {α : Type} {fs : Fields α} {key : String}

private theorem mem_remove_iff (h : fs.Distinct) {entry : String × α} :
    entry ∈ fs.remove key ↔ entry ∈ fs ∧ entry.1 ≠ key := by
  obtain ⟨k, v⟩ := entry
  rw [← get?_eq_some_iff_mem (h.remove key), get?_remove h, ← get?_eq_some_iff_mem h]
  split
  · simp_all
  · rename_i hne
    exact (and_iff_left (Ne.symm hne)).symm

private theorem forall_mem_iff_remove (h : fs.Distinct) (key : String) {p : String × α → Prop} :
    (∀ entry ∈ fs, p entry) ↔ (∀ value, fs.get? key = some value → p (key, value)) ∧
      ∀ entry ∈ fs.remove key, p entry := by
  constructor
  · intro hall
    exact ⟨fun value hvalue ↦ hall _ (mem_of_get? hvalue),
      fun entry hentry ↦ hall entry ((mem_remove_iff h).1 hentry).1⟩
  · rintro ⟨hkey, hothers⟩ ⟨k, v⟩ hentry
    by_cases hk : k = key
    · subst hk
      exact hkey v ((get?_eq_some_iff_mem h).2 hentry)
    · exact hothers _ ((mem_remove_iff h).2 ⟨hentry, hk⟩)

end Fields

namespace Schema

/-! ## Readings

A reading may give any meaning to most keywords. Fixed are those of types, of alternatives and of
references, beside which only `validate` counts. -/

/-- A reading of schemas by what each keyword accepts with its value. A node accepts what all its
keywords accept, a reference apart, beside which only `validate` counts. Keywords that are not
mentioned may accept anything. -/
structure Reading (α : Type) where
  null : α
  /-- What a schema accepts. -/
  accepts : Json → α → Prop
  /-- What a keyword accepts with its value. -/
  keyword : String → Json → α → Prop
  hasType : Json → α → Prop
  accepts_node : ∀ {fields : Fields Json} {x : α}, fields.Distinct → fields.get? "$ref" = none →
    (accepts (.object fields) x ↔ ∀ entry ∈ fields, keyword entry.1 entry.2 x)
  accepts_reference : ∀ {fields : Fields Json} {reference : Json} {x : α}, fields.Distinct →
    fields.get? "$ref" = some reference → (accepts (.object fields) x ↔
      keyword "$ref" reference x ∧
        ∀ value, fields.get? "validate" = some value → keyword "validate" value x)
  keyword_harmless : ∀ {key : String} (value : Json) (x : α), key ∈ harmlessKeywords →
    keyword key value x
  keyword_type : ∀ {type : Json} {x : α}, ¬type.isArray → (keyword "type" type x ↔ hasType type x)
  keyword_types : ∀ {types : List Json} {x : α},
    keyword "type" (.array types) x ↔ ∃ type ∈ types, hasType type x
  keyword_anyOf : ∀ {branches : List Json} {x : α},
    keyword "anyOf" (.array branches) x ↔ ∃ branch ∈ branches, accepts branch x
  keyword_validate_null : ∀ value : Json, keyword "validate" value null
  hasType_null : ∀ {x : α}, hasType (.string "null") x ↔ x = null

/-! ## The reading of given keywords -/

section

variable {α : Type} (hasType : Json → α → Prop) (others : String → Json → α → Prop) (x : α)

mutual

/-- Whether a schema accepts a value. What is no node accepts everything. -/
def schemaAccepts : Json → Prop
  | .object fields => entriesAccept (Fields.contains fields "$ref") fields
  | _ => True

/-- Whether the keywords that count accept a value; beside a reference only `validate` does. -/
def entriesAccept (isReference : Bool) : List (String × Json) → Prop
  | [] => True
  | (key, value) :: fields =>
    ((isReference → key = "$ref" ∨ key = "validate") → keywordAccepts key value) ∧
      entriesAccept isReference fields

/-- Whether a keyword accepts a value, with its fixed meaning or with the one that is given. -/
def keywordAccepts (key : String) : Json → Prop
  | .array items =>
    if key ∈ harmlessKeywords then True
    else if key = "type" then ∃ type ∈ items, hasType type x
    else if key = "anyOf" then someAccepts items
    else others key (.array items) x
  | value =>
    if key ∈ harmlessKeywords then True
    else if key = "type" then hasType value x
    else others key value x

def someAccepts : List Json → Prop
  | [] => False
  | branch :: branches => schemaAccepts branch ∨ someAccepts branches

end

variable {hasType others x}

theorem entriesAccept_iff {isReference : Bool} {fields : Fields Json} :
    entriesAccept hasType others x isReference fields ↔ ∀ entry ∈ fields,
      (isReference → entry.1 = "$ref" ∨ entry.1 = "validate") →
        keywordAccepts hasType others x entry.1 entry.2 := by
  induction fields with
  | nil => simp [entriesAccept]
  | cons entry fields ih => rw [entriesAccept, ih, List.forall_mem_cons]

private theorem someAccepts_iff {branches : List Json} :
    someAccepts hasType others x branches ↔
      ∃ branch ∈ branches, schemaAccepts hasType others x branch := by
  induction branches with
  | nil => simp [someAccepts]
  | cons branch branches ih => simp [someAccepts, ih]

theorem keywordAccepts_of_harmless {key : String} (hkey : key ∈ harmlessKeywords) (value : Json) :
    keywordAccepts hasType others x key value := by
  cases value <;> simp [keywordAccepts, hkey]

end

namespace Reading

variable {α : Type}

/-- The reading in which keywords without a fixed meaning accept what they are told to. -/
def ofKeywords (null : α) (hasType : Json → α → Prop) (others : String → Json → α → Prop)
    (hasType_null : ∀ {x}, hasType (.string "null") x ↔ x = null)
    (validate_null : ∀ value, others "validate" value null) : Reading α where
  null := null
  accepts schema x := schemaAccepts hasType others x schema
  keyword key value x := keywordAccepts hasType others x key value
  hasType := hasType
  accepts_node {fields x} _ href := by
    rw [schemaAccepts, entriesAccept_iff, Fields.contains, href]
    simp
  accepts_reference {fields reference x} hfields href := by
    rw [schemaAccepts, entriesAccept_iff, Fields.contains, href]
    constructor
    · intro hall
      exact ⟨hall _ (Fields.mem_of_get? href) fun _ ↦ .inl rfl,
        fun value hvalue ↦ hall _ (Fields.mem_of_get? hvalue) fun _ ↦ .inr rfl⟩
    · rintro ⟨hreference, hvalidate⟩ ⟨key, value⟩ hentry hkey
      have hget := (Fields.get?_eq_some_iff_mem hfields).2 hentry
      obtain rfl | rfl := hkey rfl
      · cases href.symm.trans hget
        exact hreference
      · exact hvalidate value hget
  keyword_harmless value _ hkey := keywordAccepts_of_harmless hkey value
  keyword_type {type x} htype := by
    cases type with
    | array => exact absurd rfl htype
    | _ => simp [keywordAccepts, harmlessKeywords]
  keyword_types := by simp [keywordAccepts, harmlessKeywords]
  keyword_anyOf := by simp [keywordAccepts, harmlessKeywords, someAccepts_iff]
  keyword_validate_null value := by
    cases value <;> simpa [keywordAccepts, harmlessKeywords] using validate_null _
  hasType_null := hasType_null

end Reading

/-! ## Nullable nodes

The two forms are taken separately: the alternative, where the node is kept as a part, and the list
of types, where its keywords stay in place and must not object to `null`. -/

section

variable {fields : Fields Json}

private theorem mem_remaining_iff (h : fields.Distinct) {entry : String × Json} :
    entry ∈ remaining fields ↔
      entry ∈ fields ∧ entry.1 ∉ ["nullable", "validate", "$ref", "type"] := by
  obtain ⟨key, value⟩ := entry
  rw [← Fields.get?_eq_some_iff_mem (distinct_remaining h), get?_remaining h,
    ← Fields.get?_eq_some_iff_mem h, Option.ite_none_left_eq_some, and_comm]

/-- A node in which some keyword may object to a value has types, if it is no reference and what
else it keeps is harmless. -/
theorem exists_type_of_harmless (h : fields.Distinct) (href : fields.get? "$ref" = none)
    (hkeyword : ∃ key ∈ fields.keys, key ∉ harmlessKeywords ∧ key ≠ "validate")
    (hharmless : ∀ key ∈ (remaining fields).keys, key ∈ harmlessKeywords) :
    ∃ type, fields.get? "type" = some type := by
  obtain ⟨key, hkey, hharms, hvalidate⟩ := hkeyword
  obtain ⟨⟨k, value⟩, hentry, rfl⟩ := List.mem_map.1 hkey
  have hnot : (k, value) ∉ remaining fields := fun hmem ↦
    hharms (hharmless _ (List.mem_map_of_mem hmem))
  rw [mem_remaining_iff h, not_and, not_not] at hnot
  have hk := hnot hentry
  simp only [List.mem_cons, List.not_mem_nil, or_false] at hk
  rcases hk with rfl | rfl | rfl | rfl
  · exact absurd (show "nullable" ∈ harmlessKeywords by decide) hharms
  · exact absurd rfl hvalidate
  · cases href.symm.trans ((Fields.get?_eq_some_iff_mem h).2 hentry)
  · exact ⟨value, (Fields.get?_eq_some_iff_mem h).2 hentry⟩

theorem listsNull_iff {type : Json} :
    listsNull type ↔ ∃ types, type = .array types ∧ .string "null" ∈ types := by
  cases type <;> simp [listsNull]

theorem forall_mem_optionalField {key : String} {value : Option Json} {p : String × Json → Prop} :
    (∀ entry ∈ optionalField key value, p entry) ↔ ∀ arg, value = some arg → p (key, arg) := by
  cases value <;> simp

end

namespace Reading

variable {α : Type} (R : Reading α) {fields : Fields Json} {x : α}

/-- What the keyword accepts, if the node has it. -/
def Allows (key : String) (value : Option Json) (x : α) : Prop :=
  ∀ arg, value = some arg → R.keyword key arg x

/-- The parts of a node that is no reference: its types, its check, and the other keywords, harmless
markers aside. -/
theorem accepts_iff_parts (h : fields.Distinct) (href : fields.get? "$ref" = none) :
    R.accepts (.object fields) x ↔ R.Allows "type" (fields.get? "type") x ∧
      R.Allows "validate" (fields.get? "validate") x ∧
        ∀ entry ∈ remaining fields, R.keyword entry.1 entry.2 x := by
  have hnullable := h.remove "nullable"
  have hvalidate := hnullable.remove "validate"
  have hreference := hvalidate.remove "$ref"
  rw [R.accepts_node h href, Fields.forall_mem_iff_remove h "nullable",
    Fields.forall_mem_iff_remove hnullable "validate",
    Fields.forall_mem_iff_remove hvalidate "$ref", Fields.forall_mem_iff_remove hreference "type"]
  simp only [Fields.get?_remove_of_ne hvalidate, Fields.get?_remove_of_ne hnullable,
    Fields.get?_remove_of_ne h, ne_eq, String.reduceEq, not_false_eq_true, href, reduceCtorEq,
    false_imp_iff, implies_true, true_and, Allows]
  have hmarker : ∀ value, fields.get? "nullable" = some value → R.keyword "nullable" value x :=
    fun value _ ↦ R.keyword_harmless value x (by decide)
  tauto

theorem accepts_notNull_iff (h : fields.Distinct) :
    R.accepts (.object (optionalField "type" (fields.get? "type") ++ remaining fields)) x ↔
      R.Allows "type" (fields.get? "type") x ∧
        ∀ entry ∈ remaining fields, R.keyword entry.1 entry.2 x := by
  have href : Fields.get? (optionalField "type" (fields.get? "type") ++ remaining fields) "$ref" =
      none := by
    rw [Fields.get?_append, get?_optionalField,
      Fields.get?_eq_none_iff.2 (notMem_keys_remaining h (by decide))]
    rfl
  rw [R.accepts_node (distinct_typeAndRemaining h) href, List.forall_mem_append,
    forall_mem_optionalField, Allows]

/-- The form in which the node is an alternative to `null`. -/
theorem accepts_alternatives_iff {notNull : Fields Json} {marker : Json} {validate : Option Json} :
    R.accepts (.object ([("anyOf", .array [.object (ofName "null"), .object notNull]),
        ("nullable", marker)] ++ optionalField "validate" validate)) x ↔
      (x = R.null ∨ R.accepts (.object notNull) x) ∧ R.Allows "validate" validate x := by
  have hnull : R.accepts (.object (ofName "null")) x ↔ x = R.null := by
    rw [R.accepts_node (by simp [ofName]) rfl, ofName,
      List.forall_mem_singleton, R.keyword_type (by simp [Json.isArray, Json.array?]),
      R.hasType_null]
  have hmarker := R.keyword_harmless marker x (show "nullable" ∈ harmlessKeywords by decide)
  rw [R.accepts_node (distinct_alternatives _ _ _) (by rw [get?_alternatives]; rfl),
    List.forall_mem_append, forall_mem_optionalField, Allows]
  simp [R.keyword_anyOf, hnull, hmarker]

/-- The form in which `null` joins the types. -/
theorem accepts_types_iff (h : fields.Distinct)
    (hharmless : ∀ key ∈ (remaining fields).keys, key ∈ harmlessKeywords) {types : List Json}
    {marker : Json} {validate : Option Json} :
    R.accepts (.object ([("type", .array types), ("nullable", marker)] ++
        optionalField "validate" validate ++ remaining fields)) x ↔
      (∃ type ∈ types, R.hasType type x) ∧ R.Allows "validate" validate x := by
  have href : Fields.get? ([("type", .array types), ("nullable", marker)] ++
      optionalField "validate" validate ++ remaining fields) "$ref" = none := by
    rw [Fields.get?_append, Fields.get?_append, get?_optionalField,
      Fields.get?_eq_none_iff.2 (notMem_keys_remaining h (by decide))]
    rfl
  have hrest : ∀ entry ∈ remaining fields, R.keyword entry.1 entry.2 x := fun entry hentry ↦
    R.keyword_harmless _ x (hharmless _ (List.mem_map_of_mem hentry))
  have hmarker := R.keyword_harmless marker x (show "nullable" ∈ harmlessKeywords by decide)
  rw [R.accepts_node (distinct_nullableTypes h _ _ _) href, List.forall_mem_append,
    List.forall_mem_append, forall_mem_optionalField, Allows, and_iff_left hrest]
  simp [R.keyword_types, hmarker]

/-- The types of a node, as a list that `null` joins. -/
theorem exists_mem_null_typeList_iff {type : Json} :
    (∃ t ∈ .string "null" :: typeList (some type), R.hasType t x) ↔
      x = R.null ∨ R.keyword "type" type x := by
  have htypes : (∃ t ∈ typeList (some type), R.hasType t x) ↔ R.keyword "type" type x := by
    cases type with
    | array types => rw [R.keyword_types, typeList]
    | _ => simp [typeList, R.keyword_type, Json.isArray, Json.array?]
  rw [← htypes, ← R.hasType_null]
  simp

/-- **Nullable nodes.** A node with some keyword that may object to a value, its types or a
reference among others, and without `null` in a list of types, becomes a schema that accepts `null`
and what the node accepts. -/
theorem accepts_allowNull_iff (hfields : fields.Distinct)
    (hkeyword : ∃ key ∈ fields.keys, key ∉ harmlessKeywords ∧ key ≠ "validate")
    (hnull : ∀ types, fields.get? "type" = some (.array types) → .string "null" ∉ types) :
    R.accepts (allowNull fields) x ↔ x = R.null ∨ R.accepts (.object fields) x := by
  have hlists : ¬(fields.get? "type").any listsNull := by
    intro hany
    obtain ⟨type, htype, hlists⟩ := (Option.any_eq_true _ _).1 hany
    obtain ⟨types, rfl, hmem⟩ := listsNull_iff.1 hlists
    exact hnull types htype hmem
  have hvalidate : x = R.null → R.Allows "validate" (fields.get? "validate") x := by
    rintro rfl value -
    exact R.keyword_validate_null value
  rw [allowNull, if_neg hlists]
  dsimp only
  split
  · -- `null` or what constrains values, and the check beside both
    rw [accepts_alternatives_iff]
    cases href : fields.get? "$ref" with
    | some reference =>
      have hnotNull :
          R.accepts (.object [("$ref", reference)]) x ↔ R.keyword "$ref" reference x := by
        rw [R.accepts_reference (by simp) rfl]
        simp
      have hnode : R.accepts (.object fields) x ↔ R.keyword "$ref" reference x ∧
          R.Allows "validate" (fields.get? "validate") x := R.accepts_reference hfields href
      dsimp only
      rw [hnotNull, hnode]
      tauto
    | none =>
      dsimp only
      rw [R.accepts_notNull_iff hfields, R.accepts_iff_parts hfields href]
      tauto
  · -- nothing but the types and the check constrains values
    rename_i hharmless
    simp only [Bool.or_eq_true, not_or, List.any_eq_true, decide_eq_true_eq, not_exists, not_and,
      not_not, Option.not_isSome_iff_eq_none] at hharmless
    obtain ⟨href, hharmless⟩ := hharmless
    obtain ⟨type, htype⟩ := exists_type_of_harmless hfields href hkeyword hharmless
    have hrest : ∀ entry ∈ remaining fields, R.keyword entry.1 entry.2 x := fun entry hentry ↦
      R.keyword_harmless _ x (hharmless _ (List.mem_map_of_mem hentry))
    have htypes : R.Allows "type" (some type) x ↔ R.keyword "type" type x := by simp [Allows]
    rw [R.accepts_types_iff hfields hharmless, R.accepts_iff_parts hfields href, htype, htypes,
      exists_mem_null_typeList_iff]
    tauto

def typeNameOf : Json → String
  | .null => "null"
  | .bool _ => "boolean"
  | .number _ => "number"
  | .string _ => "string"
  | .array _ => "array"
  | .object _ => "object"

/-- A reading of values in which `minLength` is the only other keyword that objects to any: it wants
texts not to be empty. -/
def texts : Reading Json :=
  ofKeywords .null (fun type x ↦ type = .string (typeNameOf x))
    (fun key _ x ↦ key = "minLength" → x ≠ .string "")
    (fun {x} ↦ by cases x <;> simp [typeNameOf]) (by simp)

theorem accepts_allowNull_nickname :
    let nickname : Fields Json := [("type", .string "string"), ("minLength", .int 1),
      ("nullable", .bool true), ("validate", .string "isWord")]
    (nickname.Distinct ∧ (∃ key ∈ nickname.keys, key ∉ harmlessKeywords ∧ key ≠ "validate") ∧
      ∀ types, nickname.get? "type" = some (.array types) → .string "null" ∉ types) ∧
    texts.accepts (allowNull nickname) .null ∧ texts.accepts (allowNull nickname) (.string "Bo") ∧
      ¬texts.accepts (allowNull nickname) (.string "") ∧
        ¬texts.accepts (allowNull nickname) (.bool true) := by
  intro nickname
  have hfields : nickname.Distinct := by simp [nickname]
  have hkeyword : ∃ key ∈ nickname.keys, key ∉ harmlessKeywords ∧ key ≠ "validate" :=
    ⟨"type", by decide⟩
  have hnull : ∀ types, nickname.get? "type" = some (.array types) → .string "null" ∉ types := by
    simp [nickname]
  have hiff : ∀ x, texts.accepts (allowNull nickname) x ↔
      x = .null ∨ texts.accepts (.object nickname) x :=
    fun x ↦ texts.accepts_allowNull_iff hfields hkeyword hnull
  have hnickname : ∀ x, texts.accepts (.object nickname) x ↔
      typeNameOf x = "string" ∧ x ≠ .string "" := by
    intro x
    simp [texts, ofKeywords, nickname, Json.int, schemaAccepts, entriesAccept_iff, keywordAccepts,
      Fields.contains, harmlessKeywords, eq_comm (a := "string")]
  refine ⟨⟨hfields, hkeyword, hnull⟩, ?_, ?_, ?_, ?_⟩ <;> simp [hiff, hnickname, typeNameOf]

end Reading

end Schema

end ModelCatalog
