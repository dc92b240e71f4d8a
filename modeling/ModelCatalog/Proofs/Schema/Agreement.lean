import ModelCatalog.Proofs.Schema.Canonical
import ModelCatalog.Proofs.Schema.Compilation

/-!
# Conversion expands as it goes

Conversion resolves shorthand node by node, so it does not matter whether a schema has been expanded
before: where the keywords that belong to a type stand with that type, both conversions have the
same outcome, errors included. Where they do not, expansion descends into values that conversion
leaves alone.

## Side by side

The two nodes that a schema and its expansion stand for have the same keywords in the same order.
They are converted side by side, and `InStep` describes the keywords in the middle of this: they
differ at most in the values that still wait for their conversion, and of each such pair it is known
that conversion makes the same of both (`Keyword.Same`). In the end no value waits, and the nodes
are equal.
-/

namespace ModelCatalog

open Outcome

namespace Schema

/-! ## Keywords of which conversion makes the same -/

def Keyword.requiredNames (keyword : Keyword) : List String :=
  Schema.requiredNames (keyword.written.object?.getD [])

/-- Conversion makes the same of two keywords of a name. -/
structure Keyword.Same (key : String) (keyword keyword' : Keyword) : Prop where
  compiled : keyword.compiled = keyword'.compiled
  written : Role.of key = .plain → keyword.written = keyword'.written
  list : Role.of key = .composite → keyword.written.isArray = keyword'.written.isArray
  mapping : Role.of key = .properties → keyword.written.isObject = keyword'.written.isObject
  required : Role.of key = .properties → keyword.requiredNames = keyword'.requiredNames

theorem Keyword.Same.refl (key : String) (keyword : Keyword) : Same key keyword keyword :=
  ⟨rfl, fun _ ↦ rfl, fun _ ↦ rfl, fun _ ↦ rfl, fun _ ↦ rfl⟩

/-- Two nodes have the same keywords, as far as conversion is concerned. -/
structure SameKeywords (keywords keywords' : Fields Keyword) : Prop where
  keys : keywords.keys = keywords'.keys
  same : ∀ key keyword keyword', keywords.get? key = some keyword →
    keywords'.get? key = some keyword' → keyword.Same key keyword'

variable {keywords keywords' : Fields Keyword} {pending : List String}
  {fields fields' out out' : Fields Json} {key : String} {options : ConversionOptions}

theorem SameKeywords.lookup (h : SameKeywords keywords keywords') (key : String) :
    (keywords.get? key = none ∧ keywords'.get? key = none) ∨
      ∃ keyword keyword', keywords.get? key = some keyword ∧
        keywords'.get? key = some keyword' ∧ keyword.Same key keyword' := by
  cases hkey : keywords.get? key with
  | none => exact .inl ⟨rfl, (Fields.get?_eq_none_iff_of_keys h.keys).1 hkey⟩
  | some keyword =>
    obtain ⟨keyword', hkey'⟩ := Option.ne_none_iff_exists'.1 fun hnone ↦
      Option.some_ne_none keyword (hkey ▸ (Fields.get?_eq_none_iff_of_keys h.keys).2 hnone)
    exact .inr ⟨keyword, keyword', rfl, hkey', h.same key keyword keyword' hkey hkey'⟩

/-! ## Converting side by side

In each step both nodes lose a pending keyword or give it a value, and it is the same in both. The
order of the keywords never differs. -/

/-- Two nodes that are converted side by side have the same keywords in the same order. Those that
are pending are as written, and all others have the same values. -/
structure InStep (keywords keywords' : Fields Keyword) (pending : List String)
    (fields fields' : Fields Json) : Prop where
  distinct : fields.Distinct
  keys : fields.keys = fields'.keys
  written : ∀ key ∈ pending, fields.get? key = (keywords.get? key).map (·.written) ∧
    fields'.get? key = (keywords'.get? key).map (·.written)
  agree : ∀ key ∉ pending, fields.get? key = fields'.get? key

namespace InStep

theorem distinct' (h : InStep keywords keywords' pending fields fields') : fields'.Distinct := by
  rw [Fields.Distinct, ← h.keys]
  exact h.distinct

/-- A step that edits one keyword in the same way. -/
theorem edit {rest : List String} (h : InStep keywords keywords' pending fields fields')
    (hkey : key ∉ rest) (hrest : ∀ other, other ≠ key → (other ∈ rest ↔ other ∈ pending))
    (hdistinct : out.Distinct) (hkeys : out.keys = out'.keys)
    (hself : out.get? key = out'.get? key)
    (hother : ∀ other, other ≠ key →
      out.get? other = fields.get? other ∧ out'.get? other = fields'.get? other) :
    InStep keywords keywords' rest out out' := by
  refine ⟨hdistinct, hkeys, fun other hmem ↦ ?_, fun other hmem ↦ ?_⟩
  · have hne : other ≠ key := fun heq ↦ hkey (heq ▸ hmem)
    rw [(hother other hne).1, (hother other hne).2]
    exact h.written other ((hrest other hne).1 hmem)
  · by_cases hne : other = key
    · exact hne ▸ hself
    · rw [(hother other hne).1, (hother other hne).2]
      exact h.agree other fun hpending ↦ hmem ((hrest other hne).2 hpending)

private theorem mem_tail_iff {other : String} (hne : other ≠ key) :
    other ∈ pending ↔ other ∈ key :: pending :=
  (List.mem_cons.trans (or_iff_right hne)).symm

/-- A pending keyword with the same value in both nodes needs no step. -/
theorem accept (h : InStep keywords keywords' (key :: pending) fields fields')
    (hkey : key ∉ pending) (hself : fields.get? key = fields'.get? key) :
    InStep keywords keywords' pending fields fields' :=
  h.edit hkey (fun _ ↦ mem_tail_iff) h.distinct h.keys hself fun _ _ ↦ ⟨rfl, rfl⟩

theorem skip (h : InStep keywords keywords' (key :: pending) fields fields')
    (hkey : key ∉ pending) (hnone : keywords.get? key = none) :
    InStep keywords keywords' pending fields fields' := by
  have hfields : fields.get? key = none := by
    rw [(h.written key (by simp)).1, hnone]
    rfl
  exact h.accept hkey (hfields.trans ((Fields.get?_eq_none_iff_of_keys h.keys).1 hfields).symm)

theorem remove {rest : List String} (h : InStep keywords keywords' pending fields fields')
    (hkey : key ∉ rest) (hrest : ∀ other, other ≠ key → (other ∈ rest ↔ other ∈ pending)) :
    InStep keywords keywords' rest (fields.remove key) (fields'.remove key) := by
  refine h.edit hkey hrest (h.distinct.remove key) (Fields.keys_remove_congr h.keys key) ?_
    fun other hne ↦ ⟨Fields.get?_remove_of_ne h.distinct hne,
      Fields.get?_remove_of_ne h.distinct' hne⟩
  rw [Fields.get?_remove_self h.distinct, Fields.get?_remove_self h.distinct']

theorem insert (h : InStep keywords keywords' pending fields fields') (hkey : key ∉ pending)
    (value : Json) :
    InStep keywords keywords' pending (fields.insert key value) (fields'.insert key value) := by
  refine h.edit hkey (fun _ _ ↦ Iff.rfl) (h.distinct.insert key value) ?_ ?_
    fun other hne ↦ ⟨Fields.get?_insert_of_ne _ hne value, Fields.get?_insert_of_ne _ hne value⟩
  · rw [Fields.keys_insert, Fields.keys_insert, h.keys]
  · rw [Fields.get?_insert_self, Fields.get?_insert_self]

/-- A pending keyword may be dropped. -/
theorem drop (h : InStep keywords keywords' (key :: pending) fields fields')
    (hkey : key ∉ pending) :
    InStep keywords keywords' pending (fields.remove key) (fields'.remove key) :=
  h.remove hkey fun _ ↦ mem_tail_iff

theorem replaceLast (h : InStep keywords keywords' (key :: pending) fields fields')
    (hkey : key ∉ pending) (value : Json) :
    InStep keywords keywords' pending (replaceLast fields key value)
      (replaceLast fields' key value) :=
  (h.drop hkey).insert hkey value

theorem eq (h : InStep keywords keywords' [] fields fields') : fields = fields' :=
  Fields.ext_of_distinct h.distinct h.keys fun key ↦ h.agree key (by simp)

/-! ### Keywords that hold schemas -/

/-- A list of schemas is converted or, where it is no list, dropped. -/
theorem composite (hsame : SameKeywords keywords keywords')
    (h : InStep keywords keywords' (key :: pending) fields fields') (hkey : key ∉ pending)
    (hrole : Role.of key = .composite) :
    Alike Eq (InStep keywords keywords' pending) (convertComposite keywords fields key)
      (convertComposite keywords' fields' key) := by
  rcases hsame.lookup key with ⟨hnone, hnone'⟩ | ⟨keyword, keyword', hkeyword, hkeyword', hsame⟩
  · rw [convertComposite, hnone, convertComposite, hnone']
    exact .ok (h.skip hkey hnone)
  · rw [convertComposite_eq hkeyword, convertComposite_eq hkeyword', ← hsame.list hrole,
      ← hsame.compiled]
    split
    · exact Alike.map_self (h.replaceLast hkey) keyword.compiled
    · exact .ok (h.drop hkey)

theorem schemaKeyword (hsame : SameKeywords keywords keywords')
    (h : InStep keywords keywords' (key :: pending) fields fields') (hkey : key ∉ pending) :
    Alike Eq (InStep keywords keywords' pending) (convertSchemaKeyword keywords fields key)
      (convertSchemaKeyword keywords' fields' key) := by
  rcases hsame.lookup key with ⟨hnone, hnone'⟩ | ⟨keyword, keyword', hkeyword, hkeyword', hsame⟩
  · rw [convertSchemaKeyword, hnone, convertSchemaKeyword, hnone']
    exact .ok (h.skip hkey hnone)
  · rw [convertSchemaKeyword, hkeyword, convertSchemaKeyword, hkeyword']
    dsimp only
    rw [← hsame.compiled]
    exact Alike.map_self (h.replaceLast hkey) keyword.compiled

/-- A mapping is converted or, where it is none, dropped, and both nodes agree on which. -/
theorem mapping (hsame : SameKeywords keywords keywords')
    (h : InStep keywords keywords' (key :: pending) fields fields') (hkey : key ∉ pending)
    (hrole : Role.of key = .properties) :
    Alike Eq (fun result result' ↦ InStep keywords keywords' pending result.1 result'.1 ∧
      result.2 = result'.2) (convertMapping keywords fields key)
        (convertMapping keywords' fields' key) := by
  rcases hsame.lookup key with ⟨hnone, hnone'⟩ | ⟨keyword, keyword', hkeyword, hkeyword', hsame⟩
  · rw [convertMapping, hnone, convertMapping, hnone']
    exact .ok ⟨h.skip hkey hnone, rfl⟩
  · rw [convertMapping_eq hkeyword, convertMapping_eq hkeyword', ← hsame.mapping hrole,
      ← hsame.compiled]
    split
    · exact Alike.map_self (fun value ↦ ⟨h.replaceLast hkey value, rfl⟩) keyword.compiled
    · exact .ok ⟨h.drop hkey, rfl⟩

theorem addRequired (h : InStep keywords keywords' pending fields fields')
    (hpending : "required" ∉ pending) (names : List String) :
    InStep keywords keywords' pending (addRequired fields names) (addRequired fields' names) := by
  rw [Schema.addRequired, Schema.addRequired, ← h.agree "required" hpending]
  split
  · exact h
  · exact (h.remove hpending fun _ _ ↦ Iff.rfl).insert hpending _

private theorem requiredNames_eq (hsame : SameKeywords keywords keywords') :
    requiredNames (((keywords.get? "properties").bind (·.written.object?)).getD []) =
      requiredNames (((keywords'.get? "properties").bind (·.written.object?)).getD []) := by
  rcases hsame.lookup "properties" with ⟨hnone, hnone'⟩ | ⟨keyword, keyword', hkeyword, hkeyword',
    hsame⟩
  · rw [hnone, hnone']
  · rw [hkeyword, hkeyword']
    exact hsame.required (by decide)

theorem object (hsame : SameKeywords keywords keywords')
    (h : InStep keywords keywords' ["properties", "patternProperties", "items"] fields fields') :
    Alike Eq (InStep keywords keywords' ["items"]) (convertObject keywords fields)
      (convertObject keywords' fields') := by
  refine (h.mapping hsame (by decide) (by decide)).bind ?_
  rintro ⟨listed, named⟩ ⟨listed', named'⟩ ⟨hlisted, rfl⟩
  have hrequired := hlisted.addRequired (by decide)
    (requiredNames (((keywords.get? "properties").bind (·.written.object?)).getD []))
  dsimp only
  rw [← requiredNames_eq hsame]
  refine (hrequired.mapping hsame (by decide) (by decide)).bind ?_
  rintro ⟨closed, patterned⟩ ⟨closed', patterned'⟩ ⟨hclosed, rfl⟩
  dsimp only
  rw [Fields.contains, Fields.contains, ← hclosed.agree "additionalProperties" (by decide)]
  refine .ok ?_
  split
  · exact hclosed.insert (by decide) _
  · exact hclosed

theorem absent (h : InStep keywords keywords' ["properties", "patternProperties", "items"] fields
    fields') (hproperties : ∀ key ∈ ["properties", "patternProperties"], keywords.get? key = none) :
    InStep keywords keywords' ["items"] fields fields' :=
  (h.skip (by decide) (hproperties _ (by simp))).skip (by decide) (hproperties _ (by simp))

theorem array (hsame : SameKeywords keywords keywords')
    (h : InStep keywords keywords' ["items"] fields fields') :
    convertArray keywords fields = convertArray keywords' fields' :=
  (h.schemaKeyword hsame (by decide)).eq fun _ _ ↦ eq

end InStep

/-! ## The type of a node -/

private theorem convertTypeName_congr {name : String} (hsame : SameKeywords keywords keywords')
    (h : InStep keywords keywords' ["properties", "patternProperties", "items"] fields fields')
    (hproperties : name ≠ "object" →
      ∀ key ∈ ["properties", "patternProperties"], keywords.get? key = none)
    (hitems : name ≠ "array" → keywords.get? "items" = none) :
    convertTypeName options keywords fields name =
      convertTypeName options keywords' fields' name := by
  have hne : ∀ other, DeclaredType.ofName name ≠ DeclaredType.ofName other → name ≠ other :=
    fun other h heq ↦ h (heq ▸ rfl)
  -- without the keywords of objects and arrays nothing is pending, so the nodes are the same
  have hplain : DeclaredType.ofName name ≠ .json .object → DeclaredType.ofName name ≠ .json .array →
      fields = fields' := fun hobject harray ↦
    ((h.absent (hproperties (hne "object" hobject))).skip (by decide)
      (hitems (hne "array" harray))).eq
  rw [convertTypeName, convertTypeName]
  split
  · rename_i type hdeclared
    rw [hdeclared] at hplain hne
    have hstage : InStep keywords keywords' ["properties", "patternProperties", "items"]
        (fields.insert "type" (.string type.name)) (fields'.insert "type" (.string type.name)) :=
      h.insert (by decide) _
    cases type with
    | object =>
      refine (hstage.object hsame).eq fun closed closed' hclosed ↦ ?_
      exact (hclosed.skip (by decide) (hitems (hne "array" (by decide)))).eq
    | array => exact (hstage.absent (hproperties (hne "object" (by decide)))).array hsame
    | _ => rw [hplain (by simp) (by simp)]
  · rename_i hdeclared
    rw [hdeclared] at hplain
    rw [hplain (by simp) (by simp)]
  · rename_i hdeclared
    rw [hdeclared] at hplain
    rw [hplain (by simp) (by simp)]

private theorem convertType_congr (hsame : SameKeywords keywords keywords')
    (h : InStep keywords keywords' ["properties", "patternProperties", "items"] fields fields')
    (hproperties : ¬Declares (.object fields) "object" →
      ∀ key ∈ ["properties", "patternProperties"], keywords.get? key = none)
    (hitems : ¬Declares (.object fields) "array" → keywords.get? "items" = none) :
    convertType options keywords fields = convertType options keywords' fields' := by
  rw [convertType, convertType, ← h.agree "type" (by decide)]
  split
  · rename_i name htype
    rw [declares_iff_of_string htype] at hproperties hitems
    exact convertTypeName_congr hsame h hproperties hitems
  · rename_i types htype
    rw [declares_iff_of_array htype] at hproperties hitems
    have hlast : ∀ closed closed', InStep keywords keywords' ["items"] closed closed' →
        Alike Eq Eq
          (if types.any (·.isString "array") then convertArray keywords closed else .ok closed)
          (if types.any (·.isString "array") then convertArray keywords' closed'
            else .ok closed') := by
      intro closed closed' hclosed
      split
      · exact .of_eq (hclosed.array hsame)
      · rename_i hnot
        exact .ok (hclosed.skip (by decide) (hitems hnot)).eq
    dsimp only
    split
    · exact ((h.object hsame).bind hlast).eq fun _ _ ↦ id
    · rename_i hnot
      exact (hlast fields fields' (h.absent (hproperties hnot))).eq fun _ _ ↦ id
  · -- no type is declared, so no keyword belongs to one
    rename_i hstring harray
    have hnone := not_declares rfl hstring harray
    rw [((h.absent (hproperties (hnone "object"))).skip (by decide)
      (hitems (hnone "array"))).eq]

/-- The keywords that belong to a type stand where the type is declared. -/
structure TypedNode (schema : Json) : Prop where
  properties : ∀ key ∈ ["properties", "patternProperties"],
    (schema.get? key).isSome → Declares schema "object"
  items : (schema.get? "items").isSome → Declares schema "array"

private theorem declares_congr (h : fields.get? "type" = fields'.get? "type") (name : String) :
    Declares (.object fields) name ↔ Declares (.object fields') name := by
  rw [Declares, Declares, Json.get?, Json.get?, h]

theorem TypedNode.of_keys (h : TypedNode (.object out)) (hkeys : out.keys = fields.keys)
    (htype : out.get? "type" = fields.get? "type") : TypedNode (.object fields) := by
  have hsome : ∀ key, (fields.get? key).isSome → (out.get? key).isSome := by
    intro key hkey
    rw [Option.isSome_iff_ne_none] at hkey ⊢
    exact mt (Fields.get?_eq_none_iff_of_keys hkeys).1 hkey
  exact ⟨fun key hkey hthere ↦
      (declares_congr htype _).1 (h.properties key hkey (hsome key hthere)),
    fun hthere ↦ (declares_congr htype _).1 (h.items (hsome _ hthere))⟩

/-- **Nodes of the same keywords.** Their conversions have the same outcome. -/
theorem convertNode_congr (hsame : SameKeywords keywords keywords')
    (hdistinct : (keywords.mapValues (·.written)).Distinct)
    (htyped : TypedNode (.object (keywords.mapValues (·.written)))) :
    convertNode options keywords = convertNode options keywords' := by
  have hplain : ∀ key, Role.of key = .plain → (keywords.get? key).map (·.written) =
      (keywords'.get? key).map (·.written) := by
    intro key hrole
    rcases hsame.lookup key with ⟨hnone, hnone'⟩ | ⟨keyword, keyword', hkey, hkey', hsame⟩
    · rw [hnone, hnone']
    · rw [hkey, hkey']
      exact congrArg some (hsame.written hrole)
  -- before the first step only the values that hold schemas can differ
  have hstart : InStep keywords keywords' ["allOf", "anyOf", "oneOf", "not", "type", "properties",
      "patternProperties", "items"] (keywords.mapValues (·.written))
        (keywords'.mapValues (·.written)) := by
    refine ⟨hdistinct, by simp [hsame.keys],
      fun key _ ↦ ⟨Ready.get?_written key, Ready.get?_written key⟩, fun key hkey ↦ ?_⟩
    simp only [List.mem_cons, List.not_mem_nil, or_false, not_or] at hkey
    rw [Ready.get?_written, Ready.get?_written, hplain key (by simp [Role.of, compositeKeywords,
      hkey])]
  have hcombined : Alike Eq (InStep keywords keywords' ["not", "type", "properties",
      "patternProperties", "items"])
        (compositeKeywords.foldlM (convertComposite keywords) (keywords.mapValues (·.written)))
        (compositeKeywords.foldlM (convertComposite keywords')
          (keywords'.mapValues (·.written))) :=
    (hstart.composite hsame (by decide) (by decide)).bind fun _ _ hall ↦
      (hall.composite hsame (by decide) (by decide)).bind fun _ _ hany ↦
        (hany.composite hsame (by decide) (by decide)).bind fun _ _ hone ↦ .ok hone
  rw [convertNode, convertNode]
  refine (hcombined.bind fun combined combined' h ↦ ?_).eq fun _ _ ↦ id
  refine (h.schemaKeyword hsame (by decide)).bind fun negated negated' h ↦ ?_
  -- the type is as written until it is resolved
  obtain ⟨htype, htype'⟩ := h.written "type" (by simp)
  have hstage := h.accept (by decide) (htype.trans ((hplain "type" (by decide)).trans htype'.symm))
  have hdeclares : ∀ name, Declares (.object negated) name ↔
      Declares (.object (keywords.mapValues (·.written))) name :=
    declares_congr (htype.trans (Ready.get?_written "type").symm)
  have hnone : ∀ key, ¬((Json.object (keywords.mapValues (·.written))).get? key).isSome →
      keywords.get? key = none := by
    intro key hkey
    rw [Json.get?, Ready.get?_written] at hkey
    simpa using hkey
  have hproperties : ¬Declares (.object negated) "object" →
      ∀ key ∈ ["properties", "patternProperties"], keywords.get? key = none := fun hnot key hkey ↦
    hnone key fun hsome ↦ hnot ((hdeclares _).2 (htyped.properties key hkey hsome))
  have hitems : ¬Declares (.object negated) "array" → keywords.get? "items" = none := fun hnot ↦
    hnone _ fun hsome ↦ hnot ((hdeclares _).2 (htyped.items hsome))
  rw [convertType_congr hsame hstage hproperties hitems]
  exact .of_eq rfl

/-! ## Schemas of which a pass makes the same

Passes are compared on schemas, not on nodes, and at every place, since a schema moves when others
are put around it. -/

namespace Pass

variable {pass expander : Pass} {place place' : String}

/-- A pass makes the same of two schemas, wherever they stand. -/
def Equates (pass : Pass) (schema schema' : Json) : Prop :=
  ∀ path, pass.run path schema = pass.run path schema'

private theorem runItems_congr {items items' : List Json}
    (h : List.Forall₂ pass.Equates items items') :
    pass.runItems place items = pass.runItems place items' := by
  induction h with
  | nil => rfl
  | cons hitem _ ih => rw [runItems, runItems, hitem, ih]

private theorem runNumbered_congr {index : Nat} {items items' : List Json}
    (h : List.Forall₂ pass.Equates items items') :
    pass.runNumbered place index items = pass.runNumbered place index items' := by
  induction h generalizing index with
  | nil => rfl
  | cons hitem _ ih => rw [runNumbered, runNumbered, hitem, ih]

private theorem runProperties_congr {properties properties' : Fields Json}
    (h : List.Forall₂ (fun property property' ↦ property.1 = property'.1 ∧
      pass.Equates property.2 property'.2) properties properties') :
    pass.runProperties place properties = pass.runProperties place properties' := by
  induction h with
  | nil => rfl
  | @cons property property' _ _ hproperty _ ih =>
    rw [runProperties, runProperties, hproperty.1, hproperty.2, ih]

/-- A pass makes the same of a value and of what another pass puts in its place, if it makes the
same of the schemas in them. -/
theorem onKeyword_congr
    (hnode : ∀ keywords out, expander.node keywords = .ok out → out.isObject) {role : Role}
    {value value' : Json} (h : expander.onKeyword place role value = .ok value')
    (hparts : ∀ part ∈ role.schemas value, ∀ part' ∈ role.schemas value',
      expander.Yields part part' → pass.Equates part part') :
    pass.onKeyword place' role value = pass.onKeyword place' role value' := by
  have hequates := forall₂_imp_of_mem (forall₂_onKeyword hnode h) hparts
  unfold onKeyword at h
  split at h
  · obtain ⟨items', -, rfl⟩ := map_eq_ok_iff.1 h
    exact congrArg (Json.array <$> ·) (runNumbered_congr hequates)
  · obtain ⟨properties', hproperties', rfl⟩ := map_eq_ok_iff.1 h
    refine congrArg (Json.object <$> ·) (runProperties_congr ?_)
    refine forall₂_imp_of_mem (forall₂_runProperties hproperties') fun property hproperty
      property' hproperty' hyields ↦ ⟨hyields.1, ?_⟩
    exact hparts _ (List.mem_map_of_mem hproperty) _ (List.mem_map_of_mem hproperty') hyields.2
  · obtain ⟨items', -, rfl⟩ := map_eq_ok_iff.1 h
    exact congrArg (Json.array <$> ·) (runItems_congr hequates)
  · rename_i hvalue
    have hvalue' := Yields.ne_array hnode ⟨_, h⟩
    rw [onKeyword_items_of_ne_array hvalue, onKeyword_items_of_ne_array hvalue']
    rw [Role.schemas_items_of_ne_array hvalue, Role.schemas_items_of_ne_array hvalue'] at hequates
    exact List.forall₂_cons.1 hequates |>.1 place'
  · exact List.forall₂_cons.1 hequates |>.1 place'
  · obtain rfl := Except.ok.inj h
    rfl

end Pass

/-! ## A schema and its expansion

Here the condition on types is used: a keyword whose schemas expansion has replaced is one that
conversion reads, so only its outcome matters. -/

private theorem isRequired_of_yields {property property' : Json}
    (h : expansion.Yields property property') : isRequired property = isRequired property' := by
  obtain ⟨path, hrun⟩ := h
  cases hfull : inFull property with
  | none =>
    obtain ⟨value, rfl, rfl⟩ := Pass.eq_bool_of_inFull hfull hrun
    rfl
  | some fields =>
    rw [Pass.run_of_inFull hfull] at hrun
    obtain ⟨out, rfl⟩ := Json.isObject_iff.1 (isObject_of_expandNode hrun)
    have hexplicit := isExplicit_of_expandNode hrun (isExplicit_of_inFull hfull)
    have hrequired := get?_of_plain hrun (by decide : Role.of "required" = .plain)
    rw [Json.get?, Pass.mapValues_runKeywords] at hrequired
    rw [isRequired_eq, isRequired_eq, hfull, inFull_of_isExplicit hexplicit, Option.any_some,
      Option.any_some, hrequired]

private theorem requiredNames_of_forall₂ {properties properties' : Fields Json}
    (h : List.Forall₂ (fun property property' ↦ property.1 = property'.1 ∧
      expansion.Yields property.2 property'.2) properties properties') :
    requiredNames properties = requiredNames properties' := by
  induction h with
  | nil => rfl
  | @cons property property' _ _ hproperty _ ih =>
    simp only [requiredNames, Fields.keys, List.filter_cons] at ih ⊢
    rw [isRequired_of_yields hproperty.2]
    split
    · rw [List.map_cons, List.map_cons, hproperty.1, ih]
    · exact ih

/-- Conversion makes the same of a keyword and of its expansion. -/
theorem same_of_expandsTo {value value' : Json} {place : String} (h : ExpandsTo key value value')
    (hparts : ∀ part ∈ (Role.of key).schemas value, ∀ part' ∈ (Role.of key).schemas value',
      expansion.Yields part part' → (conversion options).Equates part part') :
    Keyword.Same key ⟨value, (conversion options).onKeyword place (Role.of key) value⟩
      ⟨value', (conversion options).onKeyword place (Role.of key) value'⟩ := by
  rw [ExpandsTo] at h
  split at h
  · rename_i hinto
    obtain ⟨place', hvalue'⟩ := h
    have hmapping : Role.of key = .properties → ∃ properties properties',
        value = .object properties ∧ value' = .object properties' ∧
          requiredNames properties = requiredNames properties' := by
      intro hrole
      have hobject : value.isObject := by simpa [expandsInto, hrole] using hinto
      obtain ⟨properties, rfl⟩ := Json.isObject_iff.1 hobject
      rw [hrole, Pass.onKeyword] at hvalue'
      obtain ⟨properties', hproperties', rfl⟩ := map_eq_ok_iff.1 hvalue'
      exact ⟨properties, properties', rfl, rfl,
        requiredNames_of_forall₂ (Pass.forall₂_runProperties hproperties')⟩
    refine ⟨Pass.onKeyword_congr (fun _ _ ↦ isObject_of_expandNode) hvalue' hparts,
      fun hrole ↦ ?_, fun hrole ↦ ?_, fun hrole ↦ ?_, fun hrole ↦ ?_⟩
    · simp [expandsInto, hrole] at hinto
    · have harray : value.isArray := by simpa [expandsInto, hrole] using hinto
      obtain ⟨items, rfl⟩ := Json.isArray_iff.1 harray
      rw [hrole, Pass.onKeyword] at hvalue'
      obtain ⟨items', -, rfl⟩ := map_eq_ok_iff.1 hvalue'
      rfl
    · obtain ⟨properties, properties', rfl, rfl, -⟩ := hmapping hrole
      rfl
    · obtain ⟨properties, properties', rfl, rfl, hrequired⟩ := hmapping hrole
      exact hrequired
  · rw [h]
    exact .refl key _

private theorem sameKeywords_of_expandNode {path path' : String}
    (h : expandNode (expansion.runKeywords path fields) = .ok (.object out))
    (hparts : ∀ part part', HasPart (.object fields) part → HasPart (.object out) part' →
      expansion.Yields part part' → (conversion options).Equates part part') :
    SameKeywords ((conversion options).runKeywords path' fields)
      ((conversion options).runKeywords path' out) := by
  refine ⟨?_, fun key keyword keyword' hkey hkey' ↦ ?_⟩
  · rw [Pass.keys_runKeywords, Pass.keys_runKeywords, keys_of_expandNode h, Pass.keys_runKeywords]
  · rw [Pass.get?_runKeywords, Option.map_eq_some_iff] at hkey hkey'
    obtain ⟨value, hvalue, rfl⟩ := hkey
    obtain ⟨value', hvalue', rfl⟩ := hkey'
    obtain ⟨expanded, hexpanded, hto⟩ := exists_expanded h hvalue
    obtain rfl := Option.some.inj (hexpanded.symm.trans hvalue')
    exact same_of_expandsTo hto fun part hpart part' hpart' ↦
      hparts part part' ⟨key, value, hvalue, hpart⟩ ⟨key, expanded, hvalue', hpart'⟩

private theorem equates_of_yields {v e : Json} (hdistinct : v.Distinct) (he : expansion.Yields v e)
    (htyped : Everywhere TypedNode e) : (conversion options).Equates v e := by
  induction v using induction_inFull generalizing e with
  | step v ih =>
    obtain ⟨path, he⟩ := he
    intro path'
    cases hfull : inFull v with
    | none =>
      obtain ⟨value, rfl, rfl⟩ := Pass.eq_bool_of_inFull hfull he
      rfl
    | some fields =>
      rw [Pass.run_of_inFull hfull] at he
      obtain ⟨out, rfl⟩ := Json.isObject_iff.1 (isObject_of_expandNode he)
      have hexplicit := isExplicit_of_expandNode he (isExplicit_of_inFull hfull)
      obtain ⟨hroot, hinside⟩ := everywhere_iff.1 htyped
      have hfields := distinct_of_inFull hdistinct hfull
      rw [Pass.run_of_inFull hfull, Pass.run_of_inFull (inFull_of_isExplicit hexplicit)]
      refine convertNode_congr (sameKeywords_of_expandNode he fun part part' hpart hpart' hyields ↦
        ih fields hfull part hpart (distinct_of_hasPart hfields hpart) hyields
          (hinside part' hpart')) ?_ ?_
      · rw [Pass.mapValues_runKeywords]
        exact (Json.distinct_object_iff.1 hfields).1
      · have htype := get?_of_plain he (by decide : Role.of "type" = .plain)
        rw [Pass.mapValues_runKeywords] at htype ⊢
        exact hroot.of_keys ((keys_of_expandNode he).trans (Pass.keys_runKeywords fields)) htype

/-- **Conversion of an expanded schema.** Where the keywords that belong to a type stand with that
type, a schema and its expansion have the same conversion: the same validation schema, or the same
error at the same place. A schema is held as a map, so no keyword of it stands twice. -/
theorem convert_eq_of_expand {v e : Json} (hdistinct : v.Distinct) (he : expand v = .ok e)
    (htyped : Everywhere TypedNode e) (options : ConversionOptions) :
    convert options v = convert options e :=
  equates_of_yields hdistinct ⟨"", he⟩ htyped ""

/-- The properties of something that has owners and was born. -/
def ownedProperties (owners born : Json) : Fields Json := [("owners", owners), ("born", born)]

theorem convert_eq_of_expand_ownedProperties :
    let written := Json.object (ownedProperties (.array [.string "Person"]) (.string "date"))
    let expanded := Json.object (closedObject (ownedProperties
      (.object (listOf (.object (ofName "Person")))) (.object (ofName "date"))))
    expand written = .ok expanded ∧ Everywhere TypedNode expanded ∧
      ∀ options, convert options written = convert options expanded := by
  intro written expanded
  have hdistinct : written.Distinct := by
    simp [written, ownedProperties]
  have hexpand : expand written = .ok expanded := rfl
  have hname : ∀ name, Everywhere TypedNode (.object (ofName name)) := fun name part hpart ↦
    have hplaced := everywhere_placedNode
      (List.forall_mem_singleton.2 (by decide : Role.of "type" = .plain)) rfl part hpart
    ⟨hplaced.properties, hplaced.items⟩
  have howners : Everywhere TypedNode (.object (listOf (.object (ofName "Person")))) := by
    refine everywhere_iff.2 ⟨⟨?_, fun _ ↦ ⟨_, rfl, .inl rfl⟩⟩, fun part hpart ↦ ?_⟩
    · simp [listOf]
    · obtain rfl := List.mem_singleton.1 (hasPart_listOf.1 hpart)
      exact hname _
  have htyped : Everywhere TypedNode expanded := by
    refine everywhere_iff.2 ⟨⟨fun _ _ _ ↦ ⟨_, rfl, .inl rfl⟩, ?_⟩, fun part hpart ↦ ?_⟩
    · simp [expanded, closedObject]
    · rcases List.mem_pair.1 (hasPart_closedObject.1 hpart) with rfl | rfl
      · exact howners
      · exact hname _
  exact ⟨hexpand, htyped, convert_eq_of_expand hdistinct hexpand htyped⟩

end Schema

end ModelCatalog
