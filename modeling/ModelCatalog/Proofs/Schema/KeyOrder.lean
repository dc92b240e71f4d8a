import ModelCatalog.Proofs.Schema.Compilation
import ModelCatalog.Proofs.Schema.SameSchema

/-!
# The order of keys in schemas

The order in which an author writes keys does not change what a schema means: two schemas that
differ only in it are both refused or both converted, and to the same validation schema up to the
order of keys and of added names.

## Step, node, tree

Which error is reported does depend on the order, so the two runs are compared up to their errors.
Each step of conversion is matched with itself on the other node, then the nodes, and from these the
trees by induction. Between the steps the two nodes are matching: `KeywordsMatch` says of the values
that wait for conversion that they will be converted alike.
-/

namespace ModelCatalog

open Outcome

namespace Schema

variable {options : ConversionOptions} {keywords keywords' : Fields Keyword} {names : List String}
  {key : String} {fs gs ps qs : Fields Json} {v w : Json}

/-! ## Required properties

Whether a property is required is read off the schema as written, before its conversion. -/

private theorem declaresType_eq (h : v.Reordered w) : declaresType v = declaresType w := by
  cases h with
  | @array vs ws h =>
    have hempty : vs.isEmpty = ws.isEmpty := by cases h <;> rfl
    have hall : vs.all (fun name ↦ name.string?.isSome) =
        ws.all fun name ↦ name.string?.isSome := by
      clear hempty
      induction h with
      | nil => rfl
      | cons hvw _ ih => rw [List.all_cons, List.all_cons, hvw.string?_eq, ih]
    rw [declaresType, declaresType, hempty, hall]
  | _ => rfl

private theorem isExplicit_eq (h : (Json.object fs).Reordered (.object gs)) :
    isExplicit fs = isExplicit gs := by
  have hget := h.rel_get?
  have hcomposite : (fun key ↦ (fs.get? key).any Json.isArray) =
      fun key ↦ (gs.get? key).any Json.isArray :=
    funext fun key ↦ any_eq_of_rel (hget key) fun _ _ ↦ Json.Reordered.isArray_eq
  rw [isExplicit, isExplicit, any_eq_of_rel (hget "type") fun _ _ ↦ declaresType_eq,
    any_eq_of_rel (hget "$ref") fun _ _ hvw ↦ congrArg Option.isSome hvw.string?_eq, hcomposite,
    any_eq_of_rel (hget "not") fun _ _ ↦ Json.Reordered.isObject_eq]

private theorem isRequired_congr (h : v.Reordered w) : isRequired v = isRequired w := by
  cases h with
  | object hkeys hvalues =>
    have h := Json.Reordered.object hkeys hvalues
    rw [isRequired, isRequired, isExplicit_eq h,
      any_eq_of_rel (h.rel_get? "required") fun _ _ ↦ Json.Reordered.isTrue_eq]
  | _ => rfl

private theorem requiredNames_perm (h : (Json.object ps).Reordered (.object qs)) (hps : ps.Distinct)
    (hqs : qs.Distinct) : (requiredNames ps).Perm (requiredNames qs) := by
  refine (List.perm_ext_iff_of_nodup (nodup_requiredNames hps) (nodup_requiredNames hqs)).2
    fun name ↦ ?_
  rw [mem_requiredNames_iff hps, mem_requiredNames_iff hqs]
  obtain ⟨hv, hw⟩ | ⟨v, w, hv, hw, hvw⟩ := eq_none_or_of_rel (h.rel_get? name)
  · simp [hv, hw]
  · simp [hv, hw, isRequired_congr hvw]

/-! ## Keywords

Each step of conversion is compared with itself on the other node. Names of required properties are
added in the order of the properties, so from there on the two lists may differ in their order. -/

/-- Two keywords are written in the same way up to the order of keys, and their schemas are
converted to the same, if at all. -/
structure Keyword.Matches (key : String) (keyword keyword' : Keyword) : Prop where
  written : keyword.written.Reordered keyword'.written
  compiled : Alike AnyError (SameValue [] key) keyword.compiled keyword'.compiled

def writtenProperties (keywords : Fields Keyword) : Fields Json :=
  ((keywords.get? "properties").bind (·.written.object?)).getD []

/-- Two nodes have the same keywords, up to the order of keys. -/
structure KeywordsMatch (keywords keywords' : Fields Keyword) : Prop where
  lookup : ∀ key, Option.Rel (Keyword.Matches key) (keywords.get? key) (keywords'.get? key)
  distinct : (writtenProperties keywords).Distinct
  distinct' : (writtenProperties keywords').Distinct
  names : ∀ keyword value, keywords.get? "properties" = some keyword →
    keyword.compiled = .ok value →
      Fields.keys (value.object?.getD []) = Fields.keys (keyword.written.object?.getD [])

theorem KeywordsMatch.properties (h : KeywordsMatch keywords keywords') :
    Json.Reordered (.object (writtenProperties keywords))
      (.object (writtenProperties keywords')) := by
  rw [writtenProperties, writtenProperties]
  rcases eq_none_or_of_rel (h.lookup "properties") with ⟨hk, hk'⟩ | ⟨k, k', hk, hk', hmatch⟩
  · rw [hk, hk']
    exact .of_forall₂ .nil
  · rw [hk, hk', Option.bind_some, Option.bind_some]
    exact hmatch.written.getD_object?

namespace SameFields

theorem composite (hmatch : KeywordsMatch keywords keywords') (h : SameFields names fs gs)
    (key : String) : Alike AnyError (SameFields names) (convertComposite keywords fs key)
      (convertComposite keywords' gs key) := by
  rcases eq_none_or_of_rel (hmatch.lookup key) with ⟨hk, hk'⟩ | ⟨k, k', hk, hk', hkeyword⟩
  · rw [convertComposite, convertComposite, hk, hk']
    exact .ok h
  · rw [convertComposite_eq hk, convertComposite_eq hk', hkeyword.written.isArray_eq]
    split
    · exact hkeyword.compiled.map fun _ _ hvw ↦ h.replaceLast (hvw.mono (List.nil_subset _))
    · exact .ok (h.remove key)

theorem schemaKeyword (hmatch : KeywordsMatch keywords keywords') (h : SameFields names fs gs)
    (key : String) : Alike AnyError (SameFields names) (convertSchemaKeyword keywords fs key)
      (convertSchemaKeyword keywords' gs key) := by
  rw [convertSchemaKeyword, convertSchemaKeyword]
  rcases eq_none_or_of_rel (hmatch.lookup key) with ⟨hk, hk'⟩ | ⟨k, k', hk, hk', hkeyword⟩
  · rw [hk, hk']
    exact .ok h
  · rw [hk, hk']
    exact hkeyword.compiled.bind fun _ _ hvw ↦
      .ok (h.replaceLast (hvw.mono (List.nil_subset _)))

theorem mapping (hmatch : KeywordsMatch keywords keywords') (h : SameFields names fs gs)
    (key : String) : Alike AnyError (fun a b ↦ SameFields names a.1 b.1 ∧ a.2 = b.2)
      (convertMapping keywords fs key) (convertMapping keywords' gs key) := by
  rcases eq_none_or_of_rel (hmatch.lookup key) with ⟨hk, hk'⟩ | ⟨k, k', hk, hk', hkeyword⟩
  · rw [convertMapping, convertMapping, hk, hk']
    exact .ok ⟨h, rfl⟩
  · rw [convertMapping_eq hk, convertMapping_eq hk', hkeyword.written.isObject_eq]
    split
    · exact hkeyword.compiled.map fun _ _ hvw ↦
        ⟨h.replaceLast (hvw.mono (List.nil_subset _)), rfl⟩
    · exact .ok ⟨h.remove key, rfl⟩

/-- The names of the required properties are added to the same list, in another order. -/
theorem addRequired (h : SameFields [] fs gs) (hps : ps.Distinct) (hqs : qs.Distinct)
    (hpqs : (Json.object ps).Reordered (.object qs)) :
    SameFields (requiredNames ps) (addRequired fs (requiredNames ps))
      (Schema.addRequired gs (requiredNames qs)) := by
  have hperm := requiredNames_perm hpqs hps hqs
  have hlisted : List.Forall₂ Json.Reordered
      (((fs.get? "required").bind Json.array?).getD [])
      (((gs.get? "required").bind Json.array?).getD []) := by
    rcases eq_none_or_of_rel (h.rel_get? (by decide : Role.of "required" = .plain) fun _ ↦ rfl) with
      ⟨hv, hw⟩ | ⟨v, w, hv, hw, hvw⟩
    · rw [hv, hw]
      exact .nil
    · rw [hv, hw]
      cases hvw with
      | array h => exact h
      | _ => exact .nil
  rw [Schema.addRequired, Schema.addRequired]
  dsimp only
  rw [addNames_eq (nodup_requiredNames hps), addNames_eq (nodup_requiredNames hqs)]
  by_cases hnone : requiredNames ps = []
  · rw [hnone] at hperm
    rw [hnone, ← hperm.nil_eq]
    exact h
  · have hnone' : requiredNames qs ≠ [] := fun heq ↦ hnone (heq ▸ hperm).eq_nil
    rw [if_neg (by simpa using hnone), if_neg (by simpa using hnone')]
    refine (h.mono (List.nil_subset _)).replaceLast (.required hlisted ?_ ?_)
    · simp only [Json.Reordered.any_isString_eq hlisted]
      exact hperm.filter _
    · exact fun name hname ↦ (List.mem_filter.1 hname).1

/-- The keywords of objects, as far as names are concerned that stand for required properties. -/
theorem object (hmatch : KeywordsMatch keywords keywords') (h : SameFields [] fs gs) :
    Alike AnyError (SameFields (requiredNames (writtenProperties keywords)))
      (convertObject keywords fs) (convertObject keywords' gs) := by
  rw [convertObject, convertObject]
  refine (h.mapping hmatch "properties").bind ?_
  rintro ⟨listed, named⟩ ⟨listed', named'⟩ ⟨hlisted, hnamed⟩
  obtain rfl : named = named' := hnamed
  have hrequires := hlisted.addRequired hmatch.distinct hmatch.distinct' hmatch.properties
  refine (hrequires.mapping hmatch "patternProperties").bind ?_
  rintro ⟨closed, patterned⟩ ⟨closed', patterned'⟩ ⟨hclosed, hpatterned⟩
  obtain rfl : patterned = patterned' := hpatterned
  dsimp only
  rw [Fields.contains, Fields.contains, isSome_eq_of_rel (hclosed.values "additionalProperties")]
  split
  · exact .ok (hclosed.insert (.written (.bool false)))
  · exact .ok hclosed

end SameFields

theorem propertyNames_of_edits {keys : List String} {out : Fields Json}
    (h : EditsOnly keys fs out) (hkey : "properties" ∉ keys) :
    propertyNames out = propertyNames fs := by
  rw [propertyNames, h.get? _ hkey, propertyNames]

private theorem propertyNames_of_convertMapping (hmatch : KeywordsMatch keywords keywords')
    {out : Fields Json} {named : Bool}
    (hout : convertMapping keywords fs "properties" = .ok (out, named)) :
    requiredNames (writtenProperties keywords) ⊆ propertyNames out := by
  have hsubset : requiredNames (writtenProperties keywords) ⊆ (writtenProperties keywords).keys :=
    (List.filter_sublist.map _).subset
  refine List.Subset.trans hsubset ?_
  rw [writtenProperties]
  cases hk : keywords.get? "properties" with
  | none => exact List.nil_subset _
  | some keyword =>
    rw [convertMapping_eq hk] at hout
    by_cases hobject : keyword.written.isObject
    · rw [if_pos hobject] at hout
      obtain ⟨value, hvalue, hout⟩ := map_eq_ok_iff.1 hout
      rw [← (Prod.mk.inj hout).1, propertyNames, replaceLast, Fields.get?_insert_self,
        Option.bind_some, Option.bind_some, hmatch.names keyword value hk hvalue]
      exact List.Subset.refl _
    · have hnone : keyword.written.object? = none := by
        simpa [Json.isObject] using hobject
      rw [Option.bind_some, hnone]
      exact List.nil_subset _

/-- All names that have been added stand for properties of the node. -/
theorem propertyNames_of_convertObject (hmatch : KeywordsMatch keywords keywords')
    (hfs : fs.Distinct) {out : Fields Json} (hout : convertObject keywords fs = .ok out) :
    requiredNames (writtenProperties keywords) ⊆ propertyNames out := by
  obtain ⟨⟨listed, named⟩, hlisted, hout⟩ := bind_eq_ok_iff.1 hout
  obtain ⟨⟨closed, patterned⟩, hclosed, hout⟩ := bind_eq_ok_iff.1 hout
  have hlists := EditsOnly.convertMapping hfs hlisted
  have hrequires := EditsOnly.addRequired hlists.distinct
    (requiredNames (writtenProperties keywords))
  have hcloses := EditsOnly.convertMapping hrequires.distinct hclosed
  have hedits : EditsOnly ["required", "patternProperties", "additionalProperties"] listed out := by
    have hbefore := hrequires.append hcloses
    rw [← pure_eq_ok_iff.1 hout]
    split
    · exact hbefore.append (.insert hcloses.distinct _)
    · exact hbefore.mono (by simp)
  rw [propertyNames_of_edits hedits (by decide)]
  exact propertyNames_of_convertMapping hmatch hlisted

namespace SameFields

theorem convertObject (hmatch : KeywordsMatch keywords keywords') (h : SameFields [] fs gs) :
    Alike AnyError SameNode (convertObject keywords fs) (Schema.convertObject keywords' gs) :=
  (h.object hmatch).imp fun _ _ hout _ hsame ↦
    hsame.mono (propertyNames_of_convertObject hmatch h.distinct hout)

theorem node (h : SameFields [] fs gs) : SameNode fs gs := h.mono (List.nil_subset _)

theorem convertTypeName (hmatch : KeywordsMatch keywords keywords') (h : SameFields [] fs gs)
    (options : ConversionOptions) (name : String) :
    Alike AnyError SameNode (convertTypeName options keywords fs name)
      (Schema.convertTypeName options keywords' gs name) := by
  rw [Schema.convertTypeName, Schema.convertTypeName]
  cases DeclaredType.ofName name with
  | json type =>
    have htype : SameFields [] (fs.insert "type" (.string type.name))
        (gs.insert "type" (.string type.name)) := h.insert (.written (.string type.name))
    cases type with
    | object => exact htype.convertObject hmatch
    | array => exact (htype.schemaKeyword hmatch "items").imp fun _ _ _ _ ↦ node
    | _ => exact .ok htype.node
  | date =>
    have htypes : Json.Reordered (Json.strings ["string", "object"])
        (Json.strings ["string", "object"]) :=
      .array (.cons (.string "string") (.cons (.string "object") .nil))
    exact .ok ((h.insert (.written htypes)).withFormat "date-time").node
  | model model =>
    dsimp only
    split
    · exact .ok ((h.insert (.written (.string "object"))).insert (.written (.string model))).node
    · exact .ok ((h.remove "type").insert (.written (.string model))).node

end SameFields

theorem SameNode.convertArray (hmatch : KeywordsMatch keywords keywords') (h : SameNode fs gs) :
    Alike AnyError SameNode (convertArray keywords fs) (Schema.convertArray keywords' gs) := by
  refine (SameFields.schemaKeyword hmatch h "items").imp fun out out' hout _ hsame ↦ ?_
  have hedits := EditsOnly.convertArray h.distinct hout
  rwa [SameNode, propertyNames_of_edits hedits (by decide)]

theorem SameFields.convertType (hmatch : KeywordsMatch keywords keywords')
    (h : SameFields [] fs gs) (options : ConversionOptions) :
    Alike AnyError SameNode (convertType options keywords fs)
      (Schema.convertType options keywords' gs) := by
  rcases eq_none_or_of_rel (h.rel_get? (by decide : Role.of "type" = .plain) (by simp)) with
    ⟨ht, ht'⟩ | ⟨t, t', ht, ht', htt⟩
  · rw [Schema.convertType, Schema.convertType, ht, ht']
    exact .ok h.node
  · cases htt with
    | string name =>
      rw [Schema.convertType, Schema.convertType, ht, ht']
      exact h.convertTypeName hmatch options name
    | array htypes =>
      rw [convertType_of_types ht, convertType_of_types ht', Json.Reordered.any_isString_eq htypes,
        Json.Reordered.any_isString_eq htypes]
      refine Alike.bind (R := SameNode) ?_ fun a b hab ↦ ?_
      · split
        · exact h.convertObject hmatch
        · exact .ok h.node
      · split
        · exact hab.convertArray hmatch
        · exact .ok hab
    | _ =>
      rw [Schema.convertType, Schema.convertType, ht, ht']
      exact .ok h.node

/-- **Nodes of matching keywords.** -/
theorem alike_convertNode (hmatch : KeywordsMatch keywords keywords')
    (h : SameFields [] (keywords.mapValues (·.written)) (keywords'.mapValues (·.written))) :
    Alike AnyError SameSchema (convertNode options keywords) (convertNode options keywords') := by
  refine (Alike.foldlM (fun _ _ key _ hab ↦ hab.composite hmatch key) h).bind
    fun _ _ hcombined ↦ ?_
  refine (hcombined.schemaKeyword hmatch "not").bind fun _ _ hnegated ↦ ?_
  refine (hnegated.convertType hmatch options).bind fun typed typed' htyped ↦ ?_
  have hsettles := EditsOnly.settleMarkers htyped.distinct
  have hsettled : SameNode (settleMarkers typed) (settleMarkers typed') := by
    rw [SameNode, propertyNames_of_edits hsettles (by decide)]
    exact SameFields.settleMarkers htyped
  exact .ok hsettled.finishNode

/-! ## Trees

The induction is over the nodes that the two schemas stand for, which have the same shape because
shorthand does not depend on the order of keys. -/

/-- Two schemas are converted to the same, if at all, wherever they stand. -/
def RunAlike (options : ConversionOptions) (v w : Json) : Prop :=
  ∀ path path', Alike AnyError SameSchema ((conversion options).run path v)
    ((conversion options).run path' w)

private theorem alike_runItems {vs ws : List Json} (h : List.Forall₂ (RunAlike options) vs ws)
    (path path' : String) : Alike AnyError (List.Forall₂ SameSchema)
      ((conversion options).runItems path vs) ((conversion options).runItems path' ws) := by
  induction h with
  | nil =>
    rw [Pass.runItems, Pass.runItems]
    exact .ok .nil
  | cons hvw _ ih =>
    rw [Pass.runItems, Pass.runItems]
    exact (hvw _ _).bind fun _ _ hout ↦ ih.bind fun _ _ houts ↦ .ok (.cons hout houts)

private theorem alike_runNumbered {vs ws : List Json} (h : List.Forall₂ (RunAlike options) vs ws)
    (path path' : String) (index : Nat) : Alike AnyError (List.Forall₂ SameSchema)
      ((conversion options).runNumbered path index vs)
      ((conversion options).runNumbered path' index ws) := by
  induction h generalizing index with
  | nil =>
    rw [Pass.runNumbered, Pass.runNumbered]
    exact .ok .nil
  | cons hvw _ ih =>
    rw [Pass.runNumbered, Pass.runNumbered]
    exact (hvw _ _).bind fun _ _ hout ↦ (ih _).bind fun _ _ houts ↦ .ok (.cons hout houts)

private theorem succeeds_runProperties_iff (hps : ps.Distinct) (path : String) :
    Succeeds ((conversion options).runProperties path ps) ↔
      ∀ name property, ps.get? name = some property →
        Succeeds ((conversion options).run "" property) := by
  rw [Pass.runProperties_eq_mapM, succeeds_mapM_iff]
  simp only [bind_pure_comp, succeeds_map_iff, Fields.get?_eq_some_iff_mem hps]
  refine ⟨fun h name property hmem ↦ ?_, fun h entry hmem ↦ ?_⟩
  · exact ((extensional_conversion options).succeeds_run_iff "").1 (h (name, property) hmem)
  · exact ((extensional_conversion options).succeeds_run_iff "").2 (h entry.1 entry.2 hmem)

private theorem alike_runProperties (hps : ps.Distinct) (hqs : qs.Distinct)
    (hkeys : ps.keys.Perm qs.keys)
    (h : ∀ name v w, ps.get? name = some v → qs.get? name = some w → RunAlike options v w)
    (hrole : Role.of key = .properties) (path path' : String) :
    Alike AnyError (SameValue [] key) (.object <$> (conversion options).runProperties path ps)
      (.object <$> (conversion options).runProperties path' qs) := by
  have hrel : ∀ name, Option.Rel (RunAlike options) (ps.get? name) (qs.get? name) := fun name ↦
    Fields.rel_get?_of_perm hkeys (h name)
  refine alike_anyError_iff.2 ⟨?_, ?_⟩
  · rw [succeeds_map_iff, succeeds_map_iff, succeeds_runProperties_iff hps,
      succeeds_runProperties_iff hqs]
    refine forall_congr' fun name ↦ ?_
    rcases eq_none_or_of_rel (hrel name) with ⟨hv, hw⟩ | ⟨v, w, hv, hw, hvw⟩
    · simp [hv, hw]
    · simp [hv, hw, (alike_anyError_iff.1 (hvw "" "")).1]
  · intro out out' hout hout'
    obtain ⟨outs, houts, rfl⟩ := map_eq_ok_iff.1 hout
    obtain ⟨outs', houts', rfl⟩ := map_eq_ok_iff.1 hout'
    have hyields := Pass.forall₂_runProperties houts
    have hyields' := Pass.forall₂_runProperties houts'
    have hnames : ps.keys = Fields.keys outs :=
      Fields.keys_eq_of_forall₂ (R := fun _ ↦ (conversion options).Yields) hyields
    have hnames' : qs.keys = Fields.keys outs' :=
      Fields.keys_eq_of_forall₂ (R := fun _ ↦ (conversion options).Yields) hyields'
    refine .properties hrole (by rwa [Fields.Distinct, ← hnames]) (hnames ▸ hnames' ▸ hkeys) ?_
    intro name s s' hs hs'
    have hrun := Fields.rel_get?_of_forall₂
      (R := fun _ ↦ (conversion options).Yields) hyields name
    have hrun' := Fields.rel_get?_of_forall₂
      (R := fun _ ↦ (conversion options).Yields) hyields' name
    rw [hs] at hrun
    rw [hs'] at hrun'
    obtain ⟨v, hv, place, hplace⟩ := exists_left_of_rel hrun
    obtain ⟨w, hw, place', hplace'⟩ := exists_left_of_rel hrun'
    exact (alike_anyError_iff.1 (h name v w hv hw place place')).2 s s' hplace hplace'

private theorem alike_onKeyword (hv : v.Distinct) (hw : w.Distinct) (hvw : v.Reordered w)
    (hparts : ∀ part ∈ (Role.of key).schemas v, ∀ part', part'.Distinct → part.Reordered part' →
      RunAlike options part part') (path path' : String) :
    Alike AnyError (SameValue [] key) ((conversion options).onKeyword path (Role.of key) v)
      ((conversion options).onKeyword path' (Role.of key) w) := by
  -- the schemas in two lists
  have hlists : ∀ {vs ws : List Json}, List.Forall₂ Json.Reordered vs ws →
      (Json.array ws).Distinct → vs ⊆ (Role.of key).schemas v →
        List.Forall₂ (RunAlike options) vs ws := fun h hws hvs ↦
    forall₂_imp_of_mem h fun part hpart part' hpart' hreordered ↦
      hparts part (hvs hpart) part' (Json.distinct_array_iff.1 hws part' hpart') hreordered
  have hsame := hvw
  cases hrole : Role.of key with
  | composite =>
    cases hvw with
    | array h =>
      exact (alike_runNumbered (hlists h hw (by rw [hrole]; exact List.Subset.refl _)) _ _ 0).map
        fun _ _ ↦ .schemas (.inl hrole)
    | _ => exact .ok (.written hsame)
  | properties =>
    cases hvw with
    | object hkeys hvalues =>
      refine alike_runProperties (Json.distinct_object_iff.1 hv).1
        (Json.distinct_object_iff.1 hw).1 hkeys (fun name part part' hpart hpart' ↦ ?_) hrole _ _
      refine hparts part ?_ part' (hw.of_get? hpart') (hvalues name part part' hpart hpart')
      rw [hrole]
      exact List.mem_map_of_mem (Fields.mem_of_get? hpart)
    | _ => exact .ok (.written hsame)
  | items =>
    cases hvw with
    | array h =>
      exact (alike_runItems (hlists h hw (by rw [hrole]; exact List.Subset.refl _)) _ _).map
        fun _ _ ↦ .schemas (.inr hrole)
    | _ =>
      exact (hparts _ (by rw [hrole]; exact List.mem_singleton_self _) _ hw hsame path path').imp
        fun _ _ _ _ ↦ .schema (.inl hrole)
  | negation =>
    exact (hparts v (by rw [hrole]; exact List.mem_singleton_self _) w hw hvw path path').imp
      fun _ _ _ _ ↦ .schema (.inr hrole)
  | plain => exact .ok (.written hvw)

private theorem keywordsMatch_runKeywords (h : (Json.object fs).Reordered (.object gs))
    (hfs : (Json.object fs).Distinct) (hgs : (Json.object gs).Distinct)
    (hparts : ∀ part, HasPart (.object fs) part → ∀ part', part'.Distinct → part.Reordered part' →
      RunAlike options part part') (path path' : String) :
    KeywordsMatch ((conversion options).runKeywords path fs)
      ((conversion options).runKeywords path' gs) := by
  have hwritten : ∀ {fs : Fields Json} (path : String), (Json.object fs).Distinct →
      (writtenProperties ((conversion options).runKeywords path fs)).Distinct := by
    intro fs path hfs
    rw [writtenProperties, Pass.get?_runKeywords]
    cases hproperties : fs.get? "properties" with
    | none => exact List.nodup_nil
    | some value =>
      cases value with
      | object properties => exact (Json.distinct_object_iff.1 (hfs.of_get? hproperties)).1
      | _ => exact List.nodup_nil
  refine ⟨fun key ↦ ?_, hwritten path hfs, hwritten path' hgs, ?_⟩
  · rw [Pass.get?_runKeywords, Pass.get?_runKeywords]
    rcases eq_none_or_of_rel (h.rel_get? key) with ⟨hv, hw⟩ | ⟨v, w, hv, hw, hvw⟩
    · rw [hv, hw]
      exact .none
    · rw [hv, hw]
      exact .some ⟨hvw, alike_onKeyword (hfs.of_get? hv) (hgs.of_get? hw) hvw
        (fun part hpart ↦ hparts part ⟨key, v, hv, hpart⟩) _ _⟩
  · intro keyword out hkeyword hout
    rw [Pass.get?_runKeywords, Option.map_eq_some_iff] at hkeyword
    obtain ⟨value, hvalue, rfl⟩ := hkeyword
    cases value with
    | object properties =>
      obtain ⟨outs, houts, rfl⟩ := map_eq_ok_iff.1 hout
      exact (Fields.keys_eq_of_forall₂ (R := fun _ ↦ (conversion options).Yields)
        (Pass.forall₂_runProperties houts)).symm
    | _ =>
      obtain rfl := Except.ok.inj hout
      rfl

private theorem inFull_rel (h : v.Reordered w) :
    Option.Rel (fun fs gs ↦ Json.Reordered (.object fs) (.object gs)) (inFull v) (inFull w) := by
  have hlistOf : ∀ {items items' : Json}, items.Reordered items' →
      Json.Reordered (.object (listOf items)) (.object (listOf items')) := fun hitems ↦
    .of_forall₂ (.cons ⟨rfl, .string "array"⟩ (.cons ⟨rfl, hitems⟩
      (.cons ⟨rfl, .array .nil⟩ .nil)))
  cases h with
  | string name => exact .some (.of_forall₂ (.cons ⟨rfl, .string name⟩ .nil))
  | array h =>
    rcases h with _ | ⟨hitem, _ | ⟨hsecond, hrest⟩⟩
    · exact .none
    · exact .some (hlistOf hitem)
    · exact .some (hlistOf (.of_forall₂ (.cons
        ⟨rfl, .array (.cons hitem (.cons hsecond hrest))⟩ .nil)))
  | object hkeys hvalues =>
    have hfields := Json.Reordered.object hkeys hvalues
    rw [inFull, inFull, isExplicit_eq hfields]
    refine .some ?_
    split
    · exact hfields
    · exact .of_forall₂ (.cons ⟨rfl, .string "object"⟩ (.cons ⟨rfl, hfields⟩
        (.cons ⟨rfl, .bool false⟩ .nil)))
  | _ => exact .none

/-- Values that stand for no node are truth values, or no schemas. -/
theorem runAlike_of_inFull_eq_none (hvw : v.Reordered w) (hnone : inFull v = none) :
    RunAlike options v w := by
  intro path path'
  cases hvw with
  | bool value =>
    rw [Pass.run, Pass.run]
    exact .ok (.written (.bool value))
  | null =>
    rw [Pass.run, Pass.run]
    · exact .error trivial
    all_goals simp
  | number value =>
    rw [Pass.run, Pass.run]
    · exact .error trivial
    all_goals simp
  | string name => simp at hnone
  | array h =>
    cases h with
    | nil =>
      rw [Pass.run, Pass.run]
      exact .error trivial
    | @cons _ _ rest => cases rest <;> simp at hnone
  | object => simp at hnone

private theorem runAlike (hv : v.Distinct) (hw : w.Distinct) (hvw : v.Reordered w) :
    RunAlike options v w := by
  induction v using induction_inFull generalizing w with
  | step v ih =>
    rcases eq_none_or_of_rel (inFull_rel hvw) with ⟨hnone, -⟩ | ⟨fs, gs, hfs, hgs, hfsgs⟩
    · exact runAlike_of_inFull_eq_none hvw hnone
    · intro path path'
      have hdistinct := distinct_of_inFull hv hfs
      have hdistinct' := distinct_of_inFull hw hgs
      rw [Pass.run_of_inFull hfs, Pass.run_of_inFull hgs]
      refine alike_convertNode (keywordsMatch_runKeywords hfsgs hdistinct hdistinct'
        (fun part hpart part' hpart' hreordered ↦ ih fs hfs part hpart
          (distinct_of_hasPart hdistinct hpart) hpart' hreordered) path path') ?_
      rw [Pass.mapValues_runKeywords, Pass.mapValues_runKeywords]
      exact ⟨(Json.distinct_object_iff.1 hdistinct).1, (Json.distinct_object_iff.1 hdistinct').1,
        fun key ↦ rel_imp (hfsgs.rel_get? key) fun _ _ ↦ .written⟩

/-- **The order of keys.** Schemas that differ only in the order of keys, at any depth, are both
converted or both refused, and the validation schemas differ only in the order of keys and in the
order in which the names of properties have been added to the required ones. A schema is held as a
map, so no keyword of it stands twice. -/
theorem convert_reordered (hv : v.Distinct) (hw : w.Distinct) (hvw : v.Reordered w)
    (options : ConversionOptions) :
    (Succeeds (convert options v) ↔ Succeeds (convert options w)) ∧
      ∀ s s', convert options v = .ok s → convert options w = .ok s' → SameSchema s s' :=
  alike_anyError_iff.1 (runAlike hv hw hvw "" "")

def requiredText : Json := .object [("type", .string "text"), ("required", .bool true)]

def textRecord (first second : String) : Json :=
  .object [("type", .string "object"),
    ("properties", .object [(first, requiredText), (second, requiredText)])]

def compiledTextRecord (first second : String) : Json :=
  let text := Json.object [("type", .string "string"), ("format", .string "required")]
  .object [("type", .string "object"), ("properties", .object [(first, text), (second, text)]),
    ("required", Json.strings [first, second]), ("additionalProperties", .bool false)]

theorem convert_reordered_textRecord :
    let contact := textRecord "name" "email"
    let contact' := textRecord "email" "name"
    contact.Reordered contact' ∧ ∃ s s', convert ⟨false⟩ contact = .ok s ∧
      convert ⟨false⟩ contact' = .ok s' ∧ s.get? "required" ≠ s'.get? "required" ∧
        SameSchema s s' := by
  intro contact contact'
  have htext : requiredText.Reordered requiredText :=
    .of_forall₂ (.cons ⟨rfl, .string "text"⟩ (.cons ⟨rfl, .bool true⟩ .nil))
  have hproperties : Json.Reordered
      (.object [("name", requiredText), ("email", requiredText)])
      (.object [("email", requiredText), ("name", requiredText)]) := by
    refine .object (.swap _ _ _) fun key v w hv hw ↦ ?_
    have hmem := Fields.mem_of_get? hv
    have hmem' := Fields.mem_of_get? hw
    simp only [List.mem_pair, Prod.mk.injEq, ← or_and_right] at hmem hmem'
    rw [hmem.2, hmem'.2]
    exact htext
  have hreordered : contact.Reordered contact' :=
    .of_forall₂ (.cons ⟨rfl, .string "object"⟩ (.cons ⟨rfl, hproperties⟩ .nil))
  have hdistinct : contact.Distinct := by
    simp [contact, textRecord, requiredText]
  have hdistinct' : contact'.Distinct := by
    simp [contact', textRecord, requiredText]
  have hconvert : convert ⟨false⟩ contact = .ok (compiledTextRecord "name" "email") := rfl
  have hconvert' : convert ⟨false⟩ contact' = .ok (compiledTextRecord "email" "name") := rfl
  refine ⟨hreordered, _, _, hconvert, hconvert', ?_,
    (convert_reordered hdistinct hdistinct' hreordered ⟨false⟩).2 _ _ hconvert hconvert'⟩
  simp [compiledTextRecord, Json.strings]

end Schema

end ModelCatalog
