import ModelCatalog.Proofs.Schema.NonNull
import ModelCatalog.Proofs.Schema.ObjectNode

/-!
# Validation schemas up to the order of keys

Two validation schemas may differ only in the order of keys, at any depth. One more order depends on
that of keys: the names of required properties are collected in the order of the properties and
added to the list that the author gives. `SameSchema` allows for these two and no others.

## Nodes under conversion

The keywords of two nodes in the middle of conversion are compared by `SameFields`. A step reads a
keyword, and edits one, without looking at the others, so each keeps the relation. It is therefore
stated by look-ups, and the order of the keys never comes up.
-/

namespace ModelCatalog

open Outcome

namespace Schema

def propertyNames (fields : Fields Json) : List String :=
  Fields.keys (((fields.get? "properties").bind Json.object?).getD [])

mutual

/-- Two validation schemas differ only in the order of keys, at any depth, and in the order in which
the names of properties have been added to the required ones. -/
inductive SameSchema : Json → Json → Prop where
  | written {v w : Json} (h : v.Reordered w) : SameSchema v w
  | node {fs gs : Fields Json} (hdistinct : fs.Distinct) (hkeys : fs.keys.Perm gs.keys)
      (hvalues : ∀ key v w, fs.get? key = some v → gs.get? key = some w →
        SameValue (propertyNames fs) key v w) : SameSchema (.object fs) (.object gs)

/-- The same for the values of a keyword in two nodes that give properties of these names. Below a
keyword that holds no schemas, only the order of keys may differ. -/
inductive SameValue : List String → String → Json → Json → Prop where
  | written {names : List String} {key : String} {v w : Json} (h : v.Reordered w) :
      SameValue names key v w
  | schema {names : List String} {key : String} {v w : Json}
      (hrole : Role.of key = .items ∨ Role.of key = .negation) (h : SameSchema v w) :
      SameValue names key v w
  | schemas {names : List String} {key : String} {vs ws : List Json}
      (hrole : Role.of key = .composite ∨ Role.of key = .items)
      (h : List.Forall₂ SameSchema vs ws) : SameValue names key (.array vs) (.array ws)
  | properties {names : List String} {key : String} {fs gs : Fields Json}
      (hrole : Role.of key = .properties) (hdistinct : fs.Distinct) (hkeys : fs.keys.Perm gs.keys)
      (hvalues : ∀ name v w, fs.get? name = some v → gs.get? name = some w → SameSchema v w) :
      SameValue names key (.object fs) (.object gs)
  | required {names added added' : List String} {listed listed' : List Json}
      (hlisted : List.Forall₂ Json.Reordered listed listed') (hadded : added.Perm added')
      (hnames : added ⊆ names) :
      SameValue names "required" (.array (listed ++ added.map .string))
        (.array (listed' ++ added'.map .string))

end

variable {names : List String} {key : String} {v w : Json} {fs gs : Fields Json}

namespace SameValue

theorem mono {names' : List String} (h : SameValue names key v w) (hnames : names ⊆ names') :
    SameValue names' key v w := by
  cases h with
  | written h => exact .written h
  | schema hrole h => exact .schema hrole h
  | schemas hrole h => exact .schemas hrole h
  | properties hrole hdistinct hkeys hvalues => exact .properties hrole hdistinct hkeys hvalues
  | required hlisted hadded hadded_names =>
    exact .required hlisted hadded (List.Subset.trans hadded_names hnames)

theorem reordered (h : SameValue names key v w) (hplain : Role.of key = .plain)
    (hrequired : key = "required" → names = []) : v.Reordered w := by
  cases h with
  | written h => exact h
  | schema hrole => simp [hplain] at hrole
  | schemas hrole => simp [hplain] at hrole
  | properties hrole => simp [hplain] at hrole
  | required hlisted hadded hnames =>
    obtain rfl := List.eq_nil_of_subset_nil (hrequired rfl ▸ hnames)
    obtain rfl := List.Perm.nil_eq hadded
    simpa using Json.Reordered.array hlisted

theorem allOfEntries (h : SameValue names key v w) (hrole : Role.of key = .composite) :
    List.Forall₂ SameSchema (allOfEntries (some v)) (Schema.allOfEntries (some w)) := by
  cases h with
  | written h =>
    cases h with
    | array h => exact h.imp fun _ _ ↦ .written
    | null => exact .cons (.written .null) .nil
    | bool value => exact .cons (.written (.bool value)) .nil
    | number value => exact .cons (.written (.number value)) .nil
    | string value => exact .cons (.written (.string value)) .nil
    | object hkeys hvalues => exact .cons (.written (.object hkeys hvalues)) .nil
  | schema hrole' => simp [hrole] at hrole'
  | schemas _ h => exact h
  | properties hrole' => simp [hrole] at hrole'
  | required => simp [Role.of, compositeKeywords] at hrole

private theorem bool_or_not (h : SameValue names key v w) (hplain : Role.of key = .plain) :
    (∃ value, v = .bool value ∧ w = .bool value) ∨
      (∀ value, v ≠ .bool value) ∧ ∀ value, w ≠ .bool value := by
  cases h with
  | written h =>
    cases h with
    | bool value => exact .inl ⟨value, rfl, rfl⟩
    | _ => exact .inr ⟨by simp, by simp⟩
  | schema hrole => simp [hplain] at hrole
  | schemas hrole => simp [hplain] at hrole
  | properties hrole => simp [hplain] at hrole
  | required => exact .inr ⟨by simp, by simp⟩

end SameValue

theorem SameSchema.rel_get? (h : SameSchema v w) (hplain : Role.of key = .plain)
    (hkey : key ≠ "required") : Option.Rel Json.Reordered (v.get? key) (w.get? key) := by
  cases h with
  | written h => exact h.get? key
  | node hdistinct hkeys hvalues =>
    exact Fields.rel_get?_of_perm hkeys fun v w hv hw ↦
      (hvalues key v w hv hw).reordered hplain fun heq ↦ absurd heq hkey

private theorem any_hasFormat_eq {vs ws : List Json}
    (h : List.Forall₂ SameSchema vs ws) (format : String) :
    vs.any (hasFormat · format) = ws.any (hasFormat · format) := by
  induction h with
  | nil => rfl
  | cons hvw _ ih =>
    have hformat := any_eq_of_rel (hvw.rel_get? (by decide : Role.of "format" = .plain) (by decide))
      fun _ _ h ↦ h.isString_eq format
    rw [List.any_cons, List.any_cons, hasFormat, hasFormat, hformat, ih]

theorem sameSchema_ofFormat (h : v.Reordered w) : SameSchema (ofFormat v) (ofFormat w) :=
  .written (.of_forall₂ (.cons ⟨rfl, h⟩ .nil))

/-! ## Keywords that are being converted

Until a node is finished its keywords are only looked up, removed and put at the end, and these
three keep the relation. -/

/-- The keywords of two nodes that differ only in the order of keys and of added names. -/
structure SameFields (names : List String) (fs gs : Fields Json) : Prop where
  distinct : fs.Distinct
  distinct' : gs.Distinct
  values : ∀ key, Option.Rel (SameValue names key) (fs.get? key) (gs.get? key)

namespace SameFields

theorem mono {names' : List String} (h : SameFields names fs gs) (hnames : names ⊆ names') :
    SameFields names' fs gs :=
  ⟨h.distinct, h.distinct', fun key ↦ rel_imp (h.values key) fun _ _ hvw ↦ hvw.mono hnames⟩

theorem rel_get? (h : SameFields names fs gs) (hplain : Role.of key = .plain)
    (hkey : key = "required" → names = []) :
    Option.Rel Json.Reordered (fs.get? key) (gs.get? key) :=
  rel_imp (h.values key) fun _ _ hvw ↦ hvw.reordered hplain hkey

theorem insert (h : SameFields names fs gs) (hvw : SameValue names key v w) :
    SameFields names (fs.insert key v) (gs.insert key w) := by
  refine ⟨h.distinct.insert key v, h.distinct'.insert key w, fun other ↦ ?_⟩
  rw [Fields.get?_insert, Fields.get?_insert]
  split
  · rename_i heq
    exact .some (heq ▸ hvw)
  · exact h.values other

theorem remove (h : SameFields names fs gs) (key : String) :
    SameFields names (fs.remove key) (gs.remove key) := by
  refine ⟨h.distinct.remove key, h.distinct'.remove key, fun other ↦ ?_⟩
  rw [Fields.get?_remove h.distinct, Fields.get?_remove h.distinct']
  split
  · exact .none
  · exact h.values other

theorem replaceLast (h : SameFields names fs gs) (hvw : SameValue names key v w) :
    SameFields names (replaceLast fs key v) (Schema.replaceLast gs key w) :=
  (h.remove key).insert hvw

theorem keys_perm (h : SameFields names fs gs) : fs.keys.Perm gs.keys :=
  Fields.keys_perm_of_rel h.distinct h.distinct' h.values

/-! ### Formats -/

theorem allOfEntries (h : SameFields names fs gs) :
    List.Forall₂ SameSchema (allOfEntries (fs.get? "allOf"))
      (Schema.allOfEntries (gs.get? "allOf")) := by
  obtain ⟨hv, hw⟩ | ⟨v, w, hv, hw, hvw⟩ := eq_none_or_of_rel (h.values "allOf")
  · rw [hv, hw]
    exact .nil
  · rw [hv, hw]
    exact hvw.allOfEntries (by decide)

theorem addToAllOf (h : SameFields names fs gs) (format : String) {entries entries' : List Json}
    (hentries : List.Forall₂ SameSchema entries entries') :
    SameFields names (withFormat.addToAllOf format fs entries)
      (withFormat.addToAllOf format gs entries') := by
  have hall := List.rel_append h.allOfEntries hentries
  rw [withFormat.addToAllOf, withFormat.addToAllOf]
  refine h.replaceLast (.schemas (.inl (by decide)) ?_)
  rw [any_hasFormat_eq hall]
  split
  · exact hall
  · exact List.rel_append hall (.cons (sameSchema_ofFormat (.string format)) .nil)

theorem withFormat (h : SameFields names fs gs) (format : String) :
    SameFields names (withFormat fs format) (Schema.withFormat gs format) := by
  have hrest := h.remove "format"
  have hformat : SameFields names ((fs.remove "format").insert "format" (.string format))
      ((gs.remove "format").insert "format" (.string format)) :=
    hrest.insert (.written (.string format))
  rw [Schema.withFormat, Schema.withFormat]
  rcases eq_none_or_of_rel (h.rel_get? (by decide : Role.of "format" = .plain) (by simp)) with
    ⟨hv, hw⟩ | ⟨v, w, hv, hw, hvw⟩
  · rw [hv, hw, Fields.contains, Fields.contains, isSome_eq_of_rel (h.values "allOf")]
    dsimp only
    split
    · exact hrest.addToAllOf format .nil
    · exact hformat
  · rw [hv, hw]
    dsimp only
    rw [hvw.isString_eq]
    split
    · exact hformat
    · exact hrest.addToAllOf format (.cons (sameSchema_ofFormat hvw) .nil)

/-! ### Markers -/

theorem settleDefault (h : SameFields names fs gs) :
    SameFields names (settleDefault fs) (Schema.settleDefault gs) := by
  rw [Schema.settleDefault, Schema.settleDefault]
  rcases eq_none_or_of_rel (h.rel_get? (by decide : Role.of "default" = .plain) (by simp)) with
    ⟨hv, hw⟩ | ⟨v, w, hv, hw, hvw⟩
  · rw [hv, hw]
    exact h
  · rw [hv, hw]
    dsimp only
    rw [hvw.isString_eq]
    split
    · exact h.remove "default"
    · exact h.replaceLast (.written hvw)

theorem settleMarkers (h : SameFields names fs gs) :
    SameFields names (settleMarkers fs) (Schema.settleMarkers gs) := by
  have hremove := h.remove "required"
  have htype := any_eq_of_rel (h.rel_get? (by decide : Role.of "type" = .plain) (by simp))
    fun _ _ hvw ↦ hvw.isString_eq "object"
  -- whether there is a truth value under `required`, and which
  have hmarker : (∃ value, fs.get? "required" = some (.bool value) ∧
      gs.get? "required" = some (.bool value)) ∨
        (∀ value, fs.get? "required" ≠ some (.bool value)) ∧
          ∀ value, gs.get? "required" ≠ some (.bool value) := by
    obtain ⟨hv, hw⟩ | ⟨v, w, hv, hw, hvw⟩ := eq_none_or_of_rel (h.values "required")
    · simp [hv, hw]
    · simpa [hv, hw] using hvw.bool_or_not (by decide)
  rcases hmarker with ⟨value, hv, hw⟩ | ⟨hv, hw⟩
  · rw [Schema.settleMarkers, Schema.settleMarkers, htype, hv, hw]
    split
    · exact hremove
    · cases value with
      | false => exact hremove.settleDefault
      | true => exact (hremove.withFormat "required").settleDefault
  · rw [settleMarkers_of_ne_bool hv, settleMarkers_of_ne_bool hw, htype]
    split
    · exact h
    · exact h.settleDefault

end SameFields

/-! ## Finished nodes

Finishing chooses between forms by the type and the markers, which are the same in both nodes, so
both take the same form. -/

/-- The keywords of two nodes that differ only in the order of keys and in the order in which the
names of properties have been added to the required ones. -/
abbrev SameNode (fs gs : Fields Json) : Prop := SameFields (propertyNames fs) fs gs

theorem SameNode.sameSchema (h : SameNode fs gs) : SameSchema (.object fs) (.object gs) := by
  refine .node h.distinct h.keys_perm fun key v w hv hw ↦ ?_
  have hvw := h.values key
  rw [hv, hw] at hvw
  exact Option.rel_some_some.1 hvw

private theorem sameSchema_of_forall₂ (hdistinct : fs.Distinct)
    (h : List.Forall₂ (fun e e' ↦ e.1 = e'.1 ∧ SameValue (propertyNames fs) e.1 e.2 e'.2) fs gs) :
    SameSchema (.object fs) (.object gs) := by
  have hkeys := Fields.keys_eq_of_forall₂ h
  have hdistinct' : gs.Distinct := by rwa [Fields.Distinct, ← hkeys]
  exact SameNode.sameSchema ⟨hdistinct, hdistinct', Fields.rel_get?_of_forall₂ h⟩

private theorem forall₂_optionalField {R : String → Json → Json → Prop} {x y : Option Json}
    (h : Option.Rel (R key) x y) :
    List.Forall₂ (fun e e' ↦ e.1 = e'.1 ∧ R e.1 e.2 e'.2) (optionalField key x)
      (optionalField key y) := by
  cases h with
  | some h => exact .cons ⟨rfl, h⟩ .nil
  | none => exact .nil

private theorem sameSchema_orNull {notNull notNull' : Fields Json}
    {validate validate' : Option Json}
    (h : SameSchema (.object notNull) (.object notNull'))
    (hvalidate : Option.Rel Json.Reordered validate validate') :
    SameSchema (.object (orNull notNull validate)) (.object (orNull notNull' validate')) := by
  have hanyOf : Role.of "anyOf" = .composite := by decide
  have hnull : SameSchema (.object (ofName "null")) (.object (ofName "null")) :=
    .written (.of_forall₂ (.cons ⟨rfl, .string "null"⟩ .nil))
  exact sameSchema_of_forall₂ (distinct_alternatives _ _ _)
    (.cons ⟨rfl, .schemas (.inl hanyOf) (.cons hnull (.cons h .nil))⟩
      (.cons ⟨rfl, .written (.bool true)⟩
        (forall₂_optionalField (rel_imp hvalidate fun _ _ ↦ .written))))

private theorem reordered_typeList {type type' : Option Json}
    (h : Option.Rel Json.Reordered type type') :
    List.Forall₂ Json.Reordered (typeList type) (typeList type') := by
  cases h with
  | none => exact .nil
  | some h =>
    cases h with
    | array h => exact h
    | null => exact .cons .null .nil
    | bool value => exact .cons (.bool value) .nil
    | number value => exact .cons (.number value) .nil
    | string value => exact .cons (.string value) .nil
    | object hkeys hvalues => exact .cons (.object hkeys hvalues) .nil

private theorem listsNull_eq (h : v.Reordered w) : listsNull v = listsNull w := by
  cases h with
  | array h => exact Json.Reordered.any_isString_eq h "null"
  | _ => rfl

namespace SameNode

theorem rel_get? (h : SameNode fs gs) (hplain : Role.of key = .plain) (hkey : key ≠ "required") :
    Option.Rel Json.Reordered (fs.get? key) (gs.get? key) :=
  SameFields.rel_get? h hplain fun heq ↦ absurd heq hkey

theorem typeAndRemaining (h : SameNode fs gs) :
    SameNode (optionalField "type" (fs.get? "type") ++ remaining fs)
      (optionalField "type" (gs.get? "type") ++ remaining gs) := by
  have hnames : propertyNames (optionalField "type" (fs.get? "type") ++ remaining fs) =
      propertyNames fs := by
    rw [propertyNames, get?_typeAndRemaining h.distinct, if_neg (by decide), propertyNames]
  refine ⟨distinct_typeAndRemaining h.distinct, distinct_typeAndRemaining h.distinct', fun key ↦ ?_⟩
  rw [hnames, get?_typeAndRemaining h.distinct, get?_typeAndRemaining h.distinct']
  split
  · exact .none
  · exact h.values key

theorem withNull (h : SameNode fs gs) :
    SameNode (withNull (fs.get? "type") (fs.get? "validate") (remaining fs))
      (Schema.withNull (gs.get? "type") (gs.get? "validate") (remaining gs)) := by
  have hnames : propertyNames (Schema.withNull (fs.get? "type") (fs.get? "validate")
      (remaining fs)) = propertyNames fs := by
    rw [propertyNames, get?_nullableTypes, if_neg (by decide), if_neg (by decide),
      if_neg (by decide), Option.none_or, get?_remaining h.distinct, if_neg (by decide),
      propertyNames]
  have htypes := List.Forall₂.cons (Json.Reordered.string "null")
    (reordered_typeList (h.rel_get? (by decide : Role.of "type" = .plain) (by decide)))
  have hvalidate := h.rel_get? (by decide : Role.of "validate" = .plain) (by decide)
  refine ⟨distinct_nullableTypes h.distinct _ _ _,
    distinct_nullableTypes h.distinct' _ _ _, fun key ↦ ?_⟩
  rw [hnames, get?_nullableTypes, get?_nullableTypes, get?_remaining h.distinct,
    get?_remaining h.distinct']
  split
  · exact .some (.written (.array htypes))
  · split
    · exact .some (.written (.bool true))
    · split
      · rename_i hkey
        subst hkey
        rw [if_pos (by decide), if_pos (by decide), Option.or_none, Option.or_none]
        exact rel_imp hvalidate fun _ _ ↦ .written
      · rw [Option.none_or, Option.none_or]
        split
        · exact .none
        · exact h.values key

theorem allowNull (h : SameNode fs gs) (hv : fs.get? "nullable" = some (.bool true))
    (hw : gs.get? "nullable" = some (.bool true)) :
    SameSchema (allowNull fs) (Schema.allowNull gs) := by
  have htype := any_eq_of_rel (h.rel_get? (by decide : Role.of "type" = .plain) (by decide))
    fun _ _ ↦ listsNull_eq
  have hreference := h.rel_get? (by decide : Role.of "$ref" = .plain) (by decide)
  have hvalidate := h.rel_get? (by decide : Role.of "validate" = .plain) (by decide)
  have hremaining : (remaining fs).keys.any (· ∉ harmlessKeywords) =
      (remaining gs).keys.any (· ∉ harmlessKeywords) :=
    ((((h.remove _).remove _).remove _).remove _).keys_perm.any_eq
  rw [Schema.allowNull, Schema.allowNull, htype, hv, hw]
  split
  · exact h.sameSchema
  · dsimp only
    rw [isSome_eq_of_rel hreference, hremaining]
    split
    · refine sameSchema_orNull ?_ hvalidate
      rcases eq_none_or_of_rel hreference with ⟨hr, hr'⟩ | ⟨r, r', hr, hr', hrr⟩
      · rw [hr, hr']
        exact h.typeAndRemaining.sameSchema
      · rw [hr, hr']
        exact .written (.of_forall₂ (.cons ⟨rfl, hrr⟩ .nil))
    · exact h.withNull.sameSchema

/-- **Finishing a node.** -/
theorem finishNode (h : SameNode fs gs) : SameSchema (finishNode fs) (Schema.finishNode gs) := by
  have hnullable := any_eq_of_rel
    (h.rel_get? (by decide : Role.of "nullable" = .plain) (by decide))
    fun _ _ ↦ Json.Reordered.isTrue_eq
  rw [Schema.finishNode, Schema.finishNode]
  by_cases hnull : (gs.get? "nullable").any Json.isTrue
  · rw [hnullable, if_pos hnull, if_pos hnull]
    exact h.allowNull (any_isTrue_iff.1 (hnullable.trans hnull)) (any_isTrue_iff.1 hnull)
  · rw [hnullable, if_neg hnull, if_neg hnull]
    rcases eq_none_or_of_rel (h.rel_get? (by decide : Role.of "$ref" = .plain) (by decide)) with
      ⟨hr, hr'⟩ | ⟨r, r', hr, hr', hrr⟩
    · rw [hr, hr']
      exact h.sameSchema
    · rw [hr, hr']
      exact .written (.of_forall₂ (.cons ⟨rfl, hrr⟩ .nil))

end SameNode

end Schema

end ModelCatalog
