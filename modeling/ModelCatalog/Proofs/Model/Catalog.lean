import ModelCatalog.Proofs.Model.DependencyOrder
import ModelCatalog.Proofs.Model.Schema
import ModelCatalog.Proofs.Relation.Resolution
import Mathlib.Data.List.Nodup

/-!
# What a catalog holds

A catalog that resolves holds one model for each definition and nothing else, whatever order the
sorting gives them: each model is found at its place by its name, carries the relations of its
definition, and has one schema, which is that of its instances.

Two of the errors that resolving could report never arise. No model is missing when the schemas are
compiled, because sorting lists none but the declared names; and no relation lacks a key, because
validation has asked for both.
-/

namespace ModelCatalog

open Outcome

namespace ModelDefinition

/-- What holds of the declared properties holds with the timestamps if inserting them keeps it. -/
theorem allProperties_induction {d : ModelDefinition} {P : Fields Json → Prop}
    (hdeclared : P d.properties)
    (hinsert : ∀ fields name, P fields → P (fields.insert name timestampSchema)) :
    P d.allProperties := by
  have hadd : ∀ fields name, P fields → P (addMissing fields name timestampSchema) := by
    intro fields name hfields
    rw [addMissing]
    split
    · exact hfields
    · exact hinsert fields name hfields
  rw [allProperties]
  split
  · exact hadd _ _ (hadd _ _ hdeclared)
  · exact hdeclared

theorem distinct_allProperties {d : ModelDefinition} (h : d.properties.Distinct) :
    d.allProperties.Distinct :=
  allProperties_induction h fun _ name hfields ↦ hfields.insert name _

/-- The timestamps replace no declared property. -/
theorem contains_allProperties {d : ModelDefinition} {name : String}
    (h : d.properties.contains name) : d.allProperties.contains name := by
  refine allProperties_induction (P := fun fields ↦ fields.contains name) h ?_
  intro fields key hfields
  rw [Fields.contains_iff_mem_keys] at hfields ⊢
  rw [Fields.keys_insert]
  split
  · exact hfields
  · exact List.mem_append_left _ hfields

end ModelDefinition

/-- The model is the one that a definition describes, with its relations resolved one by one, under
their names and in their order. -/
structure Model.Describes (registry : Registry) (d : ModelDefinition) (m : Model) : Prop where
  eq_ofDefinition : m = { Model.ofDefinition d with relations := m.relations }
  relations : List.Forall₂ (fun described relation ↦ described.1 = relation.1 ∧
    registry.resolveRelation described.2 = .ok relation.2) d.relations m.relations

theorem Model.Describes.name_eq {registry : Registry} {d : ModelDefinition} {m : Model}
    (h : m.Describes registry d) : m.name = d.name := by
  rw [h.eq_ofDefinition]
  rfl

theorem Model.Describes.idProperties_eq {registry : Registry} {d : ModelDefinition} {m : Model}
    (h : m.Describes registry d) : m.idProperties = d.idProperties := by
  rw [h.eq_ofDefinition]
  rfl

theorem Model.Describes.properties_eq {registry : Registry} {d : ModelDefinition} {m : Model}
    (h : m.Describes registry d) : m.properties = d.allProperties := by
  rw [h.eq_ofDefinition]
  rfl

theorem Model.Describes.distinct_properties {registry : Registry} {d : ModelDefinition} {m : Model}
    (h : m.Describes registry d) (hproperties : d.properties.Distinct) : m.properties.Distinct :=
  h.properties_eq ▸ ModelDefinition.distinct_allProperties hproperties

theorem Model.Describes.keys_relations {registry : Registry} {d : ModelDefinition} {m : Model}
    (h : m.Describes registry d) : d.relations.keys = m.relations.keys :=
  map_eq_map_of_forall₂ h.relations fun _ _ hrelation ↦ hrelation.1

/-- In a valid definition that repeats no name in a mapping, no relation has the name of a property
either. -/
theorem Model.Describes.nodup_keys {registry : Registry} {d : ModelDefinition} {m : Model}
    (h : m.Describes registry d) (hvalid : d.Valid) (hproperties : d.properties.Distinct)
    (hrelations : d.relations.Distinct) : (m.properties.keys ++ m.relations.keys).Nodup := by
  refine List.nodup_append.2 ⟨h.distinct_properties hproperties, h.keys_relations ▸ hrelations, ?_⟩
  rintro name hproperty _ hrelation rfl
  rw [h.properties_eq] at hproperty
  rw [← h.keys_relations] at hrelation
  obtain ⟨entry, hentry, rfl⟩ := List.mem_map.1 hrelation
  exact hvalid.notMem_properties entry hentry (Fields.contains_iff_mem_keys.2 hproperty)

/-! ## Models with distinct names

As long as the names are distinct, the map from names to positions loses nothing, and looking a
model up by its name finds the one that stands at the position. -/

namespace Registry

theorem findExact_eq_some_iff {models : List Model} (hnames : (models.map (·.name)).Nodup)
    {name : String} {m : Model} :
    findExact models name = some m ↔ m ∈ models ∧ m.name = name := by
  refine ⟨fun h ↦ ⟨mem_of_findExact h, by simpa using List.find?_some h⟩, ?_⟩
  rintro ⟨hm, rfl⟩
  induction models with
  | nil => simp at hm
  | cons first rest ih =>
    rw [List.map_cons, List.nodup_cons] at hnames
    rcases List.mem_cons.1 hm with rfl | hm
    · simp [findExact]
    · have hne : first.name ≠ m.name := fun heq ↦
        hnames.1 (heq ▸ List.mem_map.2 ⟨m, hm, rfl⟩)
      simpa [findExact, hne] using ih hnames.2 hm

/-- No model is lost where the names are distinct. -/
theorem lastByName_eq_self {models : List Model} (hnames : (models.map (·.name)).Nodup) :
    lastByName models = models := by
  have hdistinct : Fields.Distinct (models.map fun model ↦ (model.name, model)) := by
    simpa [Fields.Distinct, Fields.keys, List.map_map, Function.comp_def] using hnames
  rw [lastByName, Fields.ofList_eq_self hdistinct, List.map_map]
  exact List.map_id _

end Registry

namespace Catalog

private theorem get?_positions {c : Catalog} (hnames : (c.models.map (·.name)).Nodup)
    {name : String} {i : Nat} :
    c.positions.get? name = some i ↔ ∃ m, c.models[i]? = some m ∧ m.name = name := by
  -- no name is given a second place, so none is overwritten
  have hkeys : Fields.Distinct (c.models.zipIdx.map fun entry ↦ (entry.1.name, entry.2)) := by
    have heq : Fields.keys (c.models.zipIdx.map fun entry ↦ (entry.1.name, entry.2)) =
        (c.models.zipIdx.map Prod.fst).map (·.name) := by
      rw [Fields.keys, List.map_map, List.map_map]
      rfl
    rw [Fields.Distinct, heq, List.zipIdx_map_fst]
    exact hnames
  rw [positions, Fields.ofList_eq_self hkeys, Fields.get?_eq_some_iff_mem hkeys, List.mem_map]
  constructor
  · rintro ⟨⟨m, j⟩, hmem, heq⟩
    obtain ⟨rfl, rfl⟩ := Prod.mk.inj heq
    exact ⟨m, List.mk_mem_zipIdx_iff_getElem?.1 hmem, rfl⟩
  · rintro ⟨m, hm, rfl⟩
    exact ⟨(m, i), List.mk_mem_zipIdx_iff_getElem?.2 hm, rfl⟩

theorem get?_eq_some_iff {c : Catalog} (hnames : (c.models.map (·.name)).Nodup) {name : String}
    {m : Model} : c.get? name = some m ↔ m ∈ c.models ∧ m.name = name := by
  simp only [get?, Option.bind_eq_some_iff, get?_positions hnames]
  constructor
  · rintro ⟨i, ⟨n, hn, rfl⟩, hm⟩
    obtain rfl : n = m := Option.some.inj (hn.symm.trans hm)
    exact ⟨List.mem_of_getElem? hm, rfl⟩
  · rintro ⟨hm, rfl⟩
    obtain ⟨i, hi⟩ := List.mem_iff_getElem?.1 hm
    exact ⟨i, ⟨m, hi, rfl⟩, hi⟩

end Catalog

/-! ## The registry behind a catalog -/

theorem describes_of_resolveModels {registry : Registry} {ds : List ModelDefinition}
    {models : List Model} (h : resolveModels registry ds = .ok models) :
    List.Forall₂ (fun d m ↦ m.Describes registry d) ds models := by
  refine (mapM_eq_ok_iff.1 h).imp fun d m hdm ↦ ?_
  obtain ⟨relations, hrelations, hm⟩ := bind_eq_ok_iff.1 hdm
  rw [← pure_eq_ok_iff.1 hm]
  exact ⟨rfl, Registry.resolveRelations_eq_ok_iff.1 hrelations⟩

namespace Registry

/-- The registry of definitions with distinct names holds one model for each of them and finds it by
its name. -/
theorem describes_of_ofDefinitions {ds : List ModelDefinition} {r : Registry}
    (hnames : (ds.map (·.name)).Nodup) (h : ofDefinitions ds = .ok r) :
    List.Forall₂ (fun d m ↦ m.Describes (ofNames ds) d) ds r.models ∧
      ∀ name m, r.lookup name = some m ↔ m ∈ r.models ∧ m.name = name := by
  obtain ⟨models, hmodels, hr⟩ := bind_eq_ok_iff.1 h
  have hall := describes_of_resolveModels hmodels
  have heq : ds.map (·.name) = models.map (·.name) :=
    map_eq_map_of_forall₂ hall fun _ _ hdm ↦ hdm.name_eq.symm
  rw [heq] at hnames
  rw [← pure_eq_ok_iff.1 hr, lastByName_eq_self hnames]
  exact ⟨hall, fun _ _ ↦ findExact_eq_some_iff hnames⟩

/-- A registry of definitions finds the declared names and no other. -/
theorem contains_iff_of_ofDefinitions {ds : List ModelDefinition} {r : Registry}
    (hnames : (ds.map (·.name)).Nodup) (h : ofDefinitions ds = .ok r) {name : String} :
    r.contains name ↔ name ∈ ds.map (·.name) := by
  obtain ⟨hmodels, hlookup⟩ := describes_of_ofDefinitions hnames h
  have heq : ds.map (·.name) = r.models.map (·.name) :=
    map_eq_map_of_forall₂ hmodels fun _ _ hdm ↦ hdm.name_eq.symm
  simp only [contains, Option.isSome_iff_exists, hlookup, heq, List.mem_map]

/-- Sorting names lists these names again where nothing else is found: whatever a dependency leads
to is found, so it is one of them. -/
theorem sortNames_perm {r : Registry} {names : List String} (hnames : names.Nodup)
    (hfound : ∀ name, r.contains name → name ∈ names) : (r.sortNames names).Perm names := by
  refine (List.perm_ext_iff_of_nodup (r.nodup_sortNames names) hnames).2 fun name ↦ ?_
  rw [mem_sortNames_iff]
  constructor
  · rintro ⟨given, hgiven, hlead⟩
    cases hlead with
    | refl => exact hgiven
    | tail _ hstep => exact hfound name hstep.2.1
  · exact fun h ↦ ⟨name, h, .refl⟩

/-! ## In sorted order

Sorting lists the names of the definitions, each of them once, and every list that is made from the
sorted names has one entry for each of them. -/

/-- Taking models by distinct names that are all there yields one model for each name. -/
theorem forall₂_take {models : List Model} {names : List String} (hnames : names.Nodup)
    (hthere : ∀ name ∈ names, ∃ m ∈ models, m.name = name) :
    List.Forall₂ (fun name m ↦ m ∈ models ∧ m.name = name) names (take models names) := by
  induction names generalizing models with
  | nil => exact .nil
  | cons name names ih =>
    obtain ⟨hnotMem, hnames⟩ := List.nodup_cons.1 hnames
    have hsome : (findExact models name).isSome := by
      simpa [findExact, List.find?_isSome] using hthere name (by simp)
    obtain ⟨m, hm⟩ := Option.isSome_iff_exists.1 hsome
    have hname : m.name = name := by simpa using List.find?_some hm
    -- what is taken here is not what a later name asks for
    have hrest : ∀ other ∈ names, ∃ n ∈ models.eraseP (·.name == name), n.name = other := by
      intro other hother
      obtain ⟨n, hn, rfl⟩ := hthere other (List.mem_cons_of_mem _ hother)
      have hne : n.name ≠ name := fun heq ↦ hnotMem (heq ▸ hother)
      exact ⟨n, (List.mem_eraseP_of_neg (by simpa using hne)).2 hn, rfl⟩
    rw [take, hm]
    refine .cons ⟨mem_of_findExact hm, hname⟩ ?_
    exact (ih hnames hrest).imp fun _ _ h ↦ ⟨List.mem_of_mem_eraseP h.1, h.2⟩

/-- Sorting the names of definitions lists each of them once, and a model is taken for each. -/
theorem forall₂_take_sortNames {ds : List ModelDefinition} {r : Registry}
    (hnames : (ds.map (·.name)).Nodup) (h : ofDefinitions ds = .ok r) :
    List.Forall₂ (fun name m ↦ m ∈ r.models ∧ m.name = name) (r.sortNames (ds.map (·.name)))
      (take r.models (r.sortNames (ds.map (·.name)))) := by
  have hfound := @contains_iff_of_ofDefinitions ds r hnames h
  refine forall₂_take (r.nodup_sortNames (ds.map (·.name))) fun name hname ↦ ?_
  have hdeclared := (sortNames_perm hnames fun _ ↦ hfound.1).mem_iff.1 hname
  obtain ⟨m, hm⟩ := Option.isSome_iff_exists.1 (hfound.2 hdeclared)
  exact ⟨m, ((describes_of_ofDefinitions hnames h).2 name m).1 hm⟩

theorem map_name_take_sortNames {ds : List ModelDefinition} {r : Registry}
    (hnames : (ds.map (·.name)).Nodup) (h : ofDefinitions ds = .ok r) :
    (take r.models (r.sortNames (ds.map (·.name)))).map (·.name) =
      r.sortNames (ds.map (·.name)) := by
  rw [← map_eq_map_of_forall₂ (forall₂_take_sortNames hnames h) fun _ _ h ↦ h.2.symm, List.map_id']

/-- Nothing is lost by taking the models in sorted order: the same are found by their names. -/
theorem lookup_exact_take_sortNames {ds : List ModelDefinition} {r : Registry}
    (hnames : (ds.map (·.name)).Nodup) (h : ofDefinitions ds = .ok r) :
    (exact (take r.models (r.sortNames (ds.map (·.name))))).lookup = r.lookup := by
  obtain ⟨-, hlookup⟩ := describes_of_ofDefinitions hnames h
  have htake := forall₂_take_sortNames hnames h
  have htaken := r.nodup_sortNames (ds.map (·.name))
  rw [← map_name_take_sortNames hnames h] at htaken
  funext name
  refine Option.ext fun m ↦ ?_
  rw [hlookup, exact, findExact_eq_some_iff htaken]
  refine and_congr_left fun hname ↦ ⟨fun hm ↦ ?_, fun hm ↦ ?_⟩
  · obtain ⟨_, -, hthere, -⟩ := exists_left_of_forall₂ htake hm
    exact hthere
  · -- a model of this name has been taken, and there is no other
    have hfound : r.contains name := Option.isSome_iff_exists.2 ⟨m, (hlookup name m).2 ⟨hm, hname⟩⟩
    have hdeclared := (contains_iff_of_ofDefinitions hnames h).1 hfound
    have hsorted : name ∈ r.sortNames (ds.map (·.name)) :=
      mem_sortNames_iff.2 ⟨name, hdeclared, .refl⟩
    obtain ⟨n, hn, hthere⟩ := exists_right_of_forall₂ htake hsorted
    obtain rfl : n = m := Option.some.inj
      (((hlookup name n).2 hthere).symm.trans ((hlookup name m).2 ⟨hm, hname⟩))
    exact hn

theorem compile_eq_ok_iff {r : Registry} {name : String} {schema : Json} :
    r.compile name = .ok schema ↔
      ∃ m, r.lookup name = some m ∧ m.schema ⟨false⟩ r = .ok schema := by
  rw [compile]
  cases hlookup : r.lookup name with
  | none => simp
  | some m => cases hschema : m.schema ⟨false⟩ r <;> simp [hschema]

theorem forall₂_of_compileAll {r : Registry} {names : List String} {schemas : Fields Json}
    (hnames : names.Nodup) (h : r.compileAll names = .ok schemas) :
    List.Forall₂ (fun name entry ↦ entry.1 = name ∧ r.compile name = .ok entry.2)
      names schemas := by
  obtain ⟨compiled, hcompiled, hschemas⟩ := bind_eq_ok_iff.1 h
  have hall : List.Forall₂ (fun name entry ↦ entry.1 = name ∧ r.compile name = .ok entry.2)
      names compiled := by
    refine (mapM_eq_ok_iff.1 hcompiled).imp fun name entry hentry ↦ ?_
    obtain ⟨schema, hschema, heq⟩ := bind_eq_ok_iff.1 hentry
    rw [← pure_eq_ok_iff.1 heq]
    exact ⟨rfl, hschema⟩
  have hdistinct : Fields.Distinct compiled := by
    have heq : names.map id = Fields.keys compiled :=
      map_eq_map_of_forall₂ hall fun _ _ h ↦ h.1.symm
    rwa [Fields.Distinct, ← heq, List.map_id]
  rw [← pure_eq_ok_iff.1 hschemas, Fields.ofList_eq_self hdistinct]
  exact hall

end Registry

namespace Catalog

theorem resolve_eq_ok_iff {ds : List ModelDefinition} {c : Catalog} :
    resolve ds = .ok c ↔ validate ds = .ok () ∧ ∃ r, Registry.ofDefinitions ds = .ok r ∧
      ∃ schemas, r.compileAll (r.sortNames (ds.map (·.name))) = .ok schemas ∧
        ⟨Registry.take r.models (r.sortNames (ds.map (·.name))), schemas⟩ = c := by
  simp only [resolve, bind_eq_ok_iff, mapError_eq_ok_iff, pure_eq_ok_iff, Unique.exists_iff,
    PUnit.default_eq_unit]

/-- What a catalog guarantees about the definitions that it was resolved from. -/
structure Holds (ds : List ModelDefinition) (c : Catalog) : Prop where
  nodup_names : (c.models.map (·.name)).Nodup
  names_perm : (c.models.map (·.name)).Perm (ds.map (·.name))
  positions : ∀ name i, c.positions.get? name = some i ↔
    ∃ m, c.models[i]? = some m ∧ m.name = name
  get? : ∀ d ∈ ds, ∃ m, c.get? d.name = some m ∧ m.Describes (.ofNames ds) d
  nodup_schemas : c.schemas.keys.Nodup
  schemas_perm : c.schemas.keys.Perm (ds.map (·.name))
  schema_id : ∀ name schema, c.schemas.get? name = some schema →
    schema.get? "$id" = some (.string name)

/-- **Resolving.** -/
theorem holds_of_resolve {ds : List ModelDefinition} {c : Catalog} (h : resolve ds = .ok c) :
    c.Holds ds := by
  obtain ⟨hvalid, r, hr, schemas, hschemas, rfl⟩ := resolve_eq_ok_iff.1 h
  obtain ⟨hnodup, -⟩ := validate_eq_ok_iff.1 hvalid
  obtain ⟨hmodels, hlookup⟩ := Registry.describes_of_ofDefinitions hnodup hr
  -- the sorted names: what is taken and compiled goes by them
  have hsorted := r.nodup_sortNames (ds.map (·.name))
  have hperm := Registry.sortNames_perm hnodup fun name ↦
    (Registry.contains_iff_of_ofDefinitions hnodup hr).1
  have htake := Registry.forall₂_take_sortNames hnodup hr
  have hcompile := Registry.forall₂_of_compileAll hsorted hschemas
  have hnames := Registry.map_name_take_sortNames hnodup hr
  have hkeys : (r.sortNames (ds.map (·.name))).map id = schemas.keys :=
    map_eq_map_of_forall₂ hcompile fun _ _ h ↦ h.1.symm
  rw [List.map_id] at hkeys
  have hnodup_names := hnames.symm ▸ hsorted
  refine ⟨hnodup_names, hnames.symm ▸ hperm, fun _ _ ↦ get?_positions hnodup_names, ?_,
    hkeys ▸ hsorted, hkeys ▸ hperm, ?_⟩
  · -- what is taken by the name of `d` is described by a definition of that name, so by `d`
    intro d hd
    obtain ⟨m, hm, hfound, hname⟩ := exists_right_of_forall₂ htake
      (hperm.mem_iff.2 (List.mem_map.2 ⟨d, hd, rfl⟩))
    obtain ⟨d', hd', hdescribes⟩ := exists_left_of_forall₂ hmodels hfound
    obtain rfl : d' = d :=
      List.inj_on_of_nodup_map hnodup hd' hd (hdescribes.name_eq.symm.trans hname)
    exact ⟨m, (get?_eq_some_iff hnodup_names).2 ⟨hm, hname⟩, hdescribes⟩
  · intro name schema hget
    obtain ⟨other, -, hother, hcompiled⟩ :=
      exists_left_of_forall₂ hcompile (Fields.mem_of_get? hget)
    obtain ⟨m, hm, hschema⟩ := Registry.compile_eq_ok_iff.1 hcompiled
    obtain ⟨-, hname⟩ := (hlookup other m).1 hm
    obtain rfl : m.name = name := hname.trans hother.symm
    exact Model.get?_schema hschema

theorem Holds.exists_describes {ds : List ModelDefinition} {c : Catalog} (h : c.Holds ds)
    {m : Model} (hm : m ∈ c.models) : ∃ d ∈ ds, m.Describes (.ofNames ds) d := by
  obtain ⟨d, hd, hname⟩ := List.mem_map.1 (h.names_perm.mem_iff.1 (List.mem_map.2 ⟨m, hm, rfl⟩))
  obtain ⟨n, hn, hdescribes⟩ := h.get? d hd
  have hm' : c.get? d.name = some m := (get?_eq_some_iff h.nodup_names).2 ⟨hm, hname.symm⟩
  obtain rfl : n = m := Option.some.inj (hn.symm.trans hm')
  exact ⟨d, hd, hdescribes⟩

/-- The models of a catalog stand in the order that sorting gives their names, in the registry that
finds them by their exact names. -/
theorem exists_sortNames_of_resolve {ds : List ModelDefinition} {c : Catalog}
    (h : resolve ds = .ok c) : ∃ r : Registry, r.lookup = (Registry.exact c.models).lookup ∧
      c.models.map (·.name) = r.sortNames (ds.map (·.name)) := by
  obtain ⟨hvalid, r, hr, schemas, -, rfl⟩ := resolve_eq_ok_iff.1 h
  obtain ⟨hnodup, -⟩ := validate_eq_ok_iff.1 hvalid
  exact ⟨r, (Registry.lookup_exact_take_sortNames hnodup hr).symm,
    Registry.map_name_take_sortNames hnodup hr⟩

/-- Models and schemas are found in a catalog as they are found and compiled in the registry of its
definitions. -/
theorem answers_of_resolve {ds : List ModelDefinition} {c : Catalog} (h : resolve ds = .ok c) :
    ∃ r, Registry.ofDefinitions ds = .ok r ∧ c.get? = r.lookup ∧
      c.schemas.get? = fun name ↦ (r.compile name).toOption := by
  obtain ⟨hvalid, r, hr, schemas, hschemas, rfl⟩ := resolve_eq_ok_iff.1 h
  obtain ⟨hnodup, -⟩ := validate_eq_ok_iff.1 hvalid
  have hholds := holds_of_resolve h
  refine ⟨r, hr, ?_, ?_⟩
  · rw [← Registry.lookup_exact_take_sortNames hnodup hr]
    funext name
    refine Option.ext fun m ↦ ?_
    rw [get?_eq_some_iff hholds.nodup_names, Registry.exact,
      Registry.findExact_eq_some_iff hholds.nodup_names]
  · have hcompiled := Registry.forall₂_of_compileAll (r.nodup_sortNames _) hschemas
    funext name
    by_cases hname : name ∈ ds.map (·.name)
    · have hsorted : name ∈ r.sortNames (ds.map (·.name)) :=
        Registry.mem_sortNames_iff.2 ⟨name, hname, .refl⟩
      obtain ⟨entry, hentry, rfl, hschema⟩ := exists_right_of_forall₂ hcompiled hsorted
      rw [(Fields.get?_eq_some_iff_mem hholds.nodup_schemas).2 hentry, hschema]
      rfl
    · -- of a name that is not declared there is neither a schema nor a model
      have hkey : name ∉ schemas.keys := fun hmem ↦ hname (hholds.schemas_perm.mem_iff.1 hmem)
      have hfound : ¬r.contains name := fun hfound ↦
        hname ((Registry.contains_iff_of_ofDefinitions hnodup hr).1 hfound)
      rw [Registry.contains, Bool.not_eq_true, Option.isSome_eq_false_iff,
        Option.isNone_iff_eq_none] at hfound
      rw [Fields.get?_eq_none_iff.2 hkey, Registry.compile, hfound]
      rfl

/-! ## The schemas of the models -/

/-- Each model has been compiled, and its schema is kept under its name. -/
theorem exists_schema_of_mem {ds : List ModelDefinition} {c : Catalog} (h : resolve ds = .ok c)
    {m : Model} (hm : m ∈ c.models) : ∃ r schema,
      c.schemas.get? m.name = some schema ∧ m.schema ⟨false⟩ r = .ok schema := by
  have hholds := holds_of_resolve h
  obtain ⟨r, -, hget, hschemas⟩ := answers_of_resolve h
  have hkey : m.name ∈ c.schemas.keys :=
    hholds.schemas_perm.mem_iff.2 (hholds.names_perm.mem_iff.1 (List.mem_map_of_mem hm))
  obtain ⟨schema, hschema⟩ := Option.isSome_iff_exists.1 (Fields.contains_iff_mem_keys.2 hkey)
  have hcompile : r.compile m.name = .ok schema := by
    rw [hschemas] at hschema
    cases hcompile : r.compile m.name with
    | error e => simp [hcompile, Except.toOption] at hschema
    | ok compiled => simpa [hcompile, Except.toOption] using hschema
  -- the model that is compiled under the name is the one of the catalog
  obtain ⟨n, hlookup, hmodel⟩ := Registry.compile_eq_ok_iff.1 hcompile
  have hself : c.get? m.name = some m := (get?_eq_some_iff hholds.nodup_names).2 ⟨hm, rfl⟩
  rw [hget, hlookup] at hself
  obtain rfl := Option.some.inj hself
  exact ⟨r, schema, hschema, hmodel⟩

/-- **The schemas of a catalog.** Each model has the schema of its instances. No name of a property
is lost to another, since a mapping names no key twice and validation keeps the names of relations
apart from those of properties. -/
theorem compilesTo_of_resolve {ds : List ModelDefinition} {c : Catalog} (h : resolve ds = .ok c)
    (hproperties : ∀ d ∈ ds, d.properties.Distinct) (hrelations : ∀ d ∈ ds, d.relations.Distinct) :
    ∀ m ∈ c.models, ∃ d ∈ ds, m.Describes (.ofNames ds) d ∧
      ∃ schema, c.schemas.get? m.name = some schema ∧ m.CompilesTo ⟨false⟩ schema := by
  intro m hm
  obtain ⟨hvalid, -⟩ := resolve_eq_ok_iff.1 h
  obtain ⟨d, hd, hdescribes⟩ := (holds_of_resolve h).exists_describes hm
  obtain ⟨r, schema, hschema, hmodel⟩ := exists_schema_of_mem h hm
  have hnodup := hdescribes.nodup_keys ((validate_eq_ok_iff.1 hvalid).2 d hd) (hproperties d hd)
    (hrelations d hd)
  exact ⟨d, hd, hdescribes, schema, hschema, Model.compilesTo_of_schema hnodup hmodel⟩

/-- Tasks that must have a title, and the projects that they belong to. -/
def tasksInProjects : List ModelDefinition :=
  let project : RelationDefinition := ⟨"belongs-to", some (.single "Task.projectId"),
    some (.single "Project.id"), none, false, none, none, none, none, []⟩
  [⟨"Task", none, none, true, [("title", .object [("type", .string "string"),
      ("required", .bool true)]), ("projectId", .string "integer")], [("project", project)], []⟩,
    ⟨"Project", none, none, false, [("name", .string "string")], [], []⟩]

theorem compilesTo_of_resolve_tasksInProjects :
    (∀ d ∈ tasksInProjects, d.properties.Distinct) ∧
      (∀ d ∈ tasksInProjects, d.relations.Distinct) ∧
      ∃ c, resolve tasksInProjects = .ok c ∧ c.models.map (·.name) = ["Task", "Project"] ∧
        ∀ m ∈ c.models, ∃ d ∈ tasksInProjects, m.Describes (.ofNames tasksInProjects) d ∧
          ∃ schema, c.schemas.get? m.name = some schema ∧ m.CompilesTo ⟨false⟩ schema := by
  have hproperties : ∀ d ∈ tasksInProjects, d.properties.Distinct := by
    simp [tasksInProjects]
  have hrelations : ∀ d ∈ tasksInProjects, d.relations.Distinct := by
    simp [tasksInProjects]
  have hnames : (resolve tasksInProjects).toOption.any fun c ↦
      c.models.map (·.name) = ["Task", "Project"] := by decide +kernel
  obtain ⟨c, hc, hnames⟩ := exists_of_any hnames
  exact ⟨hproperties, hrelations, c, hc, of_decide_eq_true hnames,
    compilesTo_of_resolve hc hproperties hrelations⟩

end Catalog

/-! ## Why resolving fails

Each stage bounds the errors that it reports. Two kinds of error lie outside all of these bounds. -/

/-- The error is one that resolving can report. -/
def CatalogError.Reported : CatalogError → Prop
  | .missingModel _ => False
  | .relation cause => cause.BeyondKeys
  | _ => True

open CatalogError RelationError

private theorem resolveModels_failsWith (registry : Registry) {ds : List ModelDefinition}
    (hvalid : ∀ d ∈ ds, d.Valid) : FailsWith BeyondKeys (resolveModels registry ds) := by
  refine FailsWith.mapM fun d hd ↦ ?_
  exact (registry.resolveRelations_failsWith d.name (hvalid d hd).complete).bind
    fun _ _ ↦ failsWith_pure _

private theorem Registry.compile_failsWith {r : Registry} {name : String} (h : r.contains name) :
    FailsWith Reported (r.compile name) := by
  obtain ⟨m, hm⟩ := Option.isSome_iff_exists.1 h
  rw [compile]
  simp only [hm]
  split <;> simp [Reported]

private theorem Registry.compileAll_failsWith {r : Registry} {names : List String}
    (h : ∀ name ∈ names, r.contains name) : FailsWith Reported (r.compileAll names) := by
  refine FailsWith.bind (.mapM fun name hname ↦ ?_) fun _ _ ↦ failsWith_pure _
  exact (compile_failsWith (h name hname)).bind fun _ _ ↦ failsWith_pure _

/-- **Failing to resolve.** -/
theorem Catalog.resolve_failsWith (ds : List ModelDefinition) :
    FailsWith Reported (resolve ds) := by
  have hdefinition : ∀ e, OfDefinition e → Reported e := by
    intro e he
    cases e <;> trivial
  refine FailsWith.bind (fun e he ↦ hdefinition e (validate_failsWith ds e he)) fun _ hvalid ↦ ?_
  obtain ⟨hnodup, hvalid⟩ := validate_eq_ok_iff.1 hvalid
  refine FailsWith.bind ((FailsWith.bind (resolveModels_failsWith _ hvalid) fun _ _ ↦
    failsWith_pure _).mapError fun _ he ↦ he) fun r hr ↦ ?_
  have hr := mapError_eq_ok_iff.1 hr
  -- sorting lists the declared names only, and the registry finds all of these
  refine FailsWith.bind (Registry.compileAll_failsWith fun name hname ↦ ?_) fun _ _ ↦
    failsWith_pure _
  have hfound := @Registry.contains_iff_of_ofDefinitions ds r hnodup hr
  exact hfound.2 ((Registry.sortNames_perm hnodup fun _ ↦ hfound.1).mem_iff.1 hname)

/-- **Resolving definitions.** A catalog that resolves holds what the definitions describe, and
resolving never fails for want of a model or of the key of a relation. -/
theorem Catalog.resolve_spec (ds : List ModelDefinition) :
    (∀ c, resolve ds = .ok c → c.Holds ds) ∧
      ∀ e, resolve ds = .error e → (∀ name, e ≠ .missingModel name) ∧
        ∀ cause, e = .relation cause →
          cause.root ≠ .missingEndpoint .source ∧ cause.root ≠ .missingEndpoint .target := by
  refine ⟨fun c h ↦ holds_of_resolve h, fun e he ↦ ?_⟩
  have hreported := resolve_failsWith ds e he
  constructor
  · rintro name rfl
    exact hreported
  · rintro cause rfl
    exact hreported

/-- Dogs and the persons who own them, each related to the other. -/
def dogsAndOwners : List ModelDefinition :=
  let owner : RelationDefinition := ⟨"belongs-to", some (.single "Dog.ownerId"),
    some (.single "Person.id"), none, false, none, none, none, none, []⟩
  let dogs : RelationDefinition := ⟨"has-many", some (.single "Person.id"),
    some (.single "Dog.ownerId"), none, false, none, none, none, none, []⟩
  [⟨"Dog", none, none, false, [("ownerId", .string "integer")], [("owner", owner)], []⟩,
    ⟨"Person", none, none, true, [("name", .string "string")], [("dogs", dogs)], []⟩]

theorem Catalog.resolve_spec_dogsAndOwners :
    ∃ c, resolve dogsAndOwners = .ok c ∧ c.Holds dogsAndOwners := by
  have hok : (resolve dogsAndOwners).toBool = true := by decide +kernel
  cases h : resolve dogsAndOwners with
  | error e => simp [h, Except.toBool] at hok
  | ok c => exact ⟨c, rfl, (resolve_spec dogsAndOwners).1 c h⟩

end ModelCatalog
