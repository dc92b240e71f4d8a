import ModelCatalog.Proofs.Model.Catalog
import ModelCatalog.Proofs.Relation.Names

/-!
# The order of declaration does not matter

Definitions in another order resolve to a catalog that gives the same answers by name, or fail to
resolve as they did before. The two catalogs may list their models in different orders.

## What resolving asks of a registry

Relations and schemas are resolved against registries, and of a registry they use no more than what
it finds. So it is enough that the definitions yield registries that find the same models. For the
one without relations this is so because the names are distinct, and for the one with relations
because each model has been resolved against the former.
-/

namespace ModelCatalog

open Outcome

/-! ## What depends on look-up only -/

namespace Registry

variable {r r' : Registry}

private theorem resolveRelations_congr (h : r.lookup = r'.lookup) :
    r.resolveRelations = r'.resolveRelations := by
  have hagree : ∀ name, r.AgreeOn r' name := fun name ↦ .of_lookup_eq (congrFun h name)
  have hrelation : r.resolveRelation = r'.resolveRelation := by
    funext d
    exact resolveRelation_congr (fun name _ ↦ hagree name) fun name _ ↦ hagree name
  funext model ds
  rw [resolveRelations, resolveRelations, hrelation]

private theorem compile_congr (h : r.lookup = r'.lookup) : r.compile = r'.compile := by
  have hproperty : Model.addRelationProperty ⟨false⟩ r = Model.addRelationProperty ⟨false⟩ r' := by
    funext properties entry
    simp only [Model.addRelationProperty, Relation.propertySchema, Relation.idReference, h]
  funext name
  simp only [compile, Model.schema, hproperty, h]

/-! ## Registries of reordered definitions -/

theorem lookup_exact_perm {models models' : List Model} (h : models.Perm models')
    (hnames : (models.map (·.name)).Nodup) :
    (exact (lastByName models)).lookup = (exact (lastByName models')).lookup := by
  have hnames' : (models'.map (·.name)).Nodup := (h.map _).nodup_iff.1 hnames
  rw [lastByName_eq_self hnames, lastByName_eq_self hnames']
  funext name
  refine Option.ext fun m ↦ ?_
  rw [exact, exact, findExact_eq_some_iff hnames, findExact_eq_some_iff hnames', h.mem_iff]

variable {ds ds' : List ModelDefinition}

private theorem lookup_ofNames_perm (h : ds.Perm ds') (hnames : (ds.map (·.name)).Nodup) :
    (ofNames ds).lookup = (ofNames ds').lookup := by
  refine lookup_exact_perm (h.map _) ?_
  simpa [List.map_map, Function.comp_def, Model.ofDefinition] using hnames

theorem ofDefinitions_perm (h : ds.Perm ds') (hnames : (ds.map (·.name)).Nodup)
    (hr : ofDefinitions ds = .ok r) :
    ∃ r', ofDefinitions ds' = .ok r' ∧ r.lookup = r'.lookup := by
  obtain ⟨models, hmodels, hr⟩ := bind_eq_ok_iff.1 hr
  obtain rfl := pure_eq_ok_iff.1 hr
  obtain ⟨models', hmodels', hperm⟩ := exists_perm_of_mapM h hmodels
  have heq : ds.map (·.name) = models.map (·.name) :=
    map_eq_map_of_forall₂ (describes_of_resolveModels hmodels) fun _ _ hdm ↦ hdm.name_eq.symm
  refine ⟨exact (lastByName models'), ?_, lookup_exact_perm hperm (heq ▸ hnames)⟩
  rw [resolveRelations_congr (lookup_ofNames_perm h hnames)] at hmodels'
  exact bind_eq_ok_iff.2 ⟨models', hmodels', rfl⟩

end Registry

/-! ## Catalogs of reordered definitions

The catalogs are compared by their answers, since their lists of models may be in different
orders. -/

namespace Catalog

variable {ds ds' : List ModelDefinition} {c c' : Catalog}

/-- Two catalogs give the same answers by name, those of their registries included. -/
structure AgreesWith (c c' : Catalog) : Prop where
  get? : c.get? = c'.get?
  lookup : c.registry.lookup = c'.registry.lookup
  get?_schemas : c.schemas.get? = c'.schemas.get?
  schema? : c.schema? = c'.schema?

private theorem agreesWith_of_answers (hget : c.get? = c'.get?)
    (hschemas : c.schemas.get? = c'.schemas.get?) : c.AgreesWith c' := by
  have hlookup : c.registry.lookup = c'.registry.lookup := congrArg Registry.findSuffixed hget
  refine ⟨hget, hlookup, hschemas, ?_⟩
  funext name
  rw [schema?, schema?, hlookup, hschemas]

private theorem exists_resolve_perm (h : ds.Perm ds') (hc : resolve ds = .ok c) :
    ∃ c', resolve ds' = .ok c' := by
  obtain ⟨hvalid, r, hr, schemas, hschemas, -⟩ := resolve_eq_ok_iff.1 hc
  obtain ⟨hnodup, hall⟩ := validate_eq_ok_iff.1 hvalid
  have hnodup' : (ds'.map (·.name)).Nodup := (h.map _).nodup_iff.1 hnodup
  have hvalid' : validate ds' = .ok () :=
    validate_eq_ok_iff.2 ⟨hnodup', fun d hd ↦ hall d (h.mem_iff.2 hd)⟩
  obtain ⟨r', hr', hlookup⟩ := Registry.ofDefinitions_perm h hnodup hr
  -- both sort the same names, so each schema has been compiled already
  have hsorted := Registry.sortNames_perm hnodup fun _ ↦
    (Registry.contains_iff_of_ofDefinitions hnodup hr).1
  have hsorted' := Registry.sortNames_perm hnodup' fun _ ↦
    (Registry.contains_iff_of_ofDefinitions hnodup' hr').1
  have hperm := hsorted.trans ((h.map _).trans hsorted'.symm)
  obtain ⟨compiled, hcompiled, -⟩ := bind_eq_ok_iff.1 hschemas
  obtain ⟨compiled', hcompiled', -⟩ := exists_perm_of_mapM hperm hcompiled
  rw [Registry.compile_congr hlookup] at hcompiled'
  exact ⟨_, resolve_eq_ok_iff.2 ⟨hvalid', r', hr', _, bind_eq_ok_iff.2 ⟨compiled', hcompiled', rfl⟩,
    rfl⟩⟩

/-- **The order of declaration.** Reordering definitions changes neither whether they resolve nor
what is then found by any name. -/
theorem resolve_perm (h : ds.Perm ds') :
    ((∃ c, resolve ds = .ok c) ↔ ∃ c, resolve ds' = .ok c) ∧
      ∀ c c', resolve ds = .ok c → resolve ds' = .ok c' → c.AgreesWith c' := by
  refine ⟨⟨fun ⟨c, hc⟩ ↦ exists_resolve_perm h hc, fun ⟨c, hc⟩ ↦ exists_resolve_perm h.symm hc⟩, ?_⟩
  intro c c' hc hc'
  obtain ⟨r, hr, hget, hschemas⟩ := answers_of_resolve hc
  obtain ⟨r', hr', hget', hschemas'⟩ := answers_of_resolve hc'
  obtain ⟨hnodup, -⟩ := validate_eq_ok_iff.1 (resolve_eq_ok_iff.1 hc).1
  obtain ⟨r'', hr'', hlookup⟩ := Registry.ofDefinitions_perm h hnodup hr
  obtain rfl : r'' = r' := Except.ok.inj (hr''.symm.trans hr')
  refine agreesWith_of_answers ?_ ?_
  · rw [hget, hget', hlookup]
  · rw [hschemas, hschemas', Registry.compile_congr hlookup]

/-- Each of the two models has a relation to the other, so in either order one leads forward. -/
theorem resolve_perm_dogsAndOwners : ∃ c c', resolve dogsAndOwners = .ok c ∧
    resolve dogsAndOwners.reverse = .ok c' ∧ c.AgreesWith c' := by
  obtain ⟨hsucceed, hagree⟩ := resolve_perm (List.reverse_perm dogsAndOwners).symm
  have hok : (resolve dogsAndOwners).toBool = true := by decide +kernel
  cases hc : resolve dogsAndOwners with
  | error e => simp [hc, Except.toBool] at hok
  | ok c =>
    obtain ⟨c', hc'⟩ := hsucceed.1 ⟨c, hc⟩
    exact ⟨c, c', rfl, hc', hagree c c' hc hc'⟩

end Catalog

end ModelCatalog
