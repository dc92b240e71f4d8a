import ModelCatalog.Proofs.Model.Catalog
import ModelCatalog.Proofs.Relation.Names

/-!
# Short names

The registry of a catalog finds a model `UserModel` also by the short name `User`, unless a model
bears that name. The registries that relations are resolved against go by exact names. They find the
same models by all other names, so a relation is resolved alike against both unless its definition
writes a short name.

## Where a short name is written

Where one end of a relation is called by a short name, the exact registry refuses the relation,
whatever the other one makes of it. Where a key of its join table is, the exact registry does not
refuse it but takes the table for one without a model.
-/

namespace ModelCatalog

/-- The name is none of the given ones and does not end in `Model`, but is one of them with `Model`
behind it. -/
def IsShortName (names : List String) (name : String) : Prop :=
  name ∉ names ∧ Text.dropEnding? "Model" name = none ∧ name ++ "Model" ∈ names

instance (names : List String) (name : String) : Decidable (IsShortName names name) :=
  inferInstanceAs (Decidable (_ ∧ _ ∧ _))

/-- No short name has a point, since the names that it is short for are identifiers. -/
theorem IsShortName.not_dot {ds : List ModelDefinition} (hvalid : ∀ d ∈ ds, d.Valid) {name : String}
    (h : IsShortName (ds.map (·.name)) name) : '.' ∉ name.toList := by
  obtain ⟨-, -, hmem⟩ := h
  obtain ⟨d, hd, heq⟩ := List.mem_map.1 hmem
  intro hdot
  have hdot' : '.' ∈ d.name.toList := by
    rw [heq, String.toList_append]
    exact List.mem_append_left _ hdot
  exact dot_notMem_of_isIdentifier (hvalid d hd).identifier hdot'

namespace Catalog

/-! ## Look-up by exact names

The names that only the catalog's registry finds are the short names, so the two registries agree on
any other name. -/

section

variable {ds : List ModelDefinition} {c : Catalog} {name : String}

theorem Holds.isSome_get?_iff (h : c.Holds ds) :
    (c.get? name).isSome ↔ name ∈ ds.map (·.name) := by
  rw [← h.names_perm.mem_iff, List.mem_map, Option.isSome_iff_exists]
  exact exists_congr fun m ↦ get?_eq_some_iff h.nodup_names

theorem Holds.lookup_exact (h : c.Holds ds) : (Registry.exact c.models).lookup = c.get? := by
  funext name
  refine Option.ext fun m ↦ ?_
  rw [get?_eq_some_iff h.nodup_names, Registry.exact, Registry.findExact_eq_some_iff h.nodup_names]

theorem Holds.lookup_registry_iff (h : c.Holds ds) :
    c.registry.lookup name = (Registry.exact c.models).lookup name ↔
      ¬IsShortName (ds.map (·.name)) name := by
  have hfound := @Holds.isSome_get?_iff ds c name h
  have hregistry : c.registry.lookup name = Registry.findSuffixed c.get? name := rfl
  rw [hregistry, h.lookup_exact, Registry.findSuffixed]
  cases hget : c.get? name with
  | some m =>
    rw [hget, Option.isSome_some] at hfound
    exact iff_of_true rfl fun hshort ↦ hshort.1 (hfound.1 rfl)
  | none =>
    rw [hget, Option.isSome_none, Bool.false_eq_true, false_iff] at hfound
    dsimp only
    cases hending : Text.dropEnding? "Model" name with
    | some stem => exact iff_of_true rfl fun hshort ↦ by simpa [hending] using hshort.2.1
    | none =>
      rw [Option.isSome_none, if_neg Bool.false_ne_true, ← not_iff_not, not_not, ← ne_eq,
        ← Option.isSome_iff_ne_none, h.isSome_get?_iff]
      exact ⟨fun hmem ↦ ⟨hfound, hending, hmem⟩, fun hshort ↦ hshort.2.2⟩

/-- Resolving relations reads the same of the models of a catalog as of their definitions. -/
theorem Holds.agreeOn_ofNames (h : c.Holds ds) (hnames : (ds.map (·.name)).Nodup) (name : String) :
    (Registry.exact c.models).AgreeOn (.ofNames ds) name := by
  have hbare : ((ds.map Model.ofDefinition).map (·.name)).Nodup := by
    simpa [List.map_map, Function.comp_def, Model.ofDefinition] using hnames
  rw [Registry.AgreeOn, h.lookup_exact, Registry.ofNames, Registry.lastByName_eq_self hbare]
  by_cases hname : name ∈ ds.map (·.name)
  · obtain ⟨d, hd, rfl⟩ := List.mem_map.1 hname
    obtain ⟨m, hm, hdescribes⟩ := h.get? d hd
    have hfound : (Registry.exact (ds.map Model.ofDefinition)).lookup d.name =
        some (Model.ofDefinition d) :=
      (Registry.findExact_eq_some_iff hbare).2 ⟨List.mem_map.2 ⟨d, hd, rfl⟩, rfl⟩
    rw [hm, hfound, Option.map_some, Option.map_some, hdescribes.eq_ofDefinition]
    rfl
  · have hnone : c.get? name = none := by
      rwa [← h.isSome_get?_iff, Option.isSome_iff_ne_none, not_not] at hname
    have hnone' : (Registry.exact (ds.map Model.ofDefinition)).lookup name = none := by
      refine Option.eq_none_iff_forall_ne_some.2 fun m hm ↦ hname ?_
      obtain ⟨hmem, rfl⟩ := (Registry.findExact_eq_some_iff hbare).1 hm
      obtain ⟨d, hd, rfl⟩ := List.mem_map.1 hmem
      exact List.mem_map.2 ⟨d, hd, rfl⟩
    rw [hnone, hnone']

end

/-! ## Resolving alike -/

/-- How far the registry of a catalog resolves relations as the registry of the same models by their
exact names does. -/
structure ResolvesLikeExact (ds : List ModelDefinition) (c : Catalog) : Prop where
  /-- The models of the catalog stand for those of the definitions, which have no relations yet. -/
  before : (Registry.ofNames ds).resolveRelation = (Registry.exact c.models).resolveRelation
  lookup : ∀ name, c.registry.lookup name = (Registry.exact c.models).lookup name ↔
    ¬IsShortName (ds.map (·.name)) name
  alike : ∀ d : RelationDefinition,
    (∀ name ∈ d.endNames ++ d.throughNames, ¬IsShortName (ds.map (·.name)) name) →
      c.registry.resolveRelation d = (Registry.exact c.models).resolveRelation d
  /-- What is resolved by exact names is so in the catalog, unless short names lead to its join
  table. -/
  resolved : ∀ (d : RelationDefinition) (r : Relation),
    (Registry.exact c.models).resolveRelation d = .ok r →
      (∀ name ∈ d.throughNames, ¬IsShortName (ds.map (·.name)) name) →
        c.registry.resolveRelation d = .ok r
  /-- Every short name makes a difference to some relation. -/
  always_iff : c.registry.resolveRelation = (Registry.exact c.models).resolveRelation ↔
    ∀ name, ¬IsShortName (ds.map (·.name)) name

/-- **Short names.** The registry of a catalog and the exact one resolve every relation alike whose
definition writes no short name, and all relations if there is no short name. -/
theorem resolvesLikeExact_of_resolve {ds : List ModelDefinition} {c : Catalog}
    (h : resolve ds = .ok c) : c.ResolvesLikeExact ds := by
  have hholds := holds_of_resolve h
  obtain ⟨hnodup, hvalid⟩ := validate_eq_ok_iff.1 (resolve_eq_ok_iff.1 h).1
  have hlookup := fun name ↦ @Holds.lookup_registry_iff ds c name hholds
  have halike : ∀ d : RelationDefinition,
      (∀ name ∈ d.endNames, ¬IsShortName (ds.map (·.name)) name) →
      (∀ name ∈ d.throughNames, ¬IsShortName (ds.map (·.name)) name) →
        c.registry.resolveRelation d = (Registry.exact c.models).resolveRelation d := by
    intro d hends hthrough
    exact Registry.resolveRelation_congr
      (fun name hname ↦ .of_lookup_eq ((hlookup name).2 (hends name hname)))
      fun name hname ↦ .of_lookup_eq ((hlookup name).2 (hthrough name hname))
  refine ⟨?_, hlookup, ?_, ?_, ?_, ?_⟩
  · funext d
    have hagree := hholds.agreeOn_ofNames hnodup
    exact (Registry.resolveRelation_congr (fun name _ ↦ hagree name) fun name _ ↦ hagree name).symm
  · exact fun d hnames ↦ halike d (fun name hname ↦ hnames name (List.mem_append_left _ hname))
      fun name hname ↦ hnames name (List.mem_append_right _ hname)
  · -- the names at the ends are found exactly, so none of them is short
    intro d r hr hthrough
    refine (halike d (fun name hname hshort ↦ hshort.1 ?_) hthrough).trans hr
    have hfound := Registry.contains_of_resolveRelation hr hname
    rwa [Registry.contains, hholds.lookup_exact, hholds.isSome_get?_iff] at hfound
  · intro heq name hshort
    have hdot := hshort.not_dot hvalid
    have hcontains : c.registry.contains name ↔ (Registry.exact c.models).contains name := by
      rw [← Registry.resolveRelation_relationTo hdot, ← Registry.resolveRelation_relationTo hdot,
        heq]
    have hexact : (Registry.exact c.models).lookup name = none := by
      have hnotMem := hshort.1
      rwa [← hholds.isSome_get?_iff, ← hholds.lookup_exact, Option.isSome_iff_ne_none,
        not_not] at hnotMem
    rw [Registry.contains, Registry.contains, hexact, Option.isSome_none, Bool.false_eq_true,
      iff_false, Option.isSome_iff_ne_none, not_not] at hcontains
    exact (hlookup name).1 (hcontains.trans hexact.symm) hshort
  · exact fun hnone ↦ funext fun d ↦ halike d (fun name _ ↦ hnone name) fun name _ ↦ hnone name

/-- Posts and the model of their authors, whose name ends in `Model`. -/
def postsAndUserModel : List ModelDefinition :=
  let author : RelationDefinition := ⟨"belongs-to", some (.single "Post.authorId"),
    some (.single "UserModel.id"), none, false, none, none, none, none, []⟩
  [⟨"Post", none, none, false, [("authorId", .string "integer")], [("author", author)], []⟩,
    ⟨"UserModel", none, none, false, [("name", .string "string")], [], []⟩]

theorem resolvesLikeExact_postsAndUserModel :
    ∃ c, resolve postsAndUserModel = .ok c ∧ c.ResolvesLikeExact postsAndUserModel := by
  have hok : (resolve postsAndUserModel).toBool = true := by decide +kernel
  cases h : resolve postsAndUserModel with
  | error e => simp [h, Except.toBool] at hok
  | ok c => exact ⟨c, rfl, resolvesLikeExact_of_resolve h⟩

/-- The author of a post, called by the short name of the model. -/
def authorByShortName : RelationDefinition :=
  ⟨"belongs-to", some (.single "Post.authorId"), some (.single "User.id"), none, false, none, none,
    none, none, []⟩

/-- The catalog finds the author by the short name, and the same models by their exact names do
not. -/
theorem not_alike_authorByShortName : ∃ c, resolve postsAndUserModel = .ok c ∧
    c.registry.resolveRelation authorByShortName ≠
      (Registry.exact c.models).resolveRelation authorByShortName := by
  have hdiffer : (resolve postsAndUserModel).toOption.any fun c ↦
      (c.registry.resolveRelation authorByShortName).toBool &&
        !((Registry.exact c.models).resolveRelation authorByShortName).toBool := by decide +kernel
  obtain ⟨c, hc, hdiffer⟩ := Outcome.exists_of_any hdiffer
  refine ⟨c, hc, fun heq ↦ ?_⟩
  simp [heq] at hdiffer

end Catalog

end ModelCatalog
