import ModelCatalog.Proofs.Outcome
import ModelCatalog.Proofs.Text.Cut
import ModelCatalog.Relation.Resolution

/-!
# Resolved relations are consistent

A resolved relation has a join table exactly when its kind calls for one. If it was described by two
keys, it joins on these keys, each of them on one model that the registry finds, and the join table
fits them: a generated one has a column for each property of either key, and one given by keys on a
model is the table of that model.

## References

Between a definition and the resolved relation stand references: a key is read into one and written
back from it. `Reference.Reads` is what holds of a reference after any number of tokens, and says
that the tokens can be written again as they were.
-/

namespace ModelCatalog

open Outcome

/-! ## References to columns and properties -/

theorem cutReference_eq_some_iff {token model property : String} :
    cutReference token = some (model, property) ↔
      token = model ++ "." ++ property ∧ '.' ∉ model.toList :=
  Text.cut_eq_some_iff

theorem isSome_cutReference_iff {token : String} :
    (cutReference token).isSome ↔ ∃ model property, token = model ++ "." ++ property := by
  constructor
  · intro h
    obtain ⟨⟨model, property⟩, hcut⟩ := Option.isSome_iff_exists.1 h
    exact ⟨model, property, (cutReference_eq_some_iff.1 hcut).1⟩
  · rintro ⟨model, property, rfl⟩
    exact Text.isSome_cut_iff.2 (by simp)

namespace Key

/-- Part of the key names the model. -/
def Names (key : Key) (model : String) : Prop :=
  ∃ token ∈ key.tokens, ∃ property, cutReference token = some (model, property)

/-- The key consists of properties of the model, one at least. -/
structure On (key : Key) (model : String) : Prop where
  nonempty : key.tokens ≠ []
  cut : ∀ token ∈ key.tokens, ∃ property, cutReference token = some (model, property) ∧
    property ≠ ""

/-- The columns of the table correspond to the parts of the key, and are named after them. -/
def ColumnsIn (key columns : Key) (table : String) : Prop :=
  List.Forall₂ (fun token column ↦ ∃ model property, cutReference token = some (model, property) ∧
    cutReference column = some (table, joinColumnName model property)) key.tokens columns.tokens

end Key

namespace Reference

variable {registry : Registry} {allowUnknown : Bool}

theorem cutToken?_eq_some_iff {token model property : String} :
    cutToken? token = some (model, property) ↔
      token = model ++ "." ++ property ∧ '.' ∉ model.toList ∧ model ≠ "" ∧ property ≠ "" := by
  have hcut : cutToken? token = some (model, property) ↔
      cutReference token = some (model, property) ∧ model ≠ "" ∧ property ≠ "" := by
    rw [cutToken?]
    cases cutReference token with
    | none => simp
    | some parts =>
      obtain ⟨m, p⟩ := parts
      by_cases hempty : m = "" ∨ p = ""
      · have hnone : ¬(m = model ∧ p = property ∧ model ≠ "" ∧ property ≠ "") := by
          rintro ⟨rfl, rfl, hm, hp⟩
          exact hempty.elim hm hp
        simpa [hempty, and_assoc] using hnone
      · obtain ⟨hm, hp⟩ := not_or.1 hempty
        simp only [hempty, Bool.or_eq_true, String.isEmpty_iff, if_false, Option.some.injEq,
          Prod.mk.injEq]
        constructor
        · rintro ⟨rfl, rfl⟩
          exact ⟨⟨rfl, rfl⟩, hm, hp⟩
        · exact And.left
  rw [hcut, cutReference_eq_some_iff, and_assoc]

theorem cutReference_of_cutToken? {token model property : String}
    (h : cutToken? token = some (model, property)) :
    cutReference token = some (model, property) ∧ property ≠ "" := by
  obtain ⟨heq, hdot, -, hproperty⟩ := cutToken?_eq_some_iff.1 h
  exact ⟨cutReference_eq_some_iff.2 ⟨heq, hdot⟩, hproperty⟩

/-! ## Reading a key

A reference is extended token by token, and `Reads` is the invariant: after any number of tokens it
has the model that all of them name and their properties in order. -/

/-- The reference has been read from the tokens. -/
structure Reads (registry : Registry) (allowUnknown : Bool) (tokens : List String)
    (r : Reference) : Prop where
  cut : List.Forall₂ (fun token property ↦ cutToken? token = some (r.model, property))
    tokens r.properties
  known : r.known = registry.contains r.model
  allowed : r.known ∨ allowUnknown

private theorem reads_of_addToken_none {token : String} {parsed : Option Reference}
    (h : addToken registry allowUnknown none token = .ok parsed) :
    ∃ r, parsed = some r ∧ Reads registry allowUnknown [token] r := by
  rw [addToken] at h
  split at h
  · cases h
  · rename_i model property hcut
    dsimp only at h
    split at h
    · rename_i hallowed
      obtain rfl := Except.ok.inj h
      exact ⟨_, rfl, .cons hcut .nil, rfl, by simpa using hallowed⟩
    · cases h

/-- Reading one more token keeps to the model. -/
theorem Reads.addToken {tokens : List String} {r : Reference}
    (hr : Reads registry allowUnknown tokens r) {token : String} {parsed : Option Reference}
    (h : addToken registry allowUnknown (some r) token = .ok parsed) :
    ∃ r', parsed = some r' ∧ Reads registry allowUnknown (tokens ++ [token]) r' := by
  rw [Reference.addToken] at h
  split at h
  · cases h
  · rename_i model property hcut
    dsimp only at h
    split at h
    · rename_i hmodel
      subst hmodel
      obtain rfl := Except.ok.inj h
      exact ⟨_, rfl, List.rel_append hr.cut (.cons hcut .nil), hr.known, hr.allowed⟩
    · cases h

theorem Reads.foldlM {seen tokens : List String} {r : Reference}
    (hr : Reads registry allowUnknown seen r) {parsed : Option Reference}
    (h : tokens.foldlM (Reference.addToken registry allowUnknown) (some r) = .ok parsed) :
    ∃ r', parsed = some r' ∧ Reads registry allowUnknown (seen ++ tokens) r' := by
  induction tokens generalizing seen r with
  | nil =>
    obtain rfl := pure_eq_ok_iff.1 h
    exact ⟨r, rfl, by simpa using hr⟩
  | cons token tokens ih =>
    obtain ⟨next, hnext, h⟩ := bind_eq_ok_iff.1 h
    obtain ⟨r', rfl, hr'⟩ := hr.addToken hnext
    simpa using ih hr' h

/-- A reference read from a key is on one model, and has all the parts of the key. -/
theorem reads_of_ofKey {key : Key} {r : Reference} (h : ofKey registry allowUnknown key = .ok r) :
    key.tokens ≠ [] ∧ Reads registry allowUnknown key.tokens r := by
  obtain ⟨parsed, hparsed, h⟩ := bind_eq_ok_iff.1 h
  cases htokens : key.tokens with
  | nil =>
    rw [htokens] at hparsed
    obtain rfl := pure_eq_ok_iff.1 hparsed
    cases h
  | cons token tokens =>
    rw [htokens] at hparsed
    obtain ⟨first, hfirst, hrest⟩ := bind_eq_ok_iff.1 hparsed
    obtain ⟨r₀, rfl, hr₀⟩ := reads_of_addToken_none hfirst
    obtain ⟨r', rfl, hr'⟩ := hr₀.foldlM hrest
    obtain rfl := pure_eq_ok_iff.1 h
    exact ⟨by simp, hr'⟩

section

variable {key : Key} {r : Reference}

private theorem tokens_of_ofKey (h : ofKey registry allowUnknown key = .ok r) :
    r.tokens = key.tokens := by
  have hmap : key.tokens.map id = r.properties.map fun property ↦ r.model ++ "." ++ property :=
    map_eq_map_of_forall₂ (reads_of_ofKey h).2.cut fun token property hcut ↦
      (cutReference_eq_some_iff.1 (cutReference_of_cutToken? hcut).1).1
  rw [tokens, ← hmap, List.map_id]

theorem tokens_toKey_of_ofKey (h : ofKey registry allowUnknown key = .ok r) :
    r.toKey.tokens = key.tokens := by
  rw [toKey, Key.tokens_ofList, tokens_of_ofKey h]

theorem on_of_ofKey (h : ofKey registry allowUnknown key = .ok r) : key.On r.model := by
  obtain ⟨hne, hreads⟩ := reads_of_ofKey h
  refine ⟨hne, fun token htoken ↦ ?_⟩
  obtain ⟨property, -, hcut⟩ := exists_right_of_forall₂ hreads.cut htoken
  exact ⟨property, cutReference_of_cutToken? hcut⟩

theorem known_of_ofKey (h : ofKey registry allowUnknown key = .ok r) :
    r.known = registry.contains r.model :=
  (reads_of_ofKey h).2.known

/-- A key that may not name an unknown model is on one that is found. -/
theorem contains_of_ofKey (h : ofKey registry false key = .ok r) : registry.contains r.model := by
  have hreads := (reads_of_ofKey h).2
  simpa [hreads.known] using hreads.allowed

end

end Reference

namespace Key

variable {key : Key} {model : String}

theorem On.of_tokens_eq {key' : Key} (h : key.On model) (htokens : key'.tokens = key.tokens) :
    key'.On model :=
  ⟨htokens ▸ h.nonempty, htokens ▸ h.cut⟩

theorem On.not_dot (h : key.On model) : '.' ∉ model.toList := by
  obtain ⟨token, htoken⟩ := List.exists_mem_of_ne_nil _ h.nonempty
  obtain ⟨property, hcut, -⟩ := h.cut token htoken
  exact (cutReference_eq_some_iff.1 hcut).2

/-- A key on a model names no other. -/
theorem On.eq_of_names {name : String} (h : key.On model) (hname : key.Names name) :
    name = model := by
  obtain ⟨token, htoken, property, hcut⟩ := hname
  obtain ⟨property', hcut', -⟩ := h.cut token htoken
  exact congrArg Prod.fst (Option.some.inj (hcut.symm.trans hcut'))

end Key

/-! ## Join tables -/

section

variable {registry : Registry} {kind : RelationKind} {through : Option ThroughDefinition}
  {joined : Option Through}

private theorem isSome_of_map_some {x : Except RelationError Through}
    (h : some <$> x = .ok joined) :
    joined.isSome := by
  obtain ⟨t, -, rfl⟩ := map_eq_ok_iff.1 h
  rfl

private theorem isSome_of_throughBetween {source target : Reference} {inverse : Bool}
    (h : throughBetween registry kind through source target inverse = .ok joined) :
    joined.isSome = kind.isThrough := by
  unfold throughBetween at h
  cases hkind : kind.isThrough with
  | true =>
    rw [if_pos hkind] at h
    split at h
    · exact isSome_of_map_some h
    · exact isSome_of_map_some h
    · exact isSome_of_map_some h
    · cases h
  | false =>
    rw [hkind, if_neg Bool.false_ne_true] at h
    split at h <;> cases h <;> rfl

/-- Where a kind goes through a join table, it is generated unless the definition gives its keys. -/
theorem throughBetween_of_generated (hkind : kind.isThrough)
    (h : through = none ∨ ∃ flag, through = some (.generated flag)) (source target : Reference)
    (inverse : Bool) : throughBetween registry kind through source target inverse =
      some <$> source.throughTo target inverse := by
  obtain rfl | ⟨flag, rfl⟩ := h <;> exact if_pos hkind

theorem throughBetween_explicit {source target : Reference} {inverse : Bool}
    {throughSource throughTarget : Key} {given : Option String}
    (h : throughBetween registry kind
      (some (.explicit (some throughSource) (some throughTarget) given)) source target inverse =
        .ok joined) :
    ∃ t, joined = some t ∧ resolveThrough registry throughSource throughTarget given = .ok t := by
  unfold throughBetween at h
  split at h
  · obtain ⟨t, ht, rfl⟩ := map_eq_ok_iff.1 h
    exact ⟨t, rfl, ht⟩
  · cases h

private theorem isSome_of_throughOfJoin (h : throughOfJoin kind through = .ok joined) :
    joined.isSome = kind.isThrough := by
  unfold throughOfJoin at h
  cases hkind : kind.isThrough with
  | true =>
    rw [if_pos hkind] at h
    split at h
    · obtain ⟨table, -, h⟩ := bind_eq_ok_iff.1 h
      obtain rfl := pure_eq_ok_iff.1 h
      rfl
    · cases h
  | false =>
    rw [hkind, if_neg Bool.false_ne_true] at h
    split at h <;> cases h
    rfl

end

/-! ### Generated join tables -/

private theorem not_dot_joinTableName {source target : String} (hsource : '.' ∉ source.toList)
    (htarget : '.' ∉ target.toList) (inverse : Bool) :
    '.' ∉ (joinTableName source target inverse).toList := by
  cases inverse <;> simp [joinTableName, hsource, htarget]

namespace Reference

variable {registry : Registry} {allowUnknown : Bool} {key : Key} {source target : Reference}
  {inverse : Bool} {t : Through}

theorem throughTo_eq_ok (h : source.throughTo target inverse = .ok t) :
    t.table = joinTableName source.model target.model inverse ∧
    t.source = Key.ofList (joinColumns t.table source.model source.properties) ∧
    t.target = Key.ofList (joinColumns t.table target.model target.properties) ∧
    t.model = none := by
  obtain ⟨join, hjoin, h⟩ := bind_eq_ok_iff.1 h
  rw [GeneratedJoin.between] at hjoin
  split at hjoin
  · obtain rfl := Except.ok.inj hjoin
    obtain rfl := pure_eq_ok_iff.1 h
    exact ⟨rfl, rfl, rfl, rfl⟩
  · cases hjoin

/-- Columns that are generated for the properties of a key are those of its parts. -/
theorem columnsIn_of_ofKey {r : Reference} (h : ofKey registry allowUnknown key = .ok r)
    {table : String} (htable : '.' ∉ table.toList) :
    key.ColumnsIn (Key.ofList (joinColumns table r.model r.properties)) table := by
  rw [Key.ColumnsIn, Key.tokens_ofList, joinColumns, List.forall₂_map_right_iff]
  refine (reads_of_ofKey h).2.cut.imp fun token property hcut ↦ ?_
  exact ⟨r.model, property, (cutReference_of_cutToken? hcut).1,
    cutReference_eq_some_iff.2 ⟨rfl, htable⟩⟩

end Reference

/-! ### Join tables given by keys

Such keys are read like those of the relation, but may name a table without a model. -/

private theorem resolveThrough_of_names {registry : Registry} {source target : Key}
    {given : Option String} {t : Through} (h : resolveThrough registry source target given = .ok t)
    {name : String} (hname : source.Names name ∨ target.Names name) {m : Model}
    (hm : registry.lookup name = some m) :
    source.On name ∧ target.On name ∧ t.source.tokens = source.tokens ∧
      t.target.tokens = target.tokens ∧ t.table = m.tableName ∧ t.model = some m.name := by
  obtain ⟨s, hs, h⟩ := bind_eq_ok_iff.1 h
  obtain ⟨u, hu, h⟩ := bind_eq_ok_iff.1 h
  have hson := Reference.on_of_ofKey hs
  have huon := Reference.on_of_ofKey hu
  have hcontains : registry.contains name := by simp [Registry.contains, hm]
  have hknown : s.known || u.known := by
    rw [Reference.known_of_ofKey hs, Reference.known_of_ofKey hu, Bool.or_eq_true]
    exact hname.imp (fun h ↦ hson.eq_of_names h ▸ hcontains) fun h ↦ huon.eq_of_names h ▸ hcontains
  dsimp only at h
  split at h
  · cases h
  · -- one key is on a known model, so both are on the same
    rename_i hsame
    have hmodel : s.model = u.model := by simpa [hknown] using hsame
    obtain rfl : name = s.model :=
      hname.elim hson.eq_of_names fun h ↦ (huon.eq_of_names h).trans hmodel.symm
    rw [hm] at h
    obtain rfl := pure_eq_ok_iff.1 h
    exact ⟨hson, hmodel ▸ huon, Reference.tokens_toKey_of_ofKey hs,
      Reference.tokens_toKey_of_ofKey hu, rfl, rfl⟩

/-! ## Consistency -/

/-- How a resolved relation follows from the two keys of its definition. -/
structure Relation.FollowsKeys (registry : Registry) (d : RelationDefinition) (r : Relation) :
    Prop where
  source : ∃ key, d.source = some key ∧ r.join.source.tokens = key.tokens
  target : ∃ key, d.target = some key ∧ r.join.target.tokens = key.tokens
  source_on : ∃ model, registry.contains model ∧ r.join.source.On model
  target_on : registry.contains r.relatedModel ∧ r.join.target.On r.relatedModel
  /-- A generated join table has a column for each part of either key. -/
  generated : r.kind.isThrough → (d.through = none ∨ ∃ flag, d.through = some (.generated flag)) →
    ∃ t, r.join.through = some t ∧ r.join.source.ColumnsIn t.source t.table ∧
      r.join.target.ColumnsIn t.target t.table
  /-- A join table given by keys of which one names a known model is the table of that model. -/
  explicit : ∀ source target given, d.through = some (.explicit (some source) (some target) given) →
    ∀ name m, source.Names name ∨ target.Names name → registry.lookup name = some m →
      source.On name ∧ target.On name ∧ ∃ t, r.join.through = some t ∧
        t.source.tokens = source.tokens ∧ t.target.tokens = target.tokens ∧
        t.table = m.tableName ∧ t.model = some m.name

theorem requireEndpoint_eq_ok_iff {endpoint : Endpoint} {given : Option Key} {key : Key} :
    requireEndpoint endpoint given = .ok key ↔ given = some key := by
  cases given <;> simp [requireEndpoint]

private theorem isSome_of_relationOfJoin {registry : Registry} {kind : RelationKind}
    {join : JoinDefinition} {modify : Option Modifier} {rest : Fields Json} {r : Relation}
    (h : relationOfJoin registry kind join modify rest = .ok r) :
    r.kind = kind ∧ r.join.through.isSome = kind.isThrough := by
  obtain ⟨through, hthrough, h⟩ := bind_eq_ok_iff.1 h
  obtain ⟨related, -, h⟩ := bind_eq_ok_iff.1 h
  obtain rfl := pure_eq_ok_iff.1 h
  exact ⟨rfl, isSome_of_throughOfJoin hthrough⟩

section

variable {registry : Registry} {kind : RelationKind} {d : RelationDefinition} {r : Relation}

theorem relationOfKeys_eq_ok (h : relationOfKeys registry kind d = .ok r) :
    ∃ sourceKey targetKey source target through,
      d.source = some sourceKey ∧ d.target = some targetKey ∧
      Reference.ofKey registry false sourceKey = .ok source ∧
      Reference.ofKey registry false targetKey = .ok target ∧
      throughBetween registry kind d.through source target d.inverse = .ok through ∧
      r = ⟨kind, target.model, ⟨source.toKey, target.toKey, through⟩, d.modifier, d.rest⟩ := by
  obtain ⟨sourceKey, hsourceKey, h⟩ := bind_eq_ok_iff.1 h
  obtain ⟨targetKey, htargetKey, h⟩ := bind_eq_ok_iff.1 h
  obtain ⟨source, hsource, h⟩ := bind_eq_ok_iff.1 h
  obtain ⟨target, htarget, h⟩ := bind_eq_ok_iff.1 h
  obtain ⟨-, -, h⟩ := bind_eq_ok_iff.1 h
  obtain ⟨through, hthrough, h⟩ := bind_eq_ok_iff.1 h
  exact ⟨sourceKey, targetKey, source, target, through, requireEndpoint_eq_ok_iff.1 hsourceKey,
    requireEndpoint_eq_ok_iff.1 htargetKey, hsource, htarget, hthrough, (pure_eq_ok_iff.1 h).symm⟩

theorem isSome_of_relationOfKeys (h : relationOfKeys registry kind d = .ok r) :
    r.kind = kind ∧ r.join.through.isSome = kind.isThrough := by
  obtain ⟨_, _, _, _, through, -, -, -, -, hthrough, rfl⟩ := relationOfKeys_eq_ok h
  exact ⟨rfl, isSome_of_throughBetween hthrough⟩

theorem followsKeys_of_relationOfKeys (h : relationOfKeys registry kind d = .ok r) :
    r.FollowsKeys registry d := by
  obtain ⟨sourceKey, targetKey, source, target, through, hsourceKey, htargetKey, hsource, htarget,
    hthrough, rfl⟩ := relationOfKeys_eq_ok h
  have hsourceTokens := Reference.tokens_toKey_of_ofKey hsource
  have htargetTokens := Reference.tokens_toKey_of_ofKey htarget
  have hsourceOn := Reference.on_of_ofKey hsource
  have htargetOn := Reference.on_of_ofKey htarget
  refine ⟨⟨sourceKey, hsourceKey, hsourceTokens⟩, ⟨targetKey, htargetKey, htargetTokens⟩,
    ⟨source.model, Reference.contains_of_ofKey hsource, hsourceOn.of_tokens_eq hsourceTokens⟩,
    ⟨Reference.contains_of_ofKey htarget, htargetOn.of_tokens_eq htargetTokens⟩, ?_, ?_⟩
  · intro hkind hgenerated
    rw [throughBetween_of_generated hkind hgenerated] at hthrough
    obtain ⟨t, ht, rfl⟩ := map_eq_ok_iff.1 hthrough
    obtain ⟨htable, hcolumns, hcolumns', -⟩ := Reference.throughTo_eq_ok ht
    have hdot : '.' ∉ t.table.toList :=
      htable ▸ not_dot_joinTableName hsourceOn.not_dot htargetOn.not_dot d.inverse
    refine ⟨t, rfl, ?_, ?_⟩
    · rw [hcolumns, Key.ColumnsIn, hsourceTokens]
      exact Reference.columnsIn_of_ofKey hsource hdot
    · rw [hcolumns', Key.ColumnsIn, htargetTokens]
      exact Reference.columnsIn_of_ofKey htarget hdot
  · intro throughSource throughTarget given hexplicit name m hname hm
    rw [hexplicit] at hthrough
    obtain ⟨t, rfl, ht⟩ := throughBetween_explicit hthrough
    obtain ⟨hsourceName, htargetName, ht⟩ := resolveThrough_of_names ht hname hm
    exact ⟨hsourceName, htargetName, t, rfl, ht⟩

/-- No model stands for a generated join table. -/
theorem model_eq_none_of_relationOfKeys (h : relationOfKeys registry kind d = .ok r)
    (hkind : kind.isThrough)
    (hgenerated : d.through = none ∨ ∃ flag, d.through = some (.generated flag)) {t : Through}
    (ht : r.join.through = some t) : t.model = none := by
  obtain ⟨_, _, source, target, through, -, -, -, -, hthrough, rfl⟩ := relationOfKeys_eq_ok h
  rw [throughBetween_of_generated hkind hgenerated] at hthrough
  obtain ⟨t', ht', rfl⟩ := map_eq_ok_iff.1 hthrough
  obtain rfl := Option.some.inj ht
  exact (Reference.throughTo_eq_ok ht').2.2.2

/-- A definition that gives no join is resolved by its keys. -/
theorem relationOfKeys_of_resolveRelation (h : registry.resolveRelation d = .ok r)
    (hjoin : d.join = none) :
    RelationKind.ofName? d.relation = some r.kind ∧ relationOfKeys registry r.kind d = .ok r := by
  unfold Registry.resolveRelation at h
  split at h
  · cases h
  · rename_i kind hkind
    rw [hjoin] at h
    obtain ⟨rfl, -⟩ := isSome_of_relationOfKeys h
    exact ⟨hkind, h⟩

end

/-- Every resolved relation has a join table exactly when it is of a kind with one; one that was
described by two keys follows from them. -/
theorem Registry.resolveRelation_consistent {registry : Registry} {d : RelationDefinition}
    {r : Relation} (h : registry.resolveRelation d = .ok r) :
    (r.join.through.isSome ↔ r.kind.isThrough) ∧ (d.join = none → r.FollowsKeys registry d) := by
  unfold resolveRelation at h
  split at h
  · cases h
  · split at h
    · rename_i join hjoin
      obtain ⟨hkind, hthrough⟩ := isSome_of_relationOfJoin h
      exact ⟨by rw [hthrough, hkind], fun hnone ↦ by simp [hjoin] at hnone⟩
    · obtain ⟨hkind, hthrough⟩ := isSome_of_relationOfKeys h
      exact ⟨by rw [hthrough, hkind], fun _ ↦ followsKeys_of_relationOfKeys h⟩

/-- Users and groups, and the table of memberships between them. -/
def groupModels : Registry :=
  .exact [.named "User", .named "Group", { Model.named "Membership" with tableName := "members" }]

/-- The groups of a user, both of them known by two properties. -/
def groupsOfUser : RelationDefinition :=
  let through : ThroughDefinition := .explicit
    (some (.composite ["Membership.userRealm", "Membership.userName"]))
    (some (.composite ["Membership.groupRealm", "Membership.groupName"])) none
  ⟨"many-to-many", some (.composite ["User.realm", "User.name"]),
    some (.composite ["Group.realm", "Group.name"]), some through, false, none, none, none, none,
    []⟩

/-- Those groups as a resolved relation. -/
def userGroups : Relation :=
  let through : Through := ⟨"members", .composite ["Membership.userRealm", "Membership.userName"],
    .composite ["Membership.groupRealm", "Membership.groupName"], some "Membership"⟩
  ⟨.manyToMany, "Group", ⟨.composite ["User.realm", "User.name"],
    .composite ["Group.realm", "Group.name"], some through⟩, none, []⟩

theorem Registry.resolveRelation_consistent_groupsOfUser :
    groupModels.resolveRelation groupsOfUser = .ok userGroups ∧
      (userGroups.join.through.isSome ↔ userGroups.kind.isThrough) ∧
      userGroups.FollowsKeys groupModels groupsOfUser := by
  have hresolve : groupModels.resolveRelation groupsOfUser = .ok userGroups := by rfl
  obtain ⟨hthrough, hfollows⟩ := resolveRelation_consistent hresolve
  exact ⟨hresolve, hthrough, hfollows rfl⟩

end ModelCatalog
