import ModelCatalog.Proofs.Relation.Consistency

/-!
# Keys that can be read

A key is read token by token. The first token fixes the model, and each further one has to be on the
same model. What is read in the end has all the properties in their order, so the key can be written
again, and reading what is written gives the same: a property may contain further points, but the
name of a model has none, so that each token falls apart where it was put together.
-/

namespace ModelCatalog

open Outcome

/-- Each part of the key, of which there is one at least, is the name of the model, a point and a
property, none of them empty. There is no point in the name, so it is what stands before the first
point. -/
structure Key.References (key : Key) (model : String) : Prop where
  nonempty : key.tokens ≠ []
  model_ne : model ≠ ""
  not_dot : '.' ∉ model.toList
  tokens : ∀ token ∈ key.tokens, ∃ property, property ≠ "" ∧ token = model ++ "." ++ property

namespace Reference

variable {registry : Registry} {allowUnknown : Bool} {key : Key} {r : Reference}

/-! ## Reading all tokens -/

theorem foldlM_addToken {model : String} {tokens properties : List String}
    (h : List.Forall₂ (fun token property ↦ cutToken? token = some (model, property))
      tokens properties) (seen : List String) (known : Bool) :
    tokens.foldlM (addToken registry allowUnknown) (some ⟨model, seen, known⟩) =
      .ok (some ⟨model, seen ++ properties, known⟩) := by
  induction h generalizing seen with
  | nil => simp
  | @cons token property tokens properties hcut _ ih =>
    have hstep : addToken registry allowUnknown (some ⟨model, seen, known⟩) token =
        .ok (some ⟨model, seen ++ [property], known⟩) := by
      simp [addToken, hcut]
    rw [List.foldlM_cons, hstep, ok_bind, ih, List.append_assoc, List.singleton_append]

/-- A reference is read from a key exactly if it knows of its tokens what there is to know. -/
theorem ofKey_eq_ok_iff : ofKey registry allowUnknown key = .ok r ↔
    key.tokens ≠ [] ∧ Reads registry allowUnknown key.tokens r := by
  refine ⟨reads_of_ofKey, fun ⟨hne, hreads⟩ ↦ ?_⟩
  obtain ⟨model, properties, known⟩ := r
  obtain ⟨hcut, hknown, hallowed⟩ := hreads
  dsimp only at hcut hknown hallowed
  cases htokens : key.tokens with
  | nil => exact absurd htokens hne
  | cons token tokens =>
    rw [htokens] at hcut
    obtain ⟨property, rest, hfirst, hrest, rfl⟩ := List.forall₂_cons_left_iff.1 hcut
    have hstep : addToken registry allowUnknown none token =
        .ok (some ⟨model, [property], known⟩) := by
      subst hknown
      rw [addToken, hfirst]
      exact if_pos (Bool.or_eq_true_iff.2 hallowed)
    rw [ofKey, htokens, List.foldlM_cons, hstep, ok_bind, foldlM_addToken hrest, ok_bind]
    rfl

/-- What is read depends on the tokens alone. -/
theorem ofKey_eq_ok_of_tokens {key' : Key} (htokens : key'.tokens = key.tokens)
    (h : ofKey registry allowUnknown key = .ok r) : ofKey registry allowUnknown key' = .ok r := by
  rw [ofKey_eq_ok_iff, htokens]
  exact ofKey_eq_ok_iff.1 h

/-! ## Keys that name properties of one model -/

/-- Such a key falls apart token by token where it was put together. -/
theorem references_iff {model : String} :
    key.References model ↔ key.tokens ≠ [] ∧
      ∀ token ∈ key.tokens, ∃ property, cutToken? token = some (model, property) := by
  constructor
  · intro h
    refine ⟨h.nonempty, fun token htoken ↦ ?_⟩
    obtain ⟨property, hproperty, heq⟩ := h.tokens token htoken
    exact ⟨property, cutToken?_eq_some_iff.2 ⟨heq, h.not_dot, h.model_ne, hproperty⟩⟩
  · rintro ⟨hne, hparts⟩
    obtain ⟨token, htoken⟩ := List.exists_mem_of_ne_nil _ hne
    obtain ⟨property, hcut⟩ := hparts token htoken
    obtain ⟨-, hdot, hmodel, -⟩ := cutToken?_eq_some_iff.1 hcut
    refine ⟨hne, hmodel, hdot, fun token htoken ↦ ?_⟩
    obtain ⟨property, hcut⟩ := hparts token htoken
    obtain ⟨heq, -, -, hproperty⟩ := cutToken?_eq_some_iff.1 hcut
    exact ⟨property, hproperty, heq⟩

private theorem references_of_ofKey (h : ofKey registry allowUnknown key = .ok r) :
    key.References r.model := by
  obtain ⟨hne, hreads⟩ := ofKey_eq_ok_iff.1 h
  refine references_iff.2 ⟨hne, fun token htoken ↦ ?_⟩
  obtain ⟨property, -, hcut⟩ := exists_right_of_forall₂ hreads.cut htoken
  exact ⟨property, hcut⟩

private theorem succeeds_ofKey_of_references {model : String} (h : key.References model)
    (hallowed : allowUnknown ∨ registry.contains model) :
    Succeeds (ofKey registry allowUnknown key) := by
  obtain ⟨hne, hparts⟩ := references_iff.1 h
  choose! property hcut using hparts
  refine ⟨⟨model, key.tokens.map property, registry.contains model⟩,
    ofKey_eq_ok_iff.2 ⟨hne, ?_, rfl, hallowed.symm⟩⟩
  rw [List.forall₂_map_right_iff, List.forall₂_same]
  exact hcut

/-- **Keys that can be read.** A key is read exactly if its parts name properties of one model,
which has to be found unless it need not be. The reference that is read writes a key with the same
tokens, which is read as the same reference. -/
theorem ofKey_references (registry : Registry) (allowUnknown : Bool) (key : Key) :
    (Succeeds (ofKey registry allowUnknown key) ↔
      ∃ model, key.References model ∧ (allowUnknown ∨ registry.contains model)) ∧
    ∀ r, ofKey registry allowUnknown key = .ok r →
      key.References r.model ∧ r.toKey.tokens = key.tokens ∧
        ofKey registry allowUnknown r.toKey = .ok r ∧ r.known = registry.contains r.model := by
  refine ⟨⟨?_, ?_⟩, fun r hr ↦ ?_⟩
  · rintro ⟨r, hr⟩
    have hreads := (ofKey_eq_ok_iff.1 hr).2
    exact ⟨r.model, references_of_ofKey hr, hreads.known ▸ hreads.allowed.symm⟩
  · rintro ⟨model, hreferences, hallowed⟩
    exact succeeds_ofKey_of_references hreferences hallowed
  · have htokens := tokens_toKey_of_ofKey hr
    exact ⟨references_of_ofKey hr, htokens, ofKey_eq_ok_of_tokens htokens hr, known_of_ofKey hr⟩

/-- The columns of an order in a table without a model, one of them with a point in its name. -/
def orderColumns : Key := .composite ["order_items.order.number", "order_items.shop"]

theorem ofKey_references_orderColumns :
    let registry := Registry.exact [⟨"Shop", "shops", ["id"], [], [], []⟩]
    let r : Reference := ⟨"order_items", ["order.number", "shop"], false⟩
    ofKey registry true orderColumns = .ok r ∧ orderColumns.References "order_items" ∧
      r.toKey.tokens = ["order_items.order.number", "order_items.shop"] ∧
        ofKey registry true r.toKey = .ok r ∧ r.known = registry.contains "order_items" := by
  intro registry r
  have hread : ofKey registry true orderColumns = .ok r := by rfl
  obtain ⟨hreferences, htokens, hagain, hknown⟩ :=
    (ofKey_references registry true orderColumns).2 r hread
  exact ⟨hread, hreferences, htokens, hagain, hknown⟩

end Reference

end ModelCatalog
