import Mathlib.Data.List.Forall2
import ModelCatalog.Action.Coercion
import ModelCatalog.Proofs.Json.Reader

/-!
# What coercion changes

Parameters with names of their own hold values of their own. So what coercion makes of one does not
depend on the others: a text that can be read is replaced by its value, one that is malformed is
reported, and all else stays, whatever becomes of the parameters before and after it.

## The invariant

A coercion under way is compared with the input that it set out from, by `Coercion.Coerces`. A step
can rely on the original value of its parameter, since no parameter before it has the same name.

## Malformed texts

A text is malformed if `Json.read?` has no value for it. Any other text is the tokens of a value
that is not nested too deeply (`Json.read?_eq_some_iff`; for parameters,
`ActionParameter.isMalformed_iff_writtenAs`). The tokens and their order are those of the grammar of
JSON. What that grammar leaves open is decided as follows, and decides what is malformed:

* containers nested 128 deep are refused: the depth of a value has to be below `Reader.depthLimit`;
* a number beyond the finite range of binary floating point is refused, such as `1e400`, while an
  integer beyond 64 bits is read as a floating-point number (`NumberLiteral.value?`);
* an escaped surrogate is refused unless it is part of a pair (`Token.StringScan.ofUnit?`);
* an object may repeat a key, and the last value counts (`Json.merged`).
-/

namespace ModelCatalog

namespace ActionParameter

/-- The parameter takes objects, and the input holds a text under its name that is not empty. -/
structure HoldsText (registry : Registry) (input : Json) (p : ActionParameter)
    (name text : String) : Prop where
  named : p.name? = some name
  takesObject : ∃ type ∈ p.typeNames, type = "object" ∨ registry.contains type
  held : input.get? name = some (.string text)
  nonempty : text ≠ ""

/-- The input holds a text for the parameter, which takes objects, and the text is malformed. -/
def isMalformed (registry : Registry) (input : Json) (p : ActionParameter) : Bool :=
  p.takesObject registry &&
    match p.name?.bind input.get? with
    | some (.string text) => text ≠ "" && (Json.read? text).isNone
    | _ => false

variable {registry : Registry} {input : Json} {p : ActionParameter} {name text : String}

theorem takesObject_iff :
    p.takesObject registry ↔ ∃ type ∈ p.typeNames, type = "object" ∨ registry.contains type := by
  simp [takesObject]

theorem isMalformed_iff : p.isMalformed registry input ↔
    ∃ name text, p.HoldsText registry input name text ∧ Json.read? text = none := by
  rw [isMalformed, Bool.and_eq_true, takesObject_iff]
  constructor
  · rintro ⟨htakes, hmalformed⟩
    split at hmalformed
    · rename_i text hheld
      obtain ⟨name, hname, hheld⟩ := Option.bind_eq_some_iff.1 hheld
      obtain ⟨hne, hread⟩ : text ≠ "" ∧ Json.read? text = none := by simpa using hmalformed
      exact ⟨name, text, ⟨hname, htakes, hheld, hne⟩, hread⟩
    · cases hmalformed
  · rintro ⟨name, text, ⟨hname, htakes, hheld, hne⟩, hread⟩
    exact ⟨htakes, by simp [hname, hheld, hne, hread]⟩

/-- A text is malformed if no value is written so, or one that is nested too deeply. -/
theorem isMalformed_iff_writtenAs : p.isMalformed registry input ↔
    ∃ name text, p.HoldsText registry input name text ∧
      ∀ value : Json, value.WrittenAs text → Reader.depthLimit ≤ value.depth := by
  simp only [isMalformed_iff, Json.read?_eq_none_iff]

/-- Only what the input holds under the name matters. -/
theorem HoldsText.congr {input' : Json} (h : p.HoldsText registry input name text)
    (hget : input'.get? name = input.get? name) : p.HoldsText registry input' name text :=
  { h with held := hget.trans h.held }

theorem HoldsText.unique {name' text' : String} (h : p.HoldsText registry input name text)
    (h' : p.HoldsText registry input name' text') : name = name' ∧ text = text' := by
  obtain rfl : name = name' := Option.some.inj (h.named.symm.trans h'.named)
  exact ⟨rfl, by simpa [h.held] using h'.held⟩

private theorem HoldsText.isMalformed_eq (h : p.HoldsText registry input name text) :
    p.isMalformed registry input = (Json.read? text).isNone := by
  rw [isMalformed, takesObject_iff.2 h.takesObject, h.named, Option.bind_some, h.held]
  simp [h.nonempty]

private theorem isMalformed_eq_false (h : ∀ name text, ¬p.HoldsText registry input name text) :
    p.isMalformed registry input = false :=
  Bool.eq_false_iff.2 fun hmalformed ↦
    let ⟨name, text, hholds, _⟩ := isMalformed_iff.1 hmalformed
    h name text hholds

end ActionParameter

namespace Coercion

open ActionParameter

/-! ## Replacing a value -/

section

variable {input held : Json} {name : String}

private theorem get?_setSlot (h : input.get? name = some held) (value : Json) (key : String) :
    (setSlot input value (some name)).get? key =
      if name = key then some value else input.get? key := by
  cases input with
  | object fields => exact Fields.get?_insert fields name value key
  | _ => cases h

private theorem keys_setSlot (h : input.get? name = some held) (value : Json) :
    (setSlot input value (some name)).object?.map Fields.keys =
      input.object?.map Fields.keys := by
  cases input with
  | object fields =>
    have hmem : name ∈ Fields.keys fields :=
      Fields.contains_iff_mem_keys.1 (Option.isSome_iff_exists.2 ⟨held, h⟩)
    rw [setSlot, Json.object?, Json.object?, Option.map_some, Option.map_some, Fields.keys_insert,
      if_pos hmem]
  | _ => cases h

end

/-! ## One parameter

The parameters so far are followed by one whose name none of them has. A step does one of three
things with the value that the input holds for it, and the invariant is kept by each of them. -/

/-- What has become of an input by the coercion of the parameters so far. -/
structure Coerces (registry : Registry) (input : Json) (done : List ActionParameter)
    (c : Coercion) : Prop where
  /-- The keys stay, and stay in their order. -/
  keys : c.input.object?.map Fields.keys = input.object?.map Fields.keys
  /-- An input that has no keys stays as it is. -/
  whole : input.object? = none → c.input = input
  decoded : ∀ p ∈ done, ∀ name text value, p.HoldsText registry input name text →
    Json.read? text = some value → c.input.get? name = some value.merged
  kept : ∀ key, (∀ p ∈ done, ∀ text, p.HoldsText registry input key text →
    Json.read? text = none) → c.input.get? key = input.get? key
  faults : c.faults = (done.filter (·.isMalformed registry input)).map fun p ↦
    ⟨p.name?, p.typeNames⟩

variable {registry : Registry} {input : Json} {done parameters : List ActionParameter}
  {c : Coercion} {p : ActionParameter} {name : String}

/-- All that a step can do: replace a text, report it, or nothing. -/
theorem step_cases (registry : Registry) (c : Coercion) (hname : p.name? = some name) :
    (∃ text value, p.HoldsText registry c.input name text ∧ Json.read? text = some value ∧
      step registry c p = { c with input := setSlot c.input value.merged (some name) }) ∨
    (∃ text, p.HoldsText registry c.input name text ∧ Json.read? text = none ∧
      step registry c p = { c with faults := c.faults ++ [⟨p.name?, p.typeNames⟩] }) ∨
    ((∀ text, ¬p.HoldsText registry c.input name text) ∧ step registry c p = c) := by
  by_cases htakes : p.takesObject registry
  · have htakes' := takesObject_iff.1 htakes
    by_cases hheld : ∃ text, c.input.get? name = some (.string text) ∧ text ≠ ""
    · obtain ⟨text, hheld, hne⟩ := hheld
      have hholds : p.HoldsText registry c.input name text := ⟨hname, htakes', hheld, hne⟩
      cases hread : Json.read? text with
      | some value =>
        refine .inl ⟨text, value, hholds, hread, ?_⟩
        simp [step, htakes, hname, slot?, hheld, hne, hread]
      | none =>
        refine .inr (.inl ⟨text, hholds, hread, ?_⟩)
        simp [step, htakes, hname, slot?, hheld, hne, hread]
    · refine .inr (.inr ⟨fun text h ↦ hheld ⟨text, h.held, h.nonempty⟩, ?_⟩)
      unfold step
      rw [if_neg (by simp [htakes]), hname, slot?]
      split
      · rename_i text htext
        have hempty : text = "" := by
          by_contra hne
          exact hheld ⟨text, htext, hne⟩
        rw [if_pos (by simp [hempty])]
      · rfl
  · refine .inr (.inr ⟨fun text h ↦ htakes (takesObject_iff.2 h.takesObject), ?_⟩)
    simp [step, htakes]

namespace Coerces

theorem nil (registry : Registry) (input : Json) : Coerces registry input [] ⟨input, []⟩ :=
  ⟨rfl, fun _ ↦ rfl, by simp, fun _ _ ↦ rfl, rfl⟩

/-- Nothing has been made yet of what a parameter with another name than those so far holds. -/
theorem get?_of_fresh (h : Coerces registry input done c) (hfresh : some name ∉ done.map name?) :
    c.input.get? name = input.get? name :=
  h.kept name fun p hp _ hholds ↦ absurd (List.mem_map.2 ⟨p, hp, hholds.named⟩) hfresh

/-- A parameter whose text is not replaced changes no value. -/
theorem snoc_of_not_decoded (h : Coerces registry input done c)
    (hread : ∀ name text, p.HoldsText registry input name text → Json.read? text = none)
    {faults : List CoercionFault}
    (hfaults : faults = c.faults ++
      if p.isMalformed registry input then [⟨p.name?, p.typeNames⟩] else []) :
    Coerces registry input (done ++ [p]) { c with faults := faults } where
  keys := h.keys
  whole := h.whole
  decoded q hq name text value hholds hvalue := by
    rcases List.mem_append.1 hq with hq | hq
    · exact h.decoded q hq name text value hholds hvalue
    · obtain rfl := List.mem_singleton.1 hq
      simp [hread name text hholds] at hvalue
  kept key hkept := h.kept key fun q hq ↦ hkept q (List.mem_append_left _ hq)
  faults := by
    rw [hfaults, h.faults, List.filter_append, List.map_append]
    cases hmalformed : p.isMalformed registry input <;> simp [hmalformed]

/-- A text that can be read is replaced by its value, and what the parameters so far hold is
elsewhere. -/
theorem snoc_of_decoded (h : Coerces registry input done c) {text : String} {value : Json}
    (hfresh : some name ∉ done.map name?) (hholds : p.HoldsText registry input name text)
    (hread : Json.read? text = some value) :
    Coerces registry input (done ++ [p])
      { c with input := setSlot c.input value.merged (some name) } := by
  have hheld : c.input.get? name = some (.string text) :=
    (h.get?_of_fresh hfresh).trans hholds.held
  have hslot := get?_setSlot hheld value.merged
  refine ⟨(keys_setSlot hheld _).trans h.keys, fun hwhole ↦ ?_, ?_, fun key hkept ↦ ?_, ?_⟩
  · have hnone : input.get? name = none := by cases input with
      | object fields => cases hwhole
      | _ => rfl
    cases hnone.symm.trans hholds.held
  · intro q hq key text' value' hholds' hread'
    rcases List.mem_append.1 hq with hq | hq
    · have hne : name ≠ key := by
        rintro rfl
        exact hfresh (List.mem_map.2 ⟨q, hq, hholds'.named⟩)
      exact (hslot key).trans ((if_neg hne).trans (h.decoded q hq key text' value' hholds' hread'))
    · obtain rfl := List.mem_singleton.1 hq
      obtain ⟨rfl, rfl⟩ := hholds.unique hholds'
      obtain rfl : value = value' := Option.some.inj (hread.symm.trans hread')
      exact (hslot name).trans (if_pos rfl)
  · have hne : name ≠ key := by
      rintro rfl
      simpa [hread] using hkept p (by simp) text hholds
    exact (hslot key).trans ((if_neg hne).trans
      (h.kept key fun q hq ↦ hkept q (List.mem_append_left _ hq)))
  · have hwell : p.isMalformed registry input = false := by simp [hholds.isMalformed_eq, hread]
    simp [h.faults, hwell]

/-- **One parameter further.** -/
theorem step (h : Coerces registry input done c) (hname : p.name? = some name)
    (hfresh : some name ∉ done.map name?) :
    Coerces registry input (done ++ [p]) (step registry c p) := by
  have hget := h.get?_of_fresh hfresh
  rcases step_cases registry c hname with ⟨text, value, hholds, hread, hstep⟩ |
    ⟨text, hholds, hread, hstep⟩ | ⟨hnone, hstep⟩
  · exact hstep ▸ h.snoc_of_decoded hfresh (hholds.congr hget.symm) hread
  · have hholds := hholds.congr hget.symm
    refine hstep ▸ h.snoc_of_not_decoded (fun _ _ h' ↦ ?_) ?_
    · rw [← (hholds.unique h').2, hread]
    · simp [hholds.isMalformed_eq, hread]
  · have hnone' : ∀ name' text, ¬p.HoldsText registry input name' text := fun name' text h' ↦ by
      obtain rfl : name' = name := Option.some.inj (h'.named.symm.trans hname)
      exact hnone text (h'.congr hget)
    have hkept := h.snoc_of_not_decoded (fun _ _ h' ↦ absurd h' (hnone' _ _)) rfl
    simpa [hstep, isMalformed_eq_false hnone'] using hkept

/-- **Many parameters further.** -/
theorem foldl (h : Coerces registry input done c) (hnamed : ∀ p ∈ parameters, p.name?.isSome)
    (hnodup : ((done ++ parameters).map name?).Nodup) :
    Coerces registry input (done ++ parameters) (parameters.foldl (Coercion.step registry) c) := by
  -- the parameters done grow by the one that the fold takes
  induction parameters generalizing done c with
  | nil => rwa [List.append_nil]
  | cons p parameters ih =>
    obtain ⟨name, hname⟩ := Option.isSome_iff_exists.1 (hnamed p List.mem_cons_self)
    have hfresh : some name ∉ done.map name? := by
      rw [List.map_append, List.map_cons, hname] at hnodup
      exact fun hmem ↦ (List.nodup_append.1 hnodup).2.2 _ hmem _ List.mem_cons_self rfl
    rw [List.append_cons] at hnodup ⊢
    exact ih (h.step hname hfresh) (fun q hq ↦ hnamed q (List.mem_cons_of_mem _ hq)) hnodup

end Coerces

/-! ## All parameters -/

private theorem failure?_isSome_iff (c : Coercion) : c.failure?.isSome ↔ c.faults ≠ [] := by
  rw [failure?]
  cases c.faults <;> simp

private theorem details?_of_failure? {failure : Failure} (h : c.failure? = some failure) :
    failure.details? = some (.array (c.faults.map CoercionFault.toJson)) := by
  obtain ⟨-, hfailure⟩ := Option.ite_none_left_eq_some.1 h
  obtain rfl := Option.some.inj hfailure
  rfl

/-- **The coercion of an input** whose parameters have names of their own. Exactly the texts of
parameters that take objects change, and of these exactly the ones that can be read. It fails
exactly if some of the others are malformed, and reports each of those under its name. -/
theorem coerces_run (registry : Registry) (parameters : List ActionParameter) (input : Json)
    (hnamed : ∀ p ∈ parameters, p.name?.isSome) (hnodup : (parameters.map name?).Nodup) :
    Coerces registry input parameters (run registry parameters input) ∧
      ((run registry parameters input).failure?.isSome ↔ ∃ p ∈ parameters, ∃ name text,
        p.HoldsText registry input name text ∧ Json.read? text = none) ∧
      ∀ failure, (run registry parameters input).failure? = some failure → ∃ entries,
        failure.details? = some (.array entries) ∧
        List.Forall₂
          (fun p entry ↦ ∃ name, p.name? = some name ∧
            entry.get? "dataPath" = some (.string ("." ++ name)))
          (parameters.filter (·.isMalformed registry input)) entries := by
  have hrun : Coerces registry input parameters (run registry parameters input) :=
    (Coerces.nil registry input).foldl hnamed hnodup
  refine ⟨hrun, ?_, fun failure hfailure ↦ ⟨_, details?_of_failure? hfailure, ?_⟩⟩
  · rw [failure?_isSome_iff, hrun.faults, ne_eq, List.map_eq_nil_iff, List.filter_eq_nil_iff]
    simp only [isMalformed_iff, not_forall, not_not, exists_prop]
  · rw [hrun.faults, List.map_map, List.forall₂_map_right_iff, List.forall₂_same]
    intro p hp
    obtain ⟨name, hname⟩ := Option.isSome_iff_exists.1 (hnamed p (List.mem_of_mem_filter hp))
    exact ⟨name, hname, by simp [CoercionFault.toJson, hname]⟩

/-- Parameters that take an object, a user, any text, and an object or a number. -/
def searchParameters : List ActionParameter :=
  [.full (some "user") (some (.string "User")) [],
    .full (some "filter") (some (.string "object")) [],
    .full (some "q") (some (.string "string")) [],
    .full (some "page") (some (.array [.string "integer", .string "object"])) []]

/-- An input for them, with one text that is malformed and keys in another order. -/
def searchInput : Json :=
  .object [("q", .string "[true]"), ("filter", .string "[true]"), ("user", .string "[true"),
    ("other", .null)]

theorem coerces_run_searchInput :
    let c := run (.exact [.named "User"]) searchParameters searchInput
    (∀ p ∈ searchParameters, p.name?.isSome) ∧ (searchParameters.map name?).Nodup ∧
      c.input.object?.map Fields.keys = some ["q", "filter", "user", "other"] ∧
      c.input.get? "filter" = some (.array [.bool true]) ∧
      c.input.get? "q" = some (.string "[true]") ∧ c.failure?.isSome := by
  have hnamed : ∀ p ∈ searchParameters, p.name?.isSome := by decide
  have hnodup : (searchParameters.map name?).Nodup := by decide
  obtain ⟨hrun, hfails, -⟩ := coerces_run (.exact [.named "User"]) searchParameters searchInput
    hnamed hnodup
  refine ⟨hnamed, hnodup, hrun.keys, ?_, hrun.kept "q" fun p hp text hholds ↦ ?_, hfails.2 ?_⟩
  · exact hrun.decoded _ (List.mem_of_getElem? (i := 1) rfl) "filter" "[true]" (.array [.bool true])
      ⟨rfl, ⟨"object", by decide, .inl rfl⟩, rfl, by decide⟩ (by cbv)
  · have hplain : ∀ p ∈ searchParameters, p.name? = some "q" →
        ¬p.takesObject (.exact [.named "User"]) := by decide
    exact absurd (takesObject_iff.2 hholds.takesObject) (hplain p hp hholds.named)
  · exact ⟨_, List.mem_cons_self, "user", "[true", ⟨rfl, ⟨"User", by decide, .inr (by decide)⟩, rfl,
      by decide⟩, by decide +kernel⟩

end Coercion

end ModelCatalog
