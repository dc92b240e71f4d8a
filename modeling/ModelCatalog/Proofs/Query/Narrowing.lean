import ModelCatalog.Proofs.Query.PropertyPath
import ModelCatalog.Proofs.Query.Replay

/-!
# Narrowings take effect as a whole

A narrowing works on a specification that others have begun. The conditions of a filter are nested,
and any of them may turn out to be malformed or to be on a property that the model does not have,
when others have passed. A specification with some of the conditions would ask for more than was
meant, and nothing would show it.

## Why it cannot happen

No step is taken before the whole plan is made: what is planned first and replayed then can fail
only while the specification is untouched. Such computations are atomic (`Building.Atomic`), and so
are all requests of a session (`Request.atomic_apply`).
-/

namespace ModelCatalog

open Outcome

/-! ## Building a specification -/

namespace Building

variable {α β : Type} {x : Except QueryError α} {f : α → Building β} {s s' : Specification}

/-- A failure leaves the specification as it was. -/
def Atomic (x : Building α) : Prop := ∀ s e s', x.run s = .error e s' → s' = s

private theorem run_ofExcept_bind_eq_ok_iff {b : β} :
    (MonadExcept.ofExcept x >>= f : Building β).run s = .ok b s' ↔
      ∃ a, x = .ok a ∧ (f a).run s = .ok b s' := by
  cases x with
  | error e =>
    have hrun : (MonadExcept.ofExcept (.error e) >>= f : Building β).run s = .error e s := rfl
    simp [hrun]
  | ok a => simp [MonadExcept.ofExcept]

private theorem run_replay (plan : List Step) (s : Specification) :
    (replay plan).run s = .ok () (s.applyAll plan) := by
  induction plan generalizing s with
  | nil => rfl
  | cons step plan ih => exact ih (s.apply step)

theorem Atomic.of_run_eq_ok {x : Building α} (h : ∀ s, ∃ a s', x.run s = .ok a s') : Atomic x := by
  intro s e s' herror
  obtain ⟨a, t, hok⟩ := h s
  rw [hok] at herror
  cases herror

theorem Atomic.take (step : Step) : Atomic (take step) := .of_run_eq_ok fun _ ↦ ⟨_, _, rfl⟩

theorem Atomic.replay (plan : List Step) : Atomic (replay plan) :=
  .of_run_eq_ok fun s ↦ ⟨_, _, run_replay plan s⟩

/-- What is done before anything is changed may fail. -/
theorem Atomic.ofExcept_bind (h : ∀ a, Atomic (f a)) :
    Atomic (MonadExcept.ofExcept x >>= f) := by
  cases x with
  | error e =>
    rintro s _ _ ⟨⟩
    rfl
  | ok a => exact h a

end Building

/-! ## Narrowings and requests -/

theorem Modifier.atomic_apply (registry : Registry) (model : String) (m : Modifier) :
    Building.Atomic (m.apply registry model) := by
  cases m with
  | scopes names => exact .take _
  | filter conditions => exact .ofExcept_bind .replay

/-- A request that fails changes nothing. -/
theorem Request.atomic_apply (registry : Registry) (request : Request) :
    Building.Atomic (request.apply registry) := by
  cases request with
  | query model params allowed => exact .ofExcept_bind .replay
  | scope model name => exact .ofExcept_bind .replay
  | modifier model relation =>
    rw [apply]
    split
    · rw [Relation.narrow]
      split
      · exact Modifier.atomic_apply registry _ _
      · exact .of_run_eq_ok fun _ ↦ ⟨_, _, rfl⟩
    · exact .of_run_eq_ok fun _ ↦ ⟨_, _, rfl⟩
  | filter model conditions => exact Modifier.atomic_apply registry model (.filter conditions)
  | entry kind text => exact .ofExcept_bind fun condition ↦ .take _
  | step single => exact .take single
  | reset => exact .of_run_eq_ok fun _ ↦ ⟨_, _, rfl⟩

/-! ## Conditions

For filters the effect can be said outright, as the conditions are planned one by one. -/

/-- The plan of conditions has a step for each of them, all on properties that are found. -/
theorem Registry.planConditions_eq_ok_iff {registry : Registry} {model : String} {kind : WhereKind}
    {value : Json} {plan : List Step} :
    registry.planConditions model kind value = .ok plan ↔
      ∃ filters, readConditions value = .ok filters ∧
        (∀ filter ∈ filters, Succeeds (registry.propertyPath model filter.reference)) ∧
          plan = filters.map (.filter kind) := by
  have hstep : ∀ (filter : Filter) (step : Step),
      (do let _ ← registry.propertyPath model filter.reference
          return .filter kind filter) = Except.ok step ↔
        Succeeds (registry.propertyPath model filter.reference) ∧ .filter kind filter = step := by
    intro filter step
    simp only [bind_eq_ok_iff, pure_eq_ok_iff, Succeeds, exists_and_right]
  rw [planConditions, bind_eq_ok_iff]
  refine exists_congr fun filters ↦ and_congr_right fun _ ↦ ?_
  simp only [mapM_eq_ok_iff, hstep, List.forall₂_and_left]
  rw [← List.forall₂_map_left_iff, List.forall₂_eq_eq_eq, eq_comm (a := plan)]

namespace Specification

private theorem applyAll_filters (kind : WhereKind) (filters : List Filter) (s : Specification) :
    s.applyAll (filters.map (.filter kind)) =
      { s with filters := s.filters ++ filters.map (kind, ·) } := by
  induction filters generalizing s with
  | nil => simp [applyAll]
  | cons filter filters ih =>
    rw [List.map_cons, applyAll, List.foldl_cons, ← applyAll, ih]
    simp [apply]

end Specification

namespace Modifier

/-- **Narrowings take effect as a whole.** One that fails leaves the specification as it was. A
filter adds exactly the conditions that are read from it, behind those before, and all of them are
on properties that the model has. Scopes are added behind those before, without repetition. -/
theorem narrows_or_unchanged (registry : Registry) (model : String) (s : Specification) :
    (∀ (m : Modifier) (e : QueryError) (s' : Specification),
      (m.apply registry model).run s = .error e s' → s' = s) ∧
    (∀ (conditions : Fields Json) (s' : Specification),
      ((Modifier.filter conditions).apply registry model).run s = .ok () s' ↔
        ∃ filters, readConditions (.object conditions) = .ok filters ∧
          (∀ filter ∈ filters, Succeeds (registry.propertyPath model filter.reference)) ∧
            s' = { s with filters := s.filters ++ filters.map (.and, ·) }) ∧
    ∀ (names : List String) (s' : Specification),
      ((Modifier.scopes names).apply registry model).run s = .ok () s' ↔
        s' = { s with scopes := s.scopes ++ (names.filter (· ∉ s.scopes)).eraseDups } := by
  refine ⟨fun m e s' ↦ atomic_apply registry model m s e s', fun conditions s' ↦ ?_,
    fun names s' ↦ ?_⟩
  · rw [apply, Building.run_ofExcept_bind_eq_ok_iff]
    constructor
    · rintro ⟨plan, hplan, hrun⟩
      obtain ⟨filters, hread, hfound, rfl⟩ := Registry.planConditions_eq_ok_iff.1 hplan
      rw [Building.run_replay, Specification.applyAll_filters] at hrun
      cases hrun
      exact ⟨filters, hread, hfound, rfl⟩
    · rintro ⟨filters, hread, hfound, rfl⟩
      refine ⟨_, Registry.planConditions_eq_ok_iff.2 ⟨filters, hread, hfound, rfl⟩, ?_⟩
      rw [Building.run_replay, Specification.applyAll_filters]
  · have hrun : ((Modifier.scopes names).apply registry model).run s =
        .ok () { s with scopes := mergeUnique s.scopes names } := rfl
    rw [hrun, mergeUnique_eq]
    constructor
    · rintro ⟨⟩
      rfl
    · rintro rfl
      rfl

/-- Posts, which have an author. -/
def postsWithAuthors : Registry :=
  .exact [⟨"Post", "posts", ["id"], [("title", .string "string")], [("author", ⟨.belongsToOne,
      "User", ⟨.single "Post.authorId", .single "User.id", none⟩, none, []⟩)], []⟩,
    ⟨"User", "users", ["id"], [("name", .string "string")], [], []⟩]

/-- A specification that others have begun. -/
def begunSpecification : Specification :=
  { Specification.empty with
    filters := [(.or, ⟨"id", .eq, .int 1⟩)]
    scopes := ["recent"] }

/-- Conditions of which the first alone is on a property of a post. -/
def halfKnown : Fields Json := [("title", .string "A"), ("body", .string "B")]

/-- Conditions on properties of a post and of its author. -/
def titleAndAuthor : Fields Json :=
  [("title like", .string "A%"), ("author", .object [("name", .string "Kim")])]

theorem narrows_or_unchanged_postsWithAuthors :
    (∃ e, ((Modifier.filter halfKnown).apply postsWithAuthors "Post").run begunSpecification =
      .error e begunSpecification) ∧
    ((Modifier.filter titleAndAuthor).apply postsWithAuthors "Post").run begunSpecification =
      .ok () { begunSpecification with
        filters := [(.or, ⟨"id", .eq, .int 1⟩), (.and, ⟨"title", .like, .string "A%"⟩),
          (.and, ⟨"author.name", .eq, .string "Kim"⟩)] } ∧
    ((Modifier.scopes ["active", "recent", "active"]).apply postsWithAuthors "Post").run
        begunSpecification =
      .ok () { begunSpecification with scopes := ["recent", "active"] } := by
  obtain ⟨hfailed, hfilter, hscopes⟩ :=
    narrows_or_unchanged postsWithAuthors "Post" begunSpecification
  refine ⟨?_, (hfilter _ _).2 ?_, (hscopes _ _).2 rfl⟩
  · obtain ⟨e, s', hrun⟩ : ∃ e s', ((Modifier.filter halfKnown).apply postsWithAuthors "Post").run
        begunSpecification = .error e s' := ⟨_, _, rfl⟩
    exact ⟨e, by rw [hrun, hfailed _ _ _ hrun]⟩
  · have hread : readConditions (.object titleAndAuthor) =
        .ok [⟨"title", .like, .string "A%"⟩, ⟨"author.name", .eq, .string "Kim"⟩] := by rfl
    have htitle : Succeeds (postsWithAuthors.propertyPath "Post" "title") := ⟨_, rfl⟩
    have hname : Succeeds (postsWithAuthors.propertyPath "Post" "author.name") := ⟨_, rfl⟩
    exact ⟨_, hread, by simp [htitle, hname], rfl⟩

end Modifier

end ModelCatalog
