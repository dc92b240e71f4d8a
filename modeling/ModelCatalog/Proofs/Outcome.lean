import Mathlib.Data.List.Perm.Basic

/-!
# Outcomes of computations that may fail

How the outcome of a composed computation comes from those of its parts.

## Success and failure

Success is taken apart by the `_eq_ok_iff` lemmas: a list is mapped successfully exactly when each
of its items is. Where the result does not matter, `Succeeds x` says that there is one. Failure is
described from above: `FailsWith P x` says that `x` either succeeds or fails with an error that
satisfies `P`, and compositions keep such a bound.

## Comparison

Two computations are compared by one relation, `Alike`, that a relation of errors and a relation of
results are lifted to. It passes through the ways to compose computations, so two runs are compared
step by step.
-/

namespace ModelCatalog.Outcome

variable {ε ε' α β γ σ : Type}

/-! ## Success

Each lemma takes one way to compose computations apart. Those for single steps are simp lemmas, so
that a computation in `do` notation is taken apart by `simp`. -/

@[simp] theorem ok_bind (a : α) (f : α → Except ε β) : (.ok a : Except ε α) >>= f = f a := rfl

@[simp] theorem error_bind (e : ε) (f : α → Except ε β) :
    (.error e : Except ε α) >>= f = .error e := rfl

@[simp] theorem map_ok (f : α → β) (a : α) : f <$> (.ok a : Except ε α) = .ok (f a) := rfl

@[simp] theorem map_error (f : α → β) (e : ε) : f <$> (.error e : Except ε α) = .error e := rfl

@[simp] theorem throw_eq_error (e : ε) : (throw e : Except ε α) = .error e := rfl

@[simp] theorem bind_eq_ok_iff {x : Except ε α} {f : α → Except ε β} {b : β} :
    (x >>= f) = .ok b ↔ ∃ a, x = .ok a ∧ f a = .ok b := by
  cases x <;> simp

@[simp] theorem map_eq_ok_iff {x : Except ε α} {f : α → β} {b : β} :
    f <$> x = .ok b ↔ ∃ a, x = .ok a ∧ f a = b := by
  cases x <;> simp

@[simp] theorem pure_eq_ok_iff {a b : α} : (pure a : Except ε α) = .ok b ↔ a = b := by
  simp [pure, Except.pure]

theorem mapM_eq_ok_iff {f : α → Except ε β} {xs : List α} {ys : List β} :
    xs.mapM f = .ok ys ↔ List.Forall₂ (fun x y ↦ f x = .ok y) xs ys := by
  induction xs generalizing ys with
  | nil =>
    rw [List.mapM_nil, pure_eq_ok_iff, List.forall₂_nil_left_iff]
    exact eq_comm
  | cons x xs ih =>
    simp only [List.mapM_cons, bind_eq_ok_iff, pure_eq_ok_iff, List.forall₂_cons_left_iff, ih]
    constructor
    · rintro ⟨y, hy, rest, hrest, rfl⟩
      exact ⟨y, rest, hy, hrest, rfl⟩
    · rintro ⟨y, rest, hy, hrest, rfl⟩
      exact ⟨y, hy, rest, hrest, rfl⟩

/-- A list in another order is mapped to the results in another order. -/
theorem exists_perm_of_mapM {f : α → Except ε β} {xs xs' : List α} (h : xs.Perm xs') {ys : List β}
    (hys : xs.mapM f = .ok ys) : ∃ ys', xs'.mapM f = .ok ys' ∧ ys.Perm ys' := by
  obtain ⟨ys', hys', hperm⟩ := List.perm_comp_forall₂ h.symm (mapM_eq_ok_iff.1 hys)
  exact ⟨ys', mapM_eq_ok_iff.2 hys', hperm.symm⟩

theorem mapM_eq_some_iff {f : α → Option β} {xs : List α} {ys : List β} :
    xs.mapM f = some ys ↔ List.Forall₂ (fun x y ↦ f x = some y) xs ys := by
  induction xs generalizing ys with
  | nil =>
    rw [List.mapM_nil, Option.pure_def, Option.some.injEq, List.forall₂_nil_left_iff]
    exact eq_comm
  | cons x xs ih =>
    simp only [List.mapM_cons, Option.bind_eq_bind, Option.bind_eq_some_iff, Option.pure_def,
      Option.some.injEq, List.forall₂_cons_left_iff, ih]
    constructor
    · rintro ⟨y, hy, rest, hrest, rfl⟩
      exact ⟨y, rest, hy, hrest, rfl⟩
    · rintro ⟨y, rest, hy, hrest, rfl⟩
      exact ⟨y, hy, rest, hrest, rfl⟩

/-- A list is mapped to another exactly if it comes from that by the inverse. -/
theorem mapM_eq_some_iff_eq_map {f : α → Option β} {g : β → α}
    (h : ∀ x y, f x = some y ↔ x = g y) {xs : List α} {ys : List β} :
    xs.mapM f = some ys ↔ xs = ys.map g := by
  simp only [mapM_eq_some_iff, h]
  rw [← List.forall₂_map_right_iff, List.forall₂_eq_eq_eq]

theorem forM_eq_ok_iff {f : α → Except ε Unit} {xs : List α} :
    xs.forM f = .ok () ↔ ∀ x ∈ xs, f x = .ok () := by
  induction xs with
  | nil => simp
  | cons x xs ih =>
    simp only [List.forM_eq_forM] at ih ⊢
    simp only [List.forM_cons, bind_eq_ok_iff, List.mem_cons, forall_eq_or_imp]
    exact ⟨fun ⟨(), hx, hxs⟩ ↦ ⟨hx, ih.1 hxs⟩, fun ⟨hx, hxs⟩ ↦ ⟨(), hx, ih.2 hxs⟩⟩

@[simp] theorem mapError_eq_ok_iff {x : Except ε α} {f : ε → ε'} {a : α} :
    x.mapError f = .ok a ↔ x = .ok a := by
  cases x <;> simp [Except.mapError]

/-- Two computations with one first part need to go on alike only from its result. -/
theorem bind_congr_of_ok {x : Except ε α} {f g : α → Except ε β} (h : ∀ a, x = .ok a → f a = g a) :
    x >>= f = x >>= g := by
  cases x with
  | error e => rfl
  | ok a => exact h a rfl

/-- A test that the result of a computation passes shows that there is a result. -/
theorem exists_of_any {x : Except ε α} {p : α → Bool} (h : x.toOption.any p) :
    ∃ a, x = .ok a ∧ p a := by
  cases x with
  | error e => cases h
  | ok a => exact ⟨a, rfl, h⟩

/-! ### Whether there is a result -/

/-- The computation has a result. -/
def Succeeds (x : Except ε α) : Prop := ∃ a, x = .ok a

@[simp] theorem succeeds_ok (a : α) : Succeeds (.ok a : Except ε α) := ⟨a, rfl⟩

@[simp] theorem succeeds_pure (a : α) : Succeeds (pure a : Except ε α) := ⟨a, rfl⟩

theorem succeeds_bind_iff {x : Except ε α} {f : α → Except ε β} :
    Succeeds (x >>= f) ↔ ∃ a, x = .ok a ∧ Succeeds (f a) := by
  cases x <;> simp [Succeeds]

/-- A second computation that succeeds or fails whatever the first has as its result. -/
theorem succeeds_bind_iff_and {x : Except ε α} {f : α → Except ε β} {Q : Prop}
    (h : ∀ a, x = .ok a → (Succeeds (f a) ↔ Q)) : Succeeds (x >>= f) ↔ Succeeds x ∧ Q := by
  rw [succeeds_bind_iff]
  constructor
  · rintro ⟨a, ha, hf⟩
    exact ⟨⟨a, ha⟩, (h a ha).1 hf⟩
  · rintro ⟨⟨a, ha⟩, hQ⟩
    exact ⟨a, ha, (h a ha).2 hQ⟩

/-- A second computation that always succeeds. -/
theorem succeeds_bind_iff_left {x : Except ε α} {f : α → Except ε β} (h : ∀ a, Succeeds (f a)) :
    Succeeds (x >>= f) ↔ Succeeds x :=
  (succeeds_bind_iff_and fun a _ ↦ iff_true_intro (h a)).trans (and_iff_left trivial)

@[simp] theorem succeeds_map_iff {x : Except ε α} {f : α → β} :
    Succeeds (f <$> x) ↔ Succeeds x := by
  cases x <;> simp [Succeeds]

@[simp] theorem succeeds_mapError_iff {x : Except ε α} {f : ε → ε'} :
    Succeeds (x.mapError f) ↔ Succeeds x := by
  cases x <;> simp [Succeeds, Except.mapError]

theorem succeeds_mapM_iff {f : α → Except ε β} {xs : List α} :
    Succeeds (xs.mapM f) ↔ ∀ x ∈ xs, Succeeds (f x) := by
  induction xs with
  | nil => simp
  | cons x xs ih =>
    have hrest : ∀ y, Succeeds (do let ys ← xs.mapM f; return y :: ys) ↔
        ∀ x ∈ xs, Succeeds (f x) := by
      intro y
      rw [bind_pure_comp, succeeds_map_iff, ih]
    rw [List.mapM_cons, succeeds_bind_iff_and fun y _ ↦ hrest y, List.forall_mem_cons]

/-- A fold whose steps succeed or fail whatever the state is. -/
theorem succeeds_foldlM_iff {f : σ → α → Except ε σ} {P : α → Prop}
    (h : ∀ s x, Succeeds (f s x) ↔ P x) {xs : List α} {s : σ} :
    Succeeds (xs.foldlM f s) ↔ ∀ x ∈ xs, P x := by
  induction xs generalizing s with
  | nil => simp
  | cons x xs ih =>
    rw [List.foldlM_cons, succeeds_bind_iff_and fun t _ ↦ ih, h, List.forall_mem_cons]

/-! ## Item by item -/

theorem map_eq_map_of_forall₂ {R : α → β → Prop} {f : α → γ} {g : β → γ} {xs : List α} {ys : List β}
    (h : List.Forall₂ R xs ys) (hR : ∀ x y, R x y → f x = g y) : xs.map f = ys.map g := by
  induction h with
  | nil => rfl
  | cons hxy _ ih => rw [List.map_cons, List.map_cons, hR _ _ hxy, ih]

theorem exists_left_of_forall₂ {R : α → β → Prop} {xs : List α} {ys : List β}
    (h : List.Forall₂ R xs ys) {y : β} (hy : y ∈ ys) : ∃ x ∈ xs, R x y := by
  induction h with
  | nil => simp at hy
  | @cons x z xs zs hxz _ ih =>
    rcases List.mem_cons.1 hy with rfl | hy
    · exact ⟨x, by simp, hxz⟩
    · obtain ⟨w, hw, hwy⟩ := ih hy
      exact ⟨w, List.mem_cons_of_mem _ hw, hwy⟩

theorem exists_right_of_forall₂ {R : α → β → Prop} {xs : List α} {ys : List β}
    (h : List.Forall₂ R xs ys) {x : α} (hx : x ∈ xs) : ∃ y ∈ ys, R x y :=
  exists_left_of_forall₂ (List.Forall₂.flip h) hx

theorem forall₂_imp_of_mem {R S : α → β → Prop} {xs : List α} {ys : List β}
    (h : List.Forall₂ R xs ys) (hRS : ∀ x ∈ xs, ∀ y ∈ ys, R x y → S x y) :
    List.Forall₂ S xs ys := by
  induction h with
  | nil => exact .nil
  | cons hxy _ ih =>
    refine .cons (hRS _ (by simp) _ (by simp) hxy) (ih fun x hx y hy ↦ ?_)
    exact hRS x (List.mem_cons_of_mem _ hx) y (List.mem_cons_of_mem _ hy)

/-! ## Side by side

Two computations are compared by what they come to. There is one relation for this, with a relation
of errors and a relation of results as parameters: `Alike Eq R` compares the errors too, and
`Alike AnyError R` leaves them aside. -/

/-- Two computations come out alike: both fail and their errors are related, or both succeed and
their results are. -/
inductive Alike (E : ε → ε' → Prop) (R : α → β → Prop) : Except ε α → Except ε' β → Prop where
  | ok {a : α} {b : β} (h : R a b) : Alike E R (.ok a) (.ok b)
  | error {e : ε} {e' : ε'} (h : E e e') : Alike E R (.error e) (.error e')

def AnyError (_ : ε) (_ : ε') : Prop := True

instance : Std.Refl (AnyError : ε → ε → Prop) := ⟨fun _ ↦ trivial⟩

namespace Alike

variable {E : ε → ε' → Prop} {R : α → β → Prop} {x : Except ε α} {y : Except ε' β}

theorem of_eq {E : ε → ε → Prop} [Std.Refl E] {x y : Except ε α} (h : x = y) :
    Alike E Eq x y := by
  subst h
  cases x with
  | ok a => exact .ok rfl
  | error e => exact .error (Std.Refl.refl e)

theorem eq {R : α → α → Prop} {x y : Except ε α} (h : Alike Eq R x y)
    (hR : ∀ a b, R a b → a = b) : x = y := by
  cases h with
  | ok hab => rw [hR _ _ hab]
  | error he => rw [he]

theorem succeeds_iff (h : Alike E R x y) : Succeeds x ↔ Succeeds y := by
  cases h with
  | ok hab => exact iff_of_true (succeeds_ok _) (succeeds_ok _)
  | error he => simp [Succeeds]

theorem imp {S : α → β → Prop} (h : Alike E R x y)
    (hRS : ∀ a b, x = .ok a → y = .ok b → R a b → S a b) : Alike E S x y := by
  cases h with
  | ok hab => exact .ok (hRS _ _ rfl rfl hab)
  | error he => exact .error he

theorem bind {S : γ → σ → Prop} {f : α → Except ε γ} {g : β → Except ε' σ} (h : Alike E R x y)
    (hfg : ∀ a b, R a b → Alike E S (f a) (g b)) : Alike E S (x >>= f) (y >>= g) := by
  cases h with
  | ok hab => exact hfg _ _ hab
  | error he => exact .error he

theorem map {S : γ → σ → Prop} {f : α → γ} {g : β → σ} (h : Alike E R x y)
    (hfg : ∀ a b, R a b → S (f a) (g b)) : Alike E S (f <$> x) (g <$> y) := by
  cases h with
  | ok hab => exact .ok (hfg _ _ hab)
  | error he => exact .error he

theorem map_self {E : ε → ε → Prop} [Std.Refl E] {S : β → γ → Prop} {f : α → β} {g : α → γ}
    (hfg : ∀ a, S (f a) (g a)) (x : Except ε α) : Alike E S (f <$> x) (g <$> x) :=
  (of_eq rfl).map fun a _ heq ↦ heq ▸ hfg a

theorem mapM {f : γ → Except ε α} {g : γ → Except ε' β} {xs : List γ}
    (hfg : ∀ x ∈ xs, Alike E R (f x) (g x)) :
    Alike E (List.Forall₂ R) (xs.mapM f) (xs.mapM g) := by
  induction xs with
  | nil => exact .ok .nil
  | cons x xs ih =>
    rw [List.mapM_cons, List.mapM_cons]
    refine (hfg x (by simp)).bind fun a b hab ↦ ?_
    exact (ih fun z hz ↦ hfg z (List.mem_cons_of_mem _ hz)).bind fun _ _ hrest ↦
      .ok (.cons hab hrest)

theorem foldlM {f : α → γ → Except ε α} {g : β → γ → Except ε' β} {xs : List γ}
    (hfg : ∀ a b, ∀ x ∈ xs, R a b → Alike E R (f a x) (g b x)) {a : α} {b : β}
    (hab : R a b) : Alike E R (xs.foldlM f a) (xs.foldlM g b) := by
  induction xs generalizing a b with
  | nil => exact .ok hab
  | cons x xs ih =>
    rw [List.foldlM_cons, List.foldlM_cons]
    exact (hfg a b x (by simp) hab).bind fun a' b' hab' ↦
      ih (fun a b y hy ↦ hfg a b y (List.mem_cons_of_mem _ hy)) hab'

end Alike

theorem alike_anyError_iff {R : α → β → Prop} {x : Except ε α} {y : Except ε' β} :
    Alike AnyError R x y ↔
      (Succeeds x ↔ Succeeds y) ∧ ∀ a b, x = .ok a → y = .ok b → R a b := by
  constructor
  · intro h
    refine ⟨h.succeeds_iff, ?_⟩
    rintro a b rfl rfl
    cases h with
    | ok hab => exact hab
  · rintro ⟨hsucceeds, hresults⟩
    cases x <;> cases y <;> simp_all [Succeeds]
    · exact .error trivial
    · exact .ok hresults

/-! ### The same result -/

/-- Both computations fail, or they have the same result. -/
abbrev SameResult (x y : Except ε α) : Prop := Alike AnyError Eq x y

theorem sameResult_iff {x y : Except ε α} : SameResult x y ↔ ∀ a, x = .ok a ↔ y = .ok a := by
  constructor
  · rintro (⟨⟨⟩⟩ | h) <;> simp
  · intro h
    cases x with
    | ok a => exact .of_eq ((h a).1 rfl).symm
    | error e => cases y with
      | ok b => exact absurd ((h b).2 rfl) (by simp)
      | error e' => exact .error trivial

namespace SameResult

variable {x y z : Except ε α}

theorem symm (h : SameResult x y) : SameResult y x :=
  sameResult_iff.2 fun a ↦ (sameResult_iff.1 h a).symm

theorem trans (h : SameResult x y) (h' : SameResult y z) : SameResult x z :=
  sameResult_iff.2 fun a ↦ (sameResult_iff.1 h a).trans (sameResult_iff.1 h' a)

theorem bind {f g : α → Except ε β} (h : SameResult x y) (hfg : ∀ a, SameResult (f a) (g a)) :
    SameResult (x >>= f) (y >>= g) :=
  Alike.bind h fun a _ heq ↦ heq ▸ hfg a

theorem map (h : SameResult x y) (f : α → β) : SameResult (f <$> x) (f <$> y) :=
  Alike.map h fun _ _ ↦ congrArg f

theorem mapM {f g : α → Except ε β} {xs : List α} (hfg : ∀ x ∈ xs, SameResult (f x) (g x)) :
    SameResult (xs.mapM f) (xs.mapM g) := by
  simpa only [SameResult, List.forall₂_eq_eq_eq] using Alike.mapM hfg

theorem foldlM {f g : σ → α → Except ε σ} (hfg : ∀ s x, SameResult (f s x) (g s x))
    (xs : List α) (s : σ) : SameResult (xs.foldlM f s) (xs.foldlM g s) :=
  Alike.foldlM (fun s _ x _ heq ↦ heq ▸ hfg s x) rfl

end SameResult

/-- Results that an injective function tells apart are the same where their images are. -/
theorem sameResult_map_iff {x y : Except ε α} {f : α → β} (hf : Function.Injective f) :
    SameResult (f <$> x) (f <$> y) ↔ SameResult x y := by
  refine ⟨fun h ↦ sameResult_iff.2 fun a ↦ ?_, fun h ↦ h.map f⟩
  have hmap : ∀ z : Except ε α, f <$> z = .ok (f a) ↔ z = .ok a := by
    intro z
    simp [hf.eq_iff]
  rw [← hmap x, ← hmap y]
  exact sameResult_iff.1 h (f a)

/-! ## Failure

An upper bound of the errors. It is passed on from the parts of a computation to the whole, so that
an error is excluded where no part can raise it. -/

/-- The computation fails with errors of a kind only, if it fails. -/
def FailsWith (P : ε → Prop) (x : Except ε α) : Prop := ∀ e, x = .error e → P e

variable {P : ε → Prop}

@[simp] theorem failsWith_ok (a : α) : FailsWith P (.ok a : Except ε α) := by
  simp [FailsWith]

@[simp] theorem failsWith_pure (a : α) : FailsWith P (pure a : Except ε α) :=
  failsWith_ok a

@[simp] theorem failsWith_error {e : ε} : FailsWith P (.error e : Except ε α) ↔ P e := by
  simp [FailsWith]

@[simp] theorem failsWith_throw {e : ε} : FailsWith P (throw e : Except ε α) ↔ P e :=
  failsWith_error

theorem FailsWith.bind {x : Except ε α} {f : α → Except ε β} (hx : FailsWith P x)
    (hf : ∀ a, x = .ok a → FailsWith P (f a)) : FailsWith P (x >>= f) := by
  cases x with
  | error e => exact failsWith_error.2 (failsWith_error.1 hx)
  | ok a => exact hf a rfl

theorem FailsWith.map {x : Except ε α} (hx : FailsWith P x) (f : α → β) :
    FailsWith P (f <$> x) := by
  cases x with
  | error e => exact failsWith_error.2 (failsWith_error.1 hx)
  | ok a => exact failsWith_ok (f a)

theorem FailsWith.mapM {f : α → Except ε β} {xs : List α} (hf : ∀ x ∈ xs, FailsWith P (f x)) :
    FailsWith P (xs.mapM f) := by
  induction xs with
  | nil => exact failsWith_pure []
  | cons x xs ih =>
    rw [List.mapM_cons]
    refine (hf x (by simp)).bind fun y _ ↦ ?_
    exact (ih fun z hz ↦ hf z (List.mem_cons_of_mem _ hz)).bind fun ys _ ↦ failsWith_pure _

theorem FailsWith.foldlM {f : σ → α → Except ε σ} {xs : List α}
    (hf : ∀ s, ∀ x ∈ xs, FailsWith P (f s x)) (s : σ) : FailsWith P (xs.foldlM f s) := by
  induction xs generalizing s with
  | nil => exact failsWith_pure s
  | cons x xs ih =>
    rw [List.foldlM_cons]
    exact (hf s x (by simp)).bind fun t _ ↦ ih (fun u z hz ↦ hf u z (List.mem_cons_of_mem _ hz)) t

theorem FailsWith.mapError {x : Except ε α} {f : ε → ε'} {Q : ε' → Prop} (hx : FailsWith P x)
    (hf : ∀ e, P e → Q (f e)) : FailsWith Q (x.mapError f) := by
  cases x with
  | error e => exact failsWith_error.2 (hf e (hx e rfl))
  | ok a => exact failsWith_ok a

end ModelCatalog.Outcome
