import ModelCatalog.Proofs.Query.PropertyPath

/-!
# Plans are vetted

Whatever a request asks for, the names that reach a query builder have been found in the registry.
`Registry.Vetted` describes the plans that the translator can make, block by block: a step that is
safe on its own, or the steps of an order, which select a column behind relations just before
ordering by it. Each parameter adds such blocks, and what the blocks guarantee at each place of a
plan is read off by induction on them.
-/

namespace ModelCatalog

open Outcome

/-! ## Readers -/

private theorem empty_notMem_of_readTexts {key : String} {value : Json} {texts : List String}
    (h : readTexts key value = .ok texts) : "" ∉ texts := by
  intro hempty
  -- an empty text could only come from an empty string, and these are passed over
  obtain ⟨entry, hentry, hread⟩ := exists_left_of_forall₂ (mapM_eq_ok_iff.1 h) hempty
  obtain ⟨-, hnonempty⟩ := List.mem_filter.1 hentry
  cases entry with
  | string text =>
    obtain rfl : text = "" := Except.ok.inj hread
    simp at hnonempty
  | _ => simp at hread

/-! ## The steps of an order -/

namespace PropertyPath

theorem alias?_eq_none_iff {path : PropertyPath} : path.alias? = none ↔ path.relations = [] := by
  simp [alias?, relationNames]

theorem orderSteps_of_none {path : PropertyPath} (h : path.alias? = none) (direction : Direction) :
    path.orderSteps direction = [.orderBy path.column direction] := by
  simp [orderSteps, h]

theorem orderSteps_of_some {path : PropertyPath} {name : String} (h : path.alias? = some name)
    (direction : Direction) : path.orderSteps direction =
      [.select (path.column ++ " as " ++ name), .orderBy path.column direction] := by
  simp [orderSteps, h]

end PropertyPath

namespace Registry

variable {registry : Registry} {model : String}

private theorem findScope_eq_ok_iff {name : String} {scope : ScopeDefinition} :
    registry.findScope model name = .ok scope ↔
      ∃ m, registry.lookup model = some m ∧ m.scope? name = some scope := by
  simp only [findScope, bind_eq_ok_iff, find_eq_ok_iff]
  refine exists_congr fun m ↦ and_congr_right fun _ ↦ ?_
  cases m.scope? name with
  | none => simp
  | some found => simp

/-! ## Vetted plans

A step that orders or selects is not safe on its own. It is part of a block, which also holds what
makes it safe. -/

/-- The name is that of a scope of the model. -/
def DeclaresScope (registry : Registry) (model name : String) : Prop :=
  ∃ m, registry.lookup model = some m ∧ (m.scope? name).isSome

/-- The name is that of a model. -/
def Names (registry : Registry) (name : String) : Prop :=
  ∃ given m, registry.lookup given = some m ∧ m.name = name

/-- Queries on the model may be ordered by what the path leads to. -/
def Orders (registry : Registry) (model : String) (path : PropertyPath) : Prop :=
  (∃ reference, registry.propertyPath model reference = .ok path) ∧
    ∀ relation ∈ path.relations, relation.2.isOneToOne

/-- The entry of an order orders by what the path leads to, in the direction. -/
def OrdersBy (registry : Registry) (model entry : String) (order : PropertyPath × Direction) :
    Prop :=
  ∃ reference, readOrderEntry? entry = some (reference, order.2) ∧
    registry.propertyPath model reference = .ok order.1 ∧ order.1.isOneToOne

/-- A step that is safe wherever it stands. -/
def Safe (registry : Registry) (model : String) : Step → Prop
  | .filter _ condition => ∃ path, registry.propertyPath model condition.reference = .ok path
  | .orderBy _ _ | .select _ => False
  | .mergeScope names => names ≠ [] ∧ "" ∉ names ∧ ∀ name ∈ names, registry.DeclaresScope model name
  | .mergeEagerScope names => names ≠ [] ∧ "" ∉ names
  | .pick name _ | .omit name _ => registry.Names name
  | .range _ _ | .limit _ | .offset _ | .mergeEager _ => True

/-- The plans that are made up of safe steps and of the steps of orders. -/
inductive Vetted (registry : Registry) (model : String) : List Step → Prop where
  | nil : Vetted registry model []
  | safe {step : Step} {plan : List Step} :
      registry.Safe model step → Vetted registry model plan → Vetted registry model (step :: plan)
  | order {path : PropertyPath} {direction : Direction} {plan : List Step} :
      registry.Orders model path → Vetted registry model plan →
        Vetted registry model (path.orderSteps direction ++ plan)

namespace Vetted

theorem of_forall_safe {plan : List Step} (h : ∀ step ∈ plan, registry.Safe model step) :
    registry.Vetted model plan := by
  induction plan with
  | nil => exact .nil
  | cons step plan ih =>
    exact .safe (h step (by simp)) (ih fun other hother ↦ h other (List.mem_cons_of_mem _ hother))

theorem map {α : Type} {step : α → Step} (hstep : ∀ a, registry.Safe model (step a)) (as : List α) :
    registry.Vetted model (as.map step) := by
  refine .of_forall_safe fun taken htaken ↦ ?_
  obtain ⟨a, -, rfl⟩ := List.mem_map.1 htaken
  exact hstep a

theorem append {first second : List Step} (hfirst : registry.Vetted model first)
    (hsecond : registry.Vetted model second) : registry.Vetted model (first ++ second) := by
  induction hfirst with
  | nil => exact hsecond
  | safe hstep _ ih => exact .safe hstep ih
  | order hpath _ ih =>
    rw [List.append_assoc]
    exact .order hpath ih

theorem flatten {plans : List (List Step)} (h : ∀ plan ∈ plans, registry.Vetted model plan) :
    registry.Vetted model plans.flatten := by
  induction plans with
  | nil => exact .nil
  | cons plan plans ih =>
    rw [List.flatten_cons]
    exact (h plan (by simp)).append (ih fun other hother ↦ h other (List.mem_cons_of_mem _ hother))

end Vetted

/-! ## The parameters

One lemma for each kind of parameter: the steps that it adds are vetted. -/

private theorem vetted_planConditions {kind : WhereKind} {value : Json} {plan : List Step}
    (h : registry.planConditions model kind value = .ok plan) : registry.Vetted model plan := by
  obtain ⟨filters, -, hplan⟩ := bind_eq_ok_iff.1 h
  refine .of_forall_safe fun step hstep ↦ ?_
  obtain ⟨filter, -, hfilter⟩ := exists_left_of_forall₂ (mapM_eq_ok_iff.1 hplan) hstep
  obtain ⟨path, hpath, hstep⟩ := bind_eq_ok_iff.1 hfilter
  rw [← pure_eq_ok_iff.1 hstep]
  exact ⟨path, hpath⟩

theorem planOrderEntry_eq_ok_iff {value : Json} {entry : String} {steps : List Step} :
    registry.planOrderEntry model value entry = .ok steps ↔
      ∃ order, registry.OrdersBy model entry order ∧ order.1.orderSteps order.2 = steps := by
  rw [planOrderEntry]
  cases hread : readOrderEntry? entry with
  | none => simp [OrdersBy, hread]
  | some read =>
    obtain ⟨reference, direction⟩ := read
    constructor
    · intro h
      obtain ⟨path, hpath, h⟩ := bind_eq_ok_iff.1 h
      by_cases hone : path.isOneToOne
      · have hsteps : path.orderSteps direction = steps := by
          simpa [hone] using h
        exact ⟨(path, direction), ⟨reference, hread, hpath, hone⟩, hsteps⟩
      · simp [hone] at h
    · rintro ⟨⟨path, direction'⟩, ⟨reference', hread', hpath, hone⟩, rfl⟩
      obtain ⟨rfl, rfl⟩ := Prod.mk.inj (Option.some.inj (hread.symm.trans hread'))
      refine bind_eq_ok_iff.2 ⟨path, hpath, ?_⟩
      simp [hone]

private theorem vetted_planOrderEntry {value : Json} {entry : String} {plan : List Step}
    (h : registry.planOrderEntry model value entry = .ok plan) : registry.Vetted model plan := by
  obtain ⟨⟨path, direction⟩, ⟨reference, -, hpath, hone⟩, rfl⟩ := planOrderEntry_eq_ok_iff.1 h
  have horders : registry.Orders model path :=
    ⟨⟨reference, hpath⟩, by simpa [PropertyPath.isOneToOne] using hone⟩
  rw [← List.append_nil (path.orderSteps direction)]
  exact .order horders .nil

private theorem vetted_planProperties {key : String} {step : String → List String → Step}
    {value : Json} {plan : List Step} (h : registry.planProperties key step value = .ok plan)
    (hstep : ∀ name properties, registry.Names name → registry.Safe model (step name properties)) :
    registry.Vetted model plan := by
  obtain ⟨expression, -, hplan⟩ := bind_eq_ok_iff.1 h
  refine .of_forall_safe fun taken htaken ↦ ?_
  obtain ⟨⟨name, properties⟩, -, hentry⟩ := exists_left_of_forall₂ (mapM_eq_ok_iff.1 hplan) htaken
  cases hlookup : registry.lookup name with
  | none => simp [hlookup] at hentry
  | some m =>
    obtain rfl : step m.name properties = taken := by simpa [hlookup] using hentry
    exact hstep _ _ ⟨name, m, hlookup, rfl⟩

private theorem vetted_namesStep {step : List String → Step} {names : List String}
    (hstep : names ≠ [] → registry.Safe model (step names)) :
    registry.Vetted model (namesStep step names) := by
  rw [namesStep]
  split
  · exact .nil
  · rename_i hnames
    exact .safe (hstep (by simpa using hnames)) .nil

theorem vetted_planParameter {parameter : Parameter} {value : Json} {plan : List Step}
    (h : registry.planParameter model parameter value = .ok plan) :
    registry.Vetted model plan := by
  cases parameter with
  | conditions kind => exact vetted_planConditions h
  | eager =>
    obtain ⟨texts, -, hplan⟩ := bind_eq_ok_iff.1 h
    rw [← pure_eq_ok_iff.1 hplan]
    refine .map (fun _ ↦ ?_) texts
    trivial
  | scope =>
    obtain ⟨names, hnames, h⟩ := bind_eq_ok_iff.1 h
    obtain ⟨⟨⟩, hscopes, hplan⟩ := bind_eq_ok_iff.1 h
    rw [← pure_eq_ok_iff.1 hplan]
    refine vetted_namesStep fun hne ↦ ⟨hne, empty_notMem_of_readTexts hnames, fun name hname ↦ ?_⟩
    obtain ⟨scope, hscope, -⟩ := bind_eq_ok_iff.1 (forM_eq_ok_iff.1 hscopes name hname)
    obtain ⟨m, hm, hfound⟩ := findScope_eq_ok_iff.1 hscope
    exact ⟨m, hm, Option.isSome_of_eq_some hfound⟩
  | eagerScope =>
    obtain ⟨names, hnames, hplan⟩ := bind_eq_ok_iff.1 h
    rw [← pure_eq_ok_iff.1 hplan]
    exact vetted_namesStep fun hne ↦ ⟨hne, empty_notMem_of_readTexts hnames⟩
  | range =>
    obtain ⟨range, -, hplan⟩ := bind_eq_ok_iff.1 h
    rw [← pure_eq_ok_iff.1 hplan]
    refine .map (fun _ ↦ ?_) range.toList
    trivial
  | limit =>
    obtain ⟨count, -, hplan⟩ := bind_eq_ok_iff.1 h
    rw [← pure_eq_ok_iff.1 hplan]
    refine .map (fun _ ↦ ?_) count.toList
    trivial
  | offset =>
    obtain ⟨count, -, hplan⟩ := bind_eq_ok_iff.1 h
    rw [← pure_eq_ok_iff.1 hplan]
    refine .map (fun _ ↦ ?_) count.toList
    trivial
  | order =>
    obtain ⟨entries, -, h⟩ := bind_eq_ok_iff.1 h
    obtain ⟨plans, hplans, hplan⟩ := bind_eq_ok_iff.1 h
    rw [← pure_eq_ok_iff.1 hplan]
    refine .flatten fun part hpart ↦ ?_
    obtain ⟨entry, -, hentry⟩ := exists_left_of_forall₂ (mapM_eq_ok_iff.1 hplans) hpart
    exact vetted_planOrderEntry hentry
  | _ => exact vetted_planProperties h fun _ _ hname ↦ hname

/-- The keys of a query that is planned are allowed, and its plan is vetted. -/
theorem vetted_planQuery {allowed : AllowedParameters} {params : Fields Json} {plan : List Step}
    (h : registry.planQuery allowed model params = .ok plan) :
    (∀ entry ∈ params, allowed.contains entry.1) ∧ registry.Vetted model plan := by
  obtain ⟨-, -, h⟩ := bind_eq_ok_iff.1 h
  obtain ⟨plans, hplans, hplan⟩ := bind_eq_ok_iff.1 h
  -- an entry is planned by the parameter of its key, so the key has one
  have hentries : List.Forall₂ (fun entry part ↦ allowed.contains entry.1 ∧
      registry.Vetted model part) params plans := by
    refine (mapM_eq_ok_iff.1 hplans).imp fun entry part hpart ↦ ?_
    rw [planEntry] at hpart
    split at hpart
    · rename_i parameter hfind
      exact ⟨Option.isSome_of_eq_some hfind, vetted_planParameter hpart⟩
    · simp at hpart
  rw [← pure_eq_ok_iff.1 hplan]
  constructor
  · intro entry hentry
    obtain ⟨part, -, hallowed, -⟩ := exists_right_of_forall₂ hentries hentry
    exact hallowed
  · refine .flatten fun part hpart ↦ ?_
    obtain ⟨entry, -, -, hvetted⟩ := exists_left_of_forall₂ hentries hpart
    exact hvetted

/-! ## What stands where

By induction on the blocks, which are never split: what a step relies on stands in its own block. -/

namespace Vetted

/-- A step of a vetted plan is safe unless it belongs to an order. -/
theorem safe_of_mem {plan : List Step} (h : registry.Vetted model plan) {step : Step}
    (hstep : step ∈ plan) (horder : ∀ column direction, step ≠ .orderBy column direction)
    (hselect : ∀ expression, step ≠ .select expression) : registry.Safe model step := by
  induction h with
  | nil => simp at hstep
  | safe hsafe _ ih =>
    rcases List.mem_cons.1 hstep with rfl | hstep
    · exact hsafe
    · exact ih hstep
  | order _ _ ih =>
    rcases List.mem_append.1 hstep with hstep | hstep
    · rcases List.mem_append.1 hstep with hstep | hstep
      · obtain ⟨name, -, rfl⟩ := List.mem_map.1 hstep
        exact absurd rfl (hselect _)
      · exact absurd (List.mem_singleton.1 hstep) (horder _ _)
    · exact ih hstep

/-- The plan orders by the column at the place, and has selected it just before if it is behind
relations. -/
def OrdersAt (registry : Registry) (model : String) (plan : List Step) (i : Nat) (column : String) :
    Prop :=
  ∃ path, registry.Orders model path ∧ column = path.column ∧ ∀ name, path.alias? = some name →
    ∃ j, i = j + 1 ∧ plan[j]? = some (.select (column ++ " as " ++ name))

theorem OrdersAt.cons {plan : List Step} {i : Nat} {column : String}
    (h : OrdersAt registry model plan i column) (step : Step) :
    OrdersAt registry model (step :: plan) (i + 1) column := by
  obtain ⟨path, hpath, hcolumn, hselect⟩ := h
  refine ⟨path, hpath, hcolumn, fun name hname ↦ ?_⟩
  obtain ⟨j, rfl, hj⟩ := hselect name hname
  exact ⟨j + 1, rfl, hj⟩

/-- A step that orders does so by a path, whose column has been selected if it is behind
relations. -/
theorem ordersAt {plan : List Step} (h : registry.Vetted model plan) {i : Nat}
    {column : String} {direction : Direction} (hi : plan[i]? = some (.orderBy column direction)) :
    OrdersAt registry model plan i column := by
  induction h generalizing i with
  | nil => simp at hi
  | safe hsafe _ ih =>
    cases i with
    | zero =>
      obtain rfl := Option.some.inj hi
      exact hsafe.elim
    | succ i => exact (ih hi).cons _
  | @order path direction plan hpath _ ih =>
    -- an order takes up one place of the plan, or two if it selects
    cases halias : path.alias? with
    | none =>
      rw [PropertyPath.orderSteps_of_none halias] at hi ⊢
      cases i with
      | zero =>
        obtain ⟨rfl, rfl⟩ := Step.orderBy.inj (Option.some.inj hi)
        exact ⟨path, hpath, rfl, fun name hname ↦ by simp [halias] at hname⟩
      | succ i => exact (ih hi).cons _
    | some selected =>
      rw [PropertyPath.orderSteps_of_some halias] at hi ⊢
      rcases i with _ | _ | i
      · simp at hi
      · obtain ⟨rfl, rfl⟩ := Step.orderBy.inj (Option.some.inj hi)
        refine ⟨path, hpath, rfl, fun name hname ↦ ⟨0, rfl, ?_⟩⟩
        obtain rfl := Option.some.inj (halias.symm.trans hname)
        rfl
      · exact ((ih hi).cons _).cons _

/-- A step that selects stands just before one that orders by what it selects. -/
theorem exists_of_select {plan : List Step} (h : registry.Vetted model plan) {i : Nat}
    {expression : String} (hi : plan[i]? = some (.select expression)) :
    ∃ path name direction, registry.Orders model path ∧ path.alias? = some name ∧
      expression = path.column ++ " as " ++ name ∧
        plan[i + 1]? = some (.orderBy path.column direction) := by
  induction h generalizing i with
  | nil => simp at hi
  | safe hsafe _ ih =>
    cases i with
    | zero =>
      obtain rfl := Option.some.inj hi
      exact hsafe.elim
    | succ i => exact ih hi
  | @order path direction plan hpath _ ih =>
    cases halias : path.alias? with
    | none =>
      rw [PropertyPath.orderSteps_of_none halias] at hi ⊢
      cases i with
      | zero => simp at hi
      | succ i => exact ih hi
    | some selected =>
      rw [PropertyPath.orderSteps_of_some halias] at hi ⊢
      rcases i with _ | _ | i
      · obtain rfl := Step.select.inj (Option.some.inj hi)
        exact ⟨path, selected, direction, hpath, halias, rfl, rfl⟩
      · simp at hi
      · exact ih hi

end Vetted

/-- What a plan for a query on a model guarantees to the query builder that takes its steps. -/
structure Guarantees (registry : Registry) (allowed : AllowedParameters) (model : String)
    (params : Fields Json) (plan : List Step) : Prop where
  keys_allowed : ∀ entry ∈ params, allowed.contains entry.1
  filter_reference : ∀ kind condition, .filter kind condition ∈ plan →
    ∃ path, registry.propertyPath model condition.reference = .ok path
  orderBy_column : ∀ (i : Nat) column direction, plan[i]? = some (.orderBy column direction) →
    ∃ path, registry.Orders model path ∧ column = path.column ∧ (path.relations ≠ [] →
      ∃ j name, i = j + 1 ∧ path.alias? = some name ∧
        plan[j]? = some (.select (column ++ " as " ++ name)))
  select_orderBy : ∀ (i : Nat) expression, plan[i]? = some (.select expression) →
    ∃ path name direction, registry.Orders model path ∧ path.relations ≠ [] ∧
      path.alias? = some name ∧ expression = path.column ++ " as " ++ name ∧
        plan[i + 1]? = some (.orderBy path.column direction)
  mergeScope_names : ∀ names, .mergeScope names ∈ plan →
    names ≠ [] ∧ "" ∉ names ∧ ∀ name ∈ names, registry.DeclaresScope model name
  mergeEagerScope_names : ∀ names, .mergeEagerScope names ∈ plan → names ≠ [] ∧ "" ∉ names
  pick_model : ∀ name properties, .pick name properties ∈ plan → registry.Names name
  omit_model : ∀ name properties, .omit name properties ∈ plan → registry.Names name

/-- **Planning a query.** -/
theorem planQuery_guarantees {allowed : AllowedParameters} {params : Fields Json} {plan : List Step}
    (h : registry.planQuery allowed model params = .ok plan) :
    registry.Guarantees allowed model params plan := by
  obtain ⟨hallowed, hvetted⟩ := vetted_planQuery h
  refine ⟨hallowed, ?_, ?_, ?_, ?_, ?_, ?_, ?_⟩
  · exact fun _ _ hmem ↦ hvetted.safe_of_mem hmem (by simp) (by simp)
  · intro i column direction hi
    obtain ⟨path, hpath, hcolumn, hselect⟩ := hvetted.ordersAt hi
    refine ⟨path, hpath, hcolumn, fun hrelations ↦ ?_⟩
    obtain ⟨name, hname⟩ := Option.ne_none_iff_exists'.1
      (mt PropertyPath.alias?_eq_none_iff.1 hrelations)
    obtain ⟨j, hij, hj⟩ := hselect name hname
    exact ⟨j, name, hij, hname, hj⟩
  · intro i expression hi
    obtain ⟨path, name, direction, hpath, hname, hexpression, hnext⟩ := hvetted.exists_of_select hi
    have hrelations : path.relations ≠ [] := fun hnil ↦ by
      simp [PropertyPath.alias?_eq_none_iff.2 hnil] at hname
    exact ⟨path, name, direction, hpath, hrelations, hname, hexpression, hnext⟩
  · exact fun _ hmem ↦ hvetted.safe_of_mem hmem (by simp) (by simp)
  · exact fun _ hmem ↦ hvetted.safe_of_mem hmem (by simp) (by simp)
  · exact fun _ _ hmem ↦ hvetted.safe_of_mem hmem (by simp) (by simp)
  · exact fun _ _ hmem ↦ hvetted.safe_of_mem hmem (by simp) (by simp)

def usersAndProfiles : Registry :=
  let profile : Relation := ⟨.hasOne, "Profile",
    ⟨.single "User.id", .single "Profile.userId", none⟩, none, []⟩
  exact [⟨"User", "users", ["id"], [("lastName", .string "string")], [("profile", profile)],
      [("active", ⟨none, [], none⟩)]⟩,
    ⟨"Profile", "profiles", ["id"], [("city", .string "string")], [], []⟩]

/-- A query on users that uses every kind of name. -/
def usersQuery : Fields Json :=
  [("where", .object [("profile", .object [("city like", .string "A%")])]),
    ("order", .array [.string "lastName desc", .string "profile.city"]),
    ("scope", .string "active"), ("eagerScope", .string "recent"),
    ("pick", .array [.string "User[lastName]"]), ("omit", .string "Profile[city]")]

theorem planQuery_guarantees_usersQuery :
    ∃ plan, usersAndProfiles.planQuery .all "User" usersQuery = .ok plan ∧ plan.length = 8 ∧
      usersAndProfiles.Guarantees .all "User" usersQuery plan := by
  have hlength : (usersAndProfiles.planQuery .all "User" usersQuery).toOption.map List.length =
      some 8 := by
    decide +kernel
  cases h : usersAndProfiles.planQuery .all "User" usersQuery with
  | error e => simp [h, Except.toOption] at hlength
  | ok plan =>
    exact ⟨plan, rfl, by simpa [h, Except.toOption] using hlength, planQuery_guarantees h⟩

end Registry

end ModelCatalog
