import ModelCatalog.Model.Catalog
import ModelCatalog.Proofs.Query.Vetting

/-!
# Names of selected columns

An order by a column behind relations also selects this column, under a name that is made up of the
last relation's name and the property, whose first letter becomes a capital.

## What a name loses

Three things are lost in such a name: the relations before the last one, the case of the property's
first letter, and the place where the last relation's name ends. So different columns may be
selected under one name, and they are exactly where one of the three tells their paths apart
(`PropertyPath.Confuses`).
-/

namespace ModelCatalog

open Outcome Text

/-! ## Names behind `as` -/

/-- What stands behind the first ` as ` of a text. -/
def behindAs? : List Char → Option (List Char)
  | ' ' :: 'a' :: 's' :: ' ' :: cs => some cs
  | _ :: cs => behindAs? cs
  | [] => none

private theorem behindAs?_cons_of_ne {c : Char} (h : c ≠ ' ') (cs : List Char) :
    behindAs? (c :: cs) = behindAs? cs := by
  rw [behindAs?]
  rintro rest rfl
  exact absurd rfl h

private theorem behindAs?_append {cs : List Char} (h : ' ' ∉ cs) (name : List Char) :
    behindAs? (cs ++ " as ".toList ++ name) = some name := by
  induction cs with
  | nil => rfl
  | cons c cs ih =>
    rw [List.mem_cons, not_or] at h
    rw [List.cons_append, List.cons_append, behindAs?_cons_of_ne (Ne.symm h.1), ih h.2]

def Step.selectedName? : Step → Option String
  | .select expression => (behindAs? expression.toList).map String.ofList
  | _ => none

/-- Some step of either list selects a column under the same name. -/
def SelectsOneName (steps others : List Step) : Prop :=
  ∃ step ∈ steps, ∃ other ∈ others, ∃ name,
    step.selectedName? = some name ∧ other.selectedName? = some name

/-! ## Paths -/

/-- Where the one text ends earlier, the other goes on with what the one is followed by. -/
theorem append_eq_append_iff {r s t u : String} : r ++ t = s ++ u ↔
    (∃ rest, s = r ++ rest ∧ t = rest ++ u) ∨ ∃ rest, r = s ++ rest ∧ u = rest ++ t := by
  have hlift : ∀ {a b c d : String}, (∃ rest, b = a ++ rest ∧ c = rest ++ d) ↔
      ∃ rest, b.toList = a.toList ++ rest ∧ c.toList = rest ++ d.toList := by
    intro a b c d
    constructor
    · rintro ⟨rest, rfl, rfl⟩
      exact ⟨rest.toList, String.toList_append, String.toList_append⟩
    · rintro ⟨rest, hb, hc⟩
      refine ⟨String.ofList rest, ?_, ?_⟩ <;> rw [← String.toList_inj] <;> simpa
  rw [hlift, hlift, ← String.toList_inj, String.toList_append, String.toList_append,
    List.append_eq_append_iff]

namespace PropertyPath

variable {p q : PropertyPath}

/-- What is lost in the names of selected columns tells the paths apart: the way to the last
relation, the case of the property's first letter, or where the name of the last relation ends. -/
inductive Confuses (p q : PropertyPath) : Prop where
  | way (last : String) (hp : p.relationNames.getLast? = some last)
      (hq : q.relationNames.getLast? = some last) (hnames : p.relationNames ≠ q.relationNames)
      (hproperty : p.property = q.property)
  | letter (last : String) (hp : p.relationNames.getLast? = some last)
      (hq : q.relationNames.getLast? = some last) (hproperty : p.property ≠ q.property)
      (hcapital : capitalize p.property = capitalize q.property)
  | ending (last rest : String) (hrest : rest ≠ "") (hp : p.relationNames.getLast? = some last)
      (hq : q.relationNames.getLast? = some (last ++ rest))
      (hcapital : capitalize p.property = rest ++ capitalize q.property)

theorem alias?_eq_some_iff {name : String} : p.alias? = some name ↔
    ∃ last, p.relationNames.getLast? = some last ∧ last ++ capitalize p.property = name := by
  rw [alias?, Option.map_eq_some_iff]

private theorem column_eq_of_getLast? {last : String} (h : p.relationNames.getLast? = some last) :
    p.column = ":".intercalate p.relationNames ++ "." ++ p.property := by
  rw [column, if_neg]
  intro hempty
  rw [relationNames, List.isEmpty_iff.1 hempty] at h
  cases h

/-- **One alias for different columns.** -/
theorem exists_alias?_iff (h : p.column ≠ q.column) :
    (∃ name, p.alias? = some name ∧ q.alias? = some name) ↔ p.Confuses q ∨ q.Confuses p := by
  constructor
  · rintro ⟨name, hp, hq⟩
    obtain ⟨last, hlast, rfl⟩ := alias?_eq_some_iff.1 hp
    obtain ⟨last', hlast', heq⟩ := alias?_eq_some_iff.1 hq
    -- the name of one relation may go on where that of the other has ended
    have hends : ∀ {p q : PropertyPath} {last last' rest : String}, p.column ≠ q.column →
        p.relationNames.getLast? = some last → q.relationNames.getLast? = some last' →
        last' = last ++ rest → capitalize p.property = rest ++ capitalize q.property →
        p.Confuses q := by
      rintro p q last last' rest hcolumn hlast hlast' rfl hcapital
      by_cases hrest : rest = ""
      · subst hrest
        rw [String.append_empty] at hlast'
        rw [String.empty_append] at hcapital
        by_cases hproperty : p.property = q.property
        · refine .way last hlast hlast' (fun hnames ↦ hcolumn ?_) hproperty
          rw [column_eq_of_getLast? hlast, column_eq_of_getLast? hlast', hnames, hproperty]
        · exact .letter last hlast hlast' hproperty hcapital
      · exact .ending last rest hrest hlast hlast' hcapital
    rcases append_eq_append_iff.1 heq with ⟨rest, hrest, hcapital⟩ | ⟨rest, hrest, hcapital⟩
    · exact .inr (hends (Ne.symm h) hlast' hlast hrest hcapital)
    · exact .inl (hends h hlast hlast' hrest hcapital)
  · have hname : ∀ {p q : PropertyPath}, p.Confuses q →
        ∃ name, p.alias? = some name ∧ q.alias? = some name := by
      intro p q hconfuses
      cases hconfuses with
      | way last hp hq hnames hproperty =>
        exact ⟨_, alias?_eq_some_iff.2 ⟨last, hp, rfl⟩,
          alias?_eq_some_iff.2 ⟨last, hq, by rw [hproperty]⟩⟩
      | letter last hp hq hproperty hcapital =>
        exact ⟨_, alias?_eq_some_iff.2 ⟨last, hp, rfl⟩,
          alias?_eq_some_iff.2 ⟨last, hq, by rw [hcapital]⟩⟩
      | ending last rest hrest hp hq hcapital =>
        exact ⟨_, alias?_eq_some_iff.2 ⟨last, hp, rfl⟩,
          alias?_eq_some_iff.2 ⟨_, hq, by rw [hcapital, String.append_assoc]⟩⟩
    rintro (hconfuses | hconfuses)
    · exact hname hconfuses
    · obtain ⟨name, hq, hp⟩ := hname hconfuses
      exact ⟨name, hp, hq⟩

/-- Town of the home, name of the home town. -/
example : Confuses ⟨[("home", .belongsToOne)], "townName", "Home", "users"⟩
    ⟨[("homeTown", .belongsToOne)], "name", "Town", "users"⟩ :=
  .ending "home" "Town" (by decide) rfl rfl (by decide)

end PropertyPath

namespace Registry

variable {registry : Registry} {model entry reference : String} {p : PropertyPath}

/-! ## Texts without blanks

The name of a selected column is what stands behind ` as `. It can be told from the column because
no column has a blank: the reference was one of several words. -/

/-- The names on a path are segments of its reference. -/
theorem mem_splitAt_of_propertyPath (h : registry.propertyPath model reference = .ok p) :
    (∀ name ∈ p.relationNames, name ∈ splitAt '.' reference) ∧
      p.property ∈ splitAt '.' reference := by
  obtain ⟨root, relations, last, -, -, hfollow, -, rfl⟩ := propertyPath_eq_ok_iff.1 h
  have hne := splitAt_ne_nil '.' reference
  constructor
  · intro name hname
    rw [PropertyPath.relationNames, map_fst_of_follow hfollow] at hname
    exact (List.dropLast_sublist _).subset hname
  · dsimp only
    rw [propertyOf, List.getLastD_eq_getLast?, List.getLast?_eq_some_getLast hne,
      Option.getD_some]
    exact List.getLast_mem hne

/-- The column of a path has a blank only where its reference has one. -/
theorem blank_notMem_column (h : registry.propertyPath model reference = .ok p)
    (hreference : ' ' ∉ reference.toList) {last : String}
    (hlast : p.relationNames.getLast? = some last) : ' ' ∉ p.column.toList := by
  obtain ⟨hnames, hproperty⟩ := mem_splitAt_of_propertyPath h
  have hsegment : ∀ segment ∈ splitAt '.' reference, ∀ c ∈ segment.toList, c ≠ ' ' := by
    rintro segment hsegment c hc rfl
    obtain ⟨piece, hpiece, rfl⟩ := List.mem_map.1 hsegment
    rw [String.toList_ofList] at hc
    exact hreference (mem_of_mem_splitOn hpiece hc)
  have hjoined : ∀ c ∈ (":".toList).intercalate (p.relationNames.map String.toList), c ≠ ' ' := by
    have hcolon : ∀ c ∈ ":".toList, c ≠ ' ' := fun c hc ↦ by
      obtain rfl : c = ':' := List.mem_singleton.1 hc
      decide
    refine forall_mem_intercalate hcolon fun piece hpiece ↦ ?_
    obtain ⟨name, hname, rfl⟩ := List.mem_map.1 hpiece
    exact hsegment name (hnames name hname)
  rw [PropertyPath.column_eq_of_getLast? hlast, String.toList_append, String.toList_append,
    String.toList_intercalate]
  intro hblank
  rcases List.mem_append.1 hblank with hblank | hblank
  · rcases List.mem_append.1 hblank with hblank | hblank
    · exact hjoined ' ' hblank rfl
    · exact absurd hblank (by decide)
  · exact hsegment p.property hproperty ' ' hblank rfl

/-! ## The steps of an order -/

private theorem mem_words_of_orderEntry {direction : Direction}
    (h : readOrderEntry? entry = some (reference, direction)) : reference ∈ words entry := by
  unfold readOrderEntry? at h
  split at h
  · rename_i hwords
    obtain ⟨rfl, -⟩ := Prod.mk.inj (Option.some.inj h)
    simp [hwords]
  · rename_i hwords
    obtain ⟨direction', -, h⟩ := Option.map_eq_some_iff.1 h
    obtain ⟨rfl, -⟩ := Prod.mk.inj h
    simp [hwords]
  · cases h

/-- The text of an entry decides what is ordered by. -/
theorem OrdersBy.eq_of_orderEntry {order : PropertyPath × Direction} {direction : Direction}
    (h : registry.OrdersBy model entry order)
    (hread : readOrderEntry? entry = some (reference, direction))
    (hpath : registry.propertyPath model reference = .ok p) : order = (p, direction) := by
  obtain ⟨reference', hread', hpath', -⟩ := h
  obtain ⟨rfl, rfl⟩ := Prod.mk.inj (Option.some.inj (hread.symm.trans hread'))
  obtain rfl := Except.ok.inj (hpath.symm.trans hpath')
  rfl

/-- The name under which the steps of an order select is the alias of the path. -/
theorem exists_selectedName?_iff {order : PropertyPath × Direction}
    (h : registry.OrdersBy model entry order) {name : String} :
    (∃ step ∈ order.1.orderSteps order.2, step.selectedName? = some name) ↔
      order.1.alias? = some name := by
  obtain ⟨reference, hread, hpath, -⟩ := h
  have hreference : ' ' ∉ reference.toList := fun hblank ↦ by
    have hfree := isBlank_of_mem_words (mem_words_of_orderEntry hread) hblank
    exact absurd hfree (by decide)
  cases halias : order.1.alias? with
  | none => simp [PropertyPath.orderSteps_of_none halias, Step.selectedName?]
  | some selected =>
    obtain ⟨last, hlast, -⟩ := PropertyPath.alias?_eq_some_iff.1 halias
    have hcolumn := blank_notMem_column hpath hreference hlast
    have hselected : (Step.select (order.1.column ++ " as " ++ selected)).selectedName? =
        some selected := by
      rw [Step.selectedName?, String.toList_append, String.toList_append,
        behindAs?_append hcolumn, Option.map_some, String.ofList_toList]
    have hordered : (Step.orderBy order.1.column order.2).selectedName? = none := rfl
    simp [PropertyPath.orderSteps_of_some halias, hselected, hordered]

private theorem selectsOneName_iff_exists_alias? {entry' : String}
    {order order' : PropertyPath × Direction}
    (h : registry.OrdersBy model entry order) (h' : registry.OrdersBy model entry' order') :
    SelectsOneName (order.1.orderSteps order.2) (order'.1.orderSteps order'.2) ↔
      ∃ name, order.1.alias? = some name ∧ order'.1.alias? = some name := by
  simp only [← exists_selectedName?_iff h, ← exists_selectedName?_iff h', SelectsOneName]
  constructor
  · rintro ⟨step, hstep, other, hother, name, hname, hname'⟩
    exact ⟨name, ⟨step, hstep, hname⟩, other, hother, hname'⟩
  · rintro ⟨name, ⟨step, hstep, hname⟩, other, hother, hname'⟩
    exact ⟨step, hstep, other, hother, name, hname, hname'⟩

/-! ## Orders in a query -/

/-- The steps of a parameter are in the plan of a query, one behind the other. -/
theorem exists_infix_of_planQuery {allowed : AllowedParameters} {params : Fields Json}
    {plan : List Step} (h : registry.planQuery allowed model params = .ok plan)
    {parameter : Parameter} {value : Json} (hvalue : (parameter.key, value) ∈ params) :
    ∃ steps, registry.planParameter model parameter value = .ok steps ∧ steps <:+: plan := by
  obtain ⟨-, -, h⟩ := bind_eq_ok_iff.1 h
  obtain ⟨parts, hparts, hplan⟩ := bind_eq_ok_iff.1 h
  obtain ⟨steps, hsteps, hentry⟩ := exists_right_of_forall₂ (mapM_eq_ok_iff.1 hparts) hvalue
  rw [planEntry] at hentry
  split at hentry
  · rename_i found hfind
    rw [AllowedParameters.find?_key (Option.isSome_of_eq_some hfind)] at hfind
    obtain rfl := Option.some.inj hfind
    rw [← pure_eq_ok_iff.1 hplan]
    exact ⟨steps, hentry, List.infix_of_mem_flatten hsteps⟩
  · cases hentry

private theorem exists_orders_of_planParameter {value : Json} {steps : List Step}
    (h : registry.planParameter model .order value = .ok steps) :
    ∃ entries orders, readTexts "order" value = .ok entries ∧
      List.Forall₂ (registry.OrdersBy model) entries orders ∧
      (orders.flatMap fun order ↦ order.1.orderSteps order.2) = steps := by
  obtain ⟨entries, hentries, h⟩ := bind_eq_ok_iff.1 h
  obtain ⟨parts, hparts, hsteps⟩ := bind_eq_ok_iff.1 h
  rw [← pure_eq_ok_iff.1 hsteps]
  have hall := mapM_eq_ok_iff.1 hparts
  refine ⟨entries, ?_⟩
  suffices ∃ orders, List.Forall₂ (registry.OrdersBy model) entries orders ∧
      (orders.flatMap fun order ↦ order.1.orderSteps order.2) = parts.flatten by
    obtain ⟨orders, horders, hflat⟩ := this
    exact ⟨orders, hentries, horders, hflat⟩
  clear hentries hparts hsteps h
  induction hall with
  | nil => exact ⟨[], .nil, rfl⟩
  | cons hentry _ ih =>
    obtain ⟨order, horder, rfl⟩ := planOrderEntry_eq_ok_iff.1 hentry
    obtain ⟨orders, horders, hflat⟩ := ih
    exact ⟨order :: orders, .cons horder horders, by
      rw [List.flatMap_cons, List.flatten_cons, hflat]⟩

theorem exists_orders_of_planQuery {allowed : AllowedParameters} {params : Fields Json}
    {plan : List Step} (h : registry.planQuery allowed model params = .ok plan) {value : Json}
    (hvalue : ("order", value) ∈ params) :
    ∃ entries orders, readTexts "order" value = .ok entries ∧
      List.Forall₂ (registry.OrdersBy model) entries orders ∧
      (orders.flatMap fun order ↦ order.1.orderSteps order.2) <:+: plan := by
  have hkey : (Parameter.order.key, value) ∈ params := hvalue
  obtain ⟨steps, hsteps, hinfix⟩ := exists_infix_of_planQuery h hkey
  obtain ⟨entries, orders, hentries, horders, rfl⟩ := exists_orders_of_planParameter hsteps
  exact ⟨entries, orders, hentries, horders, hinfix⟩

/-- **Names of selected columns.** The plan of a query has the steps of its orders in a row, and two
orders by different columns select these under one name exactly if their paths differ by no more
than is lost in the names. -/
theorem selectsOneName_iff {allowed : AllowedParameters} {params : Fields Json} {plan : List Step}
    (h : registry.planQuery allowed model params = .ok plan) {value : Json}
    (hvalue : ("order", value) ∈ params) :
    ∃ entries orders, readTexts "order" value = .ok entries ∧
      List.Forall₂ (registry.OrdersBy model) entries orders ∧
      (orders.flatMap fun order ↦ order.1.orderSteps order.2) <:+: plan ∧
      ∀ order ∈ orders, ∀ order' ∈ orders, order.1.column ≠ order'.1.column →
        (SelectsOneName (order.1.orderSteps order.2) (order'.1.orderSteps order'.2) ↔
          order.1.Confuses order'.1 ∨ order'.1.Confuses order.1) := by
  obtain ⟨entries, orders, hentries, horders, hinfix⟩ := exists_orders_of_planQuery h hvalue
  refine ⟨entries, orders, hentries, horders, hinfix, fun order horder order' horder' hcolumn ↦ ?_⟩
  obtain ⟨entry, -, hentry⟩ := exists_left_of_forall₂ horders horder
  obtain ⟨entry', -, hentry'⟩ := exists_left_of_forall₂ horders horder'
  rw [selectsOneName_iff_exists_alias? hentry hentry', PropertyPath.exists_alias?_iff hcolumn]

end Registry

/-- Orders of customers at shops, both of which have an address. -/
def ordersWithAddresses : List ModelDefinition :=
  let belongsTo : String → String → RelationDefinition := fun source target ↦
    ⟨"belongs-to", some (.single source), some (.single target), none, false, none, none, none,
      none, []⟩
  [⟨"Order", none, none, false, [],
      [("customer", belongsTo "Order.customerId" "Customer.id"),
        ("shop", belongsTo "Order.shopId" "Shop.id")], []⟩,
    ⟨"Customer", none, none, false, [],
      [("address", belongsTo "Customer.addressId" "Address.id")], []⟩,
    ⟨"Shop", none, none, false, [], [("address", belongsTo "Shop.addressId" "Address.id")], []⟩,
    ⟨"Address", none, none, false, [("city", .string "string")], [], []⟩]

def byBothCities : Json :=
  .array [.string "customer.address.city", .string "shop.address.city desc"]

namespace Registry

/-- The two columns, and the one name for both. -/
theorem exists_planQuery_byBothCities : ∃ c, Catalog.resolve ordersWithAddresses = .ok c ∧
    ∃ plan, c.registry.planQuery .all "Order" [("order", byBothCities)] = .ok plan ∧
      ∀ entries orders, readTexts "order" byBothCities = .ok entries →
        List.Forall₂ (c.registry.OrdersBy "Order") entries orders →
          ∃ order ∈ orders, ∃ order' ∈ orders, order.1.column ≠ order'.1.column ∧
            SelectsOneName (order.1.orderSteps order.2) (order'.1.orderSteps order'.2) := by
  have hplan : (Catalog.resolve ordersWithAddresses).toOption.any fun c ↦
      (c.registry.planQuery .all "Order" [("order", byBothCities)]).toOption.any fun _ ↦
      (c.registry.propertyPath "Order" "customer.address.city").toOption.any fun p ↦
      (c.registry.propertyPath "Order" "shop.address.city").toOption.any fun q ↦
        decide (p.column ≠ q.column ∧ p.alias? = some "addressCity" ∧
          q.alias? = some "addressCity") := by
    decide +kernel
  obtain ⟨c, hc, hplan⟩ := exists_of_any hplan
  obtain ⟨plan, hquery, hplan⟩ := exists_of_any hplan
  obtain ⟨p, hp, hplan⟩ := exists_of_any hplan
  obtain ⟨q, hq, hplan⟩ := exists_of_any hplan
  obtain ⟨hcolumns, halias, halias'⟩ := of_decide_eq_true hplan
  refine ⟨c, hc, plan, hquery, fun entries orders hentries horders ↦ ?_⟩
  have hread : readTexts "order" byBothCities =
      .ok ["customer.address.city", "shop.address.city desc"] := rfl
  obtain rfl := Except.ok.inj (hread.symm.trans hentries)
  have hfirst : readOrderEntry? "customer.address.city" = some ("customer.address.city", .asc) := by
    decide +kernel
  have hsecond : readOrderEntry? "shop.address.city desc" = some ("shop.address.city", .desc) := by
    decide +kernel
  cases horders with
  | @cons _ order _ _ horder hrest =>
    cases hrest with
    | @cons _ order' _ _ horder' hrest =>
      obtain rfl := horder.eq_of_orderEntry hfirst hp
      obtain rfl := horder'.eq_of_orderEntry hsecond hq
      exact ⟨_, by simp, (q, .desc), by simp, hcolumns,
        (selectsOneName_iff_exists_alias? horder horder').2 ⟨_, halias, halias'⟩⟩

/-- Two paths end with the city of an address, and nothing in the names tells whose. -/
theorem selectsOneName_iff_byBothCities : ∃ c, Catalog.resolve ordersWithAddresses = .ok c ∧
    ∃ plan, c.registry.planQuery .all "Order" [("order", byBothCities)] = .ok plan ∧
      ∃ entries orders, readTexts "order" byBothCities = .ok entries ∧
        List.Forall₂ (c.registry.OrdersBy "Order") entries orders ∧
        (orders.flatMap fun order ↦ order.1.orderSteps order.2) <:+: plan ∧
        ∃ order ∈ orders, ∃ order' ∈ orders, order.1.column ≠ order'.1.column ∧
          (order.1.Confuses order'.1 ∨ order'.1.Confuses order.1) := by
  obtain ⟨c, hc, plan, hplan, hselects⟩ := exists_planQuery_byBothCities
  obtain ⟨entries, orders, hentries, horders, hinfix, hiff⟩ :=
    selectsOneName_iff hplan List.mem_cons_self
  obtain ⟨order, horder, order', horder', hcolumns, hname⟩ :=
    hselects entries orders hentries horders
  exact ⟨c, hc, plan, hplan, entries, orders, hentries, horders, hinfix, order, horder, order',
    horder', hcolumns, (hiff order horder order' horder' hcolumns).1 hname⟩

/-- An accepted query selects two columns under one name. -/
theorem exists_selectsOneName_byBothCities : ∃ c, Catalog.resolve ordersWithAddresses = .ok c ∧
    ∃ plan, c.registry.planQuery .all "Order" [("order", byBothCities)] = .ok plan ∧
      ∃ entries orders, readTexts "order" byBothCities = .ok entries ∧
        List.Forall₂ (c.registry.OrdersBy "Order") entries orders ∧
        (orders.flatMap fun order ↦ order.1.orderSteps order.2) <:+: plan ∧
        ∃ order ∈ orders, ∃ order' ∈ orders, order.1.column ≠ order'.1.column ∧
          SelectsOneName (order.1.orderSteps order.2) (order'.1.orderSteps order'.2) := by
  obtain ⟨c, hc, plan, hplan, hselects⟩ := exists_planQuery_byBothCities
  obtain ⟨entries, orders, hentries, horders, hinfix⟩ :=
    exists_orders_of_planQuery hplan List.mem_cons_self
  exact ⟨c, hc, plan, hplan, entries, orders, hentries, horders, hinfix,
    hselects entries orders hentries horders⟩

end Registry

end ModelCatalog
