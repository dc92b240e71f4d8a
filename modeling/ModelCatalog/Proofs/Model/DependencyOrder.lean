import Mathlib.Data.List.Basic
import Mathlib.Logic.Relation
import Mathlib.Tactic.ByContra
import Mathlib.Tactic.Tauto
import ModelCatalog.Model.Catalog

/-!
# The order of dependencies

Sorting names puts every name in front of the names that it depends on, cycles aside, and lists the
given names with all that they lead to, each of them once.

## The invariant of a visit

A depth-first visit keeps the names that have been entered and those that have been left. In between
stand the *open* names, which have been entered and not left: they are the calls under way, and
each of them leads to the name that is entered next. So when a name is left and one of its
successors has not been left before, that successor is open and leads back to the name. Edges out
of a cycle are therefore always in order, whatever the names that the walk starts from.

## Fuel

The depth of the visit is bounded by the number of names that have not been entered, and all names
that can be entered lie in one finite list. The visit never runs out of fuel, and nothing below
speaks of what would happen if it did.
-/

namespace ModelCatalog

namespace Visit

variable {next : String → List String}

/-- A name leads to another along successors. -/
abbrev Leads (next : String → List String) : String → String → Prop :=
  Relation.ReflTransGen fun u v ↦ v ∈ next u

/-- The name has been entered and not been left. -/
def Open (visit : Visit) (name : String) : Prop := name ∈ visit.seen ∧ name ∉ visit.sorted

/-- What holds between two moves of a visit: names are left once, after being entered; the
successors of a name that has been left have been entered; and those of them that do not lead back
to it stand behind it. -/
structure Ordered (next : String → List String) (visit : Visit) : Prop where
  nodup : visit.sorted.Nodup
  seen_of_sorted : ∀ {u}, u ∈ visit.sorted → u ∈ visit.seen
  seen_of_next : ∀ {u v}, u ∈ visit.sorted → v ∈ next u → v ∈ visit.seen
  before : ∀ {u v}, u ∈ visit.sorted → v ∈ next u → ¬Leads next v u →
    [u, v].Sublist visit.sorted

/-- What a stretch of a visit changes: it enters names that the given ones lead to, it leaves names,
and it leaves all that it enters. -/
structure Continues (next : String → List String) (names : List String) (earlier later : Visit) :
    Prop where
  seen_subset : ∀ {w}, w ∈ earlier.seen → w ∈ later.seen
  open_iff : ∀ {w}, later.Open w ↔ earlier.Open w
  entered : ∀ {w}, w ∈ later.seen → w ∈ earlier.seen ∨ ∃ name ∈ names, Leads next name w

def fresh (names : List String) (visit : Visit) : List String := names.filter (· ∉ visit.seen)

theorem Continues.refl (visit : Visit) : Continues next [] visit visit :=
  ⟨id, Iff.rfl, Or.inl⟩

theorem Continues.trans {names names' : List String} {a b c : Visit}
    (hab : Continues next names a b) (hbc : Continues next names' b c) :
    Continues next (names ++ names') a c := by
  refine ⟨fun h ↦ hbc.seen_subset (hab.seen_subset h), hbc.open_iff.trans hab.open_iff, ?_⟩
  intro w hw
  rcases hbc.entered hw with hb | ⟨name, hname, hlead⟩
  · rcases hab.entered hb with ha | ⟨name, hname, hlead⟩
    · exact Or.inl ha
    · exact Or.inr ⟨name, List.mem_append_left _ hname, hlead⟩
  · exact Or.inr ⟨name, List.mem_append_right _ hname, hlead⟩

private theorem length_fresh_le {names : List String} {earlier later : Visit}
    (h : ∀ {w}, w ∈ earlier.seen → w ∈ later.seen) :
    (fresh names later).length ≤ (fresh names earlier).length := by
  refine List.Sublist.length_le (List.monotone_filter_right _ ?_)
  intro w hw
  simp only [decide_eq_true_eq] at hw ⊢
  exact fun hseen ↦ hw (h hseen)

private theorem length_fresh_lt {names : List String} {visit : Visit} {name : String}
    (hname : name ∈ names) (hfresh : name ∉ visit.seen) :
    (fresh names { visit with seen := name :: visit.seen }).length <
      (fresh names visit).length := by
  have hsub : (fresh names { visit with seen := name :: visit.seen }).Sublist
      ((fresh names visit).filter (· ≠ name)) := by
    rw [fresh, fresh, List.filter_filter]
    refine List.monotone_filter_right _ fun w hw ↦ ?_
    simpa [not_or] using hw
  refine Nat.lt_of_le_of_lt hsub.length_le
    (List.length_filter_lt_length_iff_exists.2 ⟨name, ?_, by simp⟩)
  exact List.mem_filter.2 ⟨hname, by simpa using hfresh⟩

/-! ## Entering -/

/-- Entering a name opens it and changes nothing else. -/
theorem open_push_iff {visit : Visit} {name : String} (hvisit : Ordered next visit)
    (hname : name ∉ visit.seen) {w : String} :
    Open { visit with seen := name :: visit.seen } w ↔ w = name ∨ visit.Open w := by
  have hsorted : name ∉ visit.sorted := fun h ↦ hname (hvisit.seen_of_sorted h)
  simp only [Open, List.mem_cons]
  constructor
  · rintro ⟨rfl | hseen, hnot⟩
    · exact Or.inl rfl
    · exact Or.inr ⟨hseen, hnot⟩
  · rintro (rfl | ⟨hseen, hnot⟩)
    · exact ⟨Or.inl rfl, hsorted⟩
    · exact ⟨Or.inr hseen, hnot⟩

theorem Ordered.push {visit : Visit} (hvisit : Ordered next visit) (name : String) :
    Ordered next { visit with seen := name :: visit.seen } where
  nodup := hvisit.nodup
  seen_of_sorted h := List.mem_cons_of_mem _ (hvisit.seen_of_sorted h)
  seen_of_next hu hv := List.mem_cons_of_mem _ (hvisit.seen_of_next hu hv)
  before hu hv hlead := hvisit.before hu hv hlead

/-! ## Leaving

This is the step that the whole argument is about: the name goes behind all its successors, except
for those that are still open. -/

/-- **Leaving a name.** All its successors have been entered; one that has not been left is open, so
it leads to the name. -/
theorem Ordered.leave {visit : Visit} {name : String} (hvisit : Ordered next visit)
    (hopen : visit.Open name) (hnext : ∀ v ∈ next name, v ∈ visit.seen)
    (hlead : ∀ w, visit.Open w → Leads next w name) :
    Ordered next { visit with sorted := name :: visit.sorted } where
  nodup := List.nodup_cons.2 ⟨hopen.2, hvisit.nodup⟩
  seen_of_sorted h := by
    rcases List.mem_cons.1 h with rfl | h
    · exact hopen.1
    · exact hvisit.seen_of_sorted h
  seen_of_next hu hv := by
    rcases List.mem_cons.1 hu with rfl | hu
    · exact hnext _ hv
    · exact hvisit.seen_of_next hu hv
  before {u v} hu hv hback := by
    rcases List.mem_cons.1 hu with rfl | hu
    · -- a successor that is still open would lead back
      have hleft : v ∈ visit.sorted := by
        by_contra hnot
        exact hback (hlead v ⟨hnext v hv, hnot⟩)
      exact (List.singleton_sublist.2 hleft).cons_cons u
    · exact (hvisit.before hu hv hback).cons name

/-! ## A whole visit

Whatever a visit comes to, the same names are open after it as before it, and the names that it was
asked for have been entered. There is enough fuel for it as long as there is no less than names to
enter. -/

/-- What a visit guarantees that starts at the given names. -/
structure Visited (next : String → List String) (names : List String) (earlier later : Visit) :
    Prop where
  ordered : Ordered next later
  continues : Continues next names earlier later
  seen : ∀ name ∈ names, name ∈ later.seen

/-- **Visits one after the other.** If single visits with the given fuel keep the invariant, so do
visits of several names: between two of them the same names are open. -/
theorem visited_foldl {names all : List String} {fuel : Nat}
    (henter : ∀ (visit : Visit) (name : String), name ∈ all → (fresh all visit).length ≤ fuel →
      Ordered next visit → (∀ w, visit.Open w → Leads next w name) →
      Visited next [name] visit (enter next fuel visit name))
    (hall : ∀ name ∈ names, name ∈ all) {visit : Visit}
    (hfuel : (fresh all visit).length ≤ fuel) (hvisit : Ordered next visit)
    (hopen : ∀ name ∈ names, ∀ w, visit.Open w → Leads next w name) :
    Visited next names visit (names.foldl (enter next fuel) visit) := by
  induction names generalizing visit with
  | nil => exact ⟨hvisit, Continues.refl visit, by simp⟩
  | cons name names ih =>
    have hfirst : Visited next [name] visit (enter next fuel visit name) :=
      henter visit name (hall name (by simp)) hfuel hvisit (hopen name (by simp))
    have hrest : Visited next names (enter next fuel visit name)
        (names.foldl (enter next fuel) (enter next fuel visit name)) := by
      refine ih (fun n hn ↦ hall n (List.mem_cons_of_mem _ hn))
        (Nat.le_trans (length_fresh_le hfirst.continues.seen_subset) hfuel) hfirst.ordered ?_
      intro n hn w hw
      exact hopen n (List.mem_cons_of_mem _ hn) w (hfirst.continues.open_iff.1 hw)
    refine ⟨hrest.ordered, hfirst.continues.trans hrest.continues, ?_⟩
    intro n hn
    rcases List.mem_cons.1 hn with rfl | hn
    · exact hrest.continues.seen_subset (hfirst.seen n (by simp))
    · exact hrest.seen n hn

/-- **The invariant of a visit.** The induction is on the fuel, which bounds the names that have not
been entered; the open names lead to the one that is entered. -/
theorem visited_enter {all : List String} (hclosed : ∀ u ∈ all, ∀ v ∈ next u, v ∈ all)
    (fuel : Nat) (visit : Visit) (name : String) (hname : name ∈ all)
    (hfuel : (fresh all visit).length ≤ fuel) (hvisit : Ordered next visit)
    (hopen : ∀ w, visit.Open w → Leads next w name) :
    Visited next [name] visit (enter next fuel visit name) := by
  induction fuel generalizing visit name with
  | zero =>
    -- without fuel there is no name left to enter
    have hseen : name ∈ visit.seen := by
      by_contra hnot
      have hmem : name ∈ fresh all visit := List.mem_filter.2 ⟨hname, by simpa using hnot⟩
      exact absurd (List.length_pos_of_mem hmem) (by omega)
    exact ⟨hvisit, ⟨id, Iff.rfl, Or.inl⟩, by simpa [enter] using hseen⟩
  | succ fuel ih =>
    by_cases hseen : name ∈ visit.seen
    · rw [enter, if_pos hseen]
      exact ⟨hvisit, ⟨id, Iff.rfl, Or.inl⟩, by simpa using hseen⟩
    · rw [enter, if_neg hseen]
      have hpushed := hvisit.push name
      -- every open name leads to `name`, and so to its successors
      have hlead : ∀ w, Open { visit with seen := name :: visit.seen } w → Leads next w name := by
        intro w hw
        rcases (open_push_iff hvisit hseen).1 hw with rfl | hw
        · exact .refl
        · exact hopen w hw
      have hless := length_fresh_lt hname hseen
      have hinner : Visited next (next name) { visit with seen := name :: visit.seen }
          ((next name).foldl (enter next fuel) { visit with seen := name :: visit.seen }) :=
        visited_foldl ih (hclosed name hname) (by omega) hpushed
          fun v hv w hw ↦ (hlead w hw).tail hv
      -- from here on only what the visit of the successors guarantees matters
      generalize (next name).foldl (enter next fuel)
        { visit with seen := name :: visit.seen } = inner at hinner ⊢
      have hopenInner : inner.Open name :=
        hinner.continues.open_iff.2 ((open_push_iff hvisit hseen).2 (Or.inl rfl))
      refine ⟨hinner.ordered.leave hopenInner hinner.seen
        fun w hw ↦ hlead w (hinner.continues.open_iff.1 hw), ?_, ?_⟩
      · refine ⟨fun h ↦ hinner.continues.seen_subset (List.mem_cons_of_mem _ h), ?_, ?_⟩
        · -- entering `name` has opened it and leaving it closes it again
          intro w
          have hiff : inner.Open w ↔ w = name ∨ visit.Open w :=
            hinner.continues.open_iff.trans (open_push_iff hvisit hseen)
          have hne : visit.Open w → w ≠ name := fun h heq ↦ hseen (heq ▸ h.1)
          simp only [Open, List.mem_cons, not_or] at hiff hne ⊢
          tauto
        · intro w hw
          rcases hinner.continues.entered hw with hw | ⟨v, hv, hlead⟩
          · rcases List.mem_cons.1 hw with rfl | hw
            · exact Or.inr ⟨w, by simp, .refl⟩
            · exact Or.inl hw
          · exact Or.inr ⟨name, by simp, .head hv hlead⟩
      · simpa using hopenInner.1

end Visit

/-! ## Sorting the names of a registry -/

namespace Registry

/-- A name depends on another: the other is found by the registry, and a relation of the model that
the first one finds, of a kind whose key is on the far side, leads to it or through it. -/
def DependsOn (r : Registry) (name related : String) : Prop :=
  related ≠ name ∧ r.contains related ∧ ∃ model, r.lookup name = some model ∧
    ∃ entry ∈ model.relations, entry.2.kind ≠ .belongsToOne ∧
      (entry.2.relatedModel = related ∨ (entry.2.join.through.bind (·.model)) = some related)

theorem mem_dependencies_iff {r : Registry} {name related : String} :
    related ∈ r.dependencies name ↔ r.DependsOn name related := by
  rw [dependencies, DependsOn]
  cases hlookup : r.lookup name with
  | none => simp
  | some model =>
    simp only [List.mem_filter, Model.leadsTo, List.mem_flatMap, Option.some.injEq,
      exists_eq_left', ne_eq, decide_not, Bool.and_eq_true, Bool.not_eq_eq_eq_not, Bool.not_true,
      decide_eq_false_iff_not]
    constructor
    · rintro ⟨⟨entry, hentry, hlead⟩, hne, hfound⟩
      refine ⟨hne, hfound, entry, hentry, ?_⟩
      rw [Relation.leadsTo] at hlead
      split at hlead
      · simp at hlead
      · rename_i hkind
        rcases List.mem_cons.1 hlead with rfl | hthrough
        · exact ⟨hkind, Or.inl rfl⟩
        · exact ⟨hkind, Or.inr (by simpa using hthrough)⟩
    · rintro ⟨hne, hfound, entry, hentry, hkind, hlead⟩
      refine ⟨⟨entry, hentry, ?_⟩, hne, hfound⟩
      rw [Relation.leadsTo, if_neg hkind]
      rcases hlead with rfl | hthrough
      · exact List.mem_cons_self
      · exact List.mem_cons_of_mem _ (by simpa using hthrough)

/-- All names that a visit of the given ones can enter. -/
def enterable (r : Registry) (names : List String) : List String :=
  names ++ r.models.flatMap Model.leadsTo

private theorem dependencies_subset_enterable (r : Registry) (names : List String) :
    ∀ u ∈ r.enterable names, ∀ v ∈ r.dependencies u, v ∈ r.enterable names := by
  intro u _ v hv
  rw [dependencies] at hv
  split at hv
  · simp at hv
  · rename_i model hlookup
    refine List.mem_append_right _ (List.mem_flatMap.2 ⟨model, r.mem_models hlookup, ?_⟩)
    exact (List.mem_filter.1 hv).1

/-- The walk from the last of the given names to the first. -/
theorem visited_sortNames (r : Registry) (names : List String) :
    ∃ visit, Visit.Visited r.dependencies names.reverse ⟨[], []⟩ visit ∧
      r.sortNames names = visit.sorted := by
  have hgiven : ∀ name ∈ names.reverse, name ∈ r.enterable names := fun name hname ↦
    List.mem_append_left _ (List.mem_reverse.1 hname)
  -- at the start no name that can be entered has been
  have hfuel : (Visit.fresh (r.enterable names) ⟨[], []⟩).length ≤ r.depthBound names := by
    refine Nat.le_trans (List.length_filter_le _ _) ?_
    rw [enterable, List.length_append, depthBound]
    omega
  exact ⟨_, Visit.visited_foldl
    (fun visit name ↦ Visit.visited_enter (r.dependencies_subset_enterable names) _ visit name)
    hgiven hfuel ⟨List.nodup_nil, by simp, by simp, by simp⟩ (by simp [Visit.Open]), rfl⟩

theorem nodup_sortNames (r : Registry) (names : List String) : (r.sortNames names).Nodup := by
  obtain ⟨visit, hvisit, hsort⟩ := r.visited_sortNames names
  rw [hsort]
  exact hvisit.ordered.nodup

theorem leads_eq_dependsOn (r : Registry) :
    Visit.Leads r.dependencies = Relation.ReflTransGen r.DependsOn := by
  rw [Visit.Leads]
  congr 1
  funext u v
  exact propext mem_dependencies_iff

/-- Sorting lists the names that the given ones lead to. When the walk is over no name is open, so
all that were entered are listed, and they are closed under dependencies. -/
theorem mem_sortNames_iff {r : Registry} {names : List String} {name : String} :
    name ∈ r.sortNames names ↔
      ∃ given ∈ names, Relation.ReflTransGen r.DependsOn given name := by
  obtain ⟨visit, hvisit, hsort⟩ := r.visited_sortNames names
  rw [hsort, ← leads_eq_dependsOn]
  have hdone : ∀ {w}, w ∈ visit.seen → w ∈ visit.sorted := by
    intro w hw
    by_contra hnot
    exact absurd (hvisit.continues.open_iff.1 ⟨hw, hnot⟩) (by simp [Visit.Open])
  constructor
  · intro h
    rcases hvisit.continues.entered (hvisit.ordered.seen_of_sorted h) with h | ⟨given, hgiven, h⟩
    · simp at h
    · exact ⟨given, List.mem_reverse.1 hgiven, h⟩
  · rintro ⟨given, hgiven, hlead⟩
    induction hlead with
    | refl => exact hdone (hvisit.seen given (List.mem_reverse.2 hgiven))
    | tail _ hstep ih => exact hdone (hvisit.ordered.seen_of_next ih hstep)

/-- **Sorting.** No name is listed twice, the names listed are the given ones and those that they
depend on, directly or not, and a name stands before each name that it depends on, unless that one
depends on it in turn. -/
theorem sortNames_dependencyOrder (r : Registry) (names : List String) :
    (r.sortNames names).Nodup ∧
      (∀ name, name ∈ r.sortNames names ↔
        ∃ given ∈ names, Relation.ReflTransGen r.DependsOn given name) ∧
      ∀ u v, u ∈ r.sortNames names → r.DependsOn u v → ¬Relation.ReflTransGen r.DependsOn v u →
        [u, v].Sublist (r.sortNames names) := by
  refine ⟨r.nodup_sortNames names, fun _ ↦ mem_sortNames_iff, ?_⟩
  intro u v hu huv hback
  obtain ⟨visit, hvisit, hsort⟩ := r.visited_sortNames names
  rw [hsort] at hu ⊢
  rw [← leads_eq_dependsOn] at hback
  exact hvisit.ordered.before hu (mem_dependencies_iff.2 huv) hback

end Registry

end ModelCatalog
