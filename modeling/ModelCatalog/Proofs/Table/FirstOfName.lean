import Mathlib.Data.List.Basic
import ModelCatalog.Table.Migration

/-!
# The first of each name

Join tables are added to the migrations, and foreign keys to the table of a model, one after the
other unless the name of the next one is taken. So what stays is the first of each name.
-/

namespace ModelCatalog

section

variable {α : Type} (name : α → String)

/-- Append the entries whose names are not taken, one after the other. -/
def appendNew (kept added : List α) : List α :=
  added.foldl (fun kept a ↦ if name a ∈ kept.map name then kept else kept ++ [a]) kept

variable {name} {kept added : List α} {a : α}

theorem appendNew_cons_of_mem (h : name a ∈ kept.map name) :
    appendNew name kept (a :: added) = appendNew name kept added := by
  rw [appendNew, List.foldl_cons, if_pos h, appendNew]

theorem appendNew_cons_of_notMem (h : name a ∉ kept.map name) :
    appendNew name kept (a :: added) = appendNew name (kept ++ [a]) added := by
  rw [appendNew, List.foldl_cons, if_neg h, appendNew]

variable (name kept added)

/-- What is appended has distinct names, none of them taken before, and stands in the order of the
first entries of these names. -/
theorem exists_appendNew_eq_ordered : ∃ extra, appendNew name kept added = kept ++ extra ∧
    (extra.map name).Nodup ∧ (∀ a ∈ extra, name a ∉ kept.map name) ∧
    extra.Pairwise fun a b ↦ ∃ before after, added = before ++ a :: after ∧
      ∀ x ∈ before, name x ≠ name b := by
  induction added generalizing kept with
  | nil => exact ⟨[], by simp [appendNew]⟩
  | cons a added ih =>
    by_cases ha : name a ∈ kept.map name
    · obtain ⟨extra, heq, hnodup, hfresh, horder⟩ := ih kept
      rw [appendNew_cons_of_mem ha]
      refine ⟨extra, heq, hnodup, hfresh, horder.imp_of_mem ?_⟩
      rintro b b' - hb' ⟨before, after, rfl, hbefore⟩
      have hne : name a ≠ name b' := fun h ↦ hfresh b' hb' (h ▸ ha)
      exact ⟨a :: before, after, rfl, List.forall_mem_cons.2 ⟨hne, hbefore⟩⟩
    · obtain ⟨extra, heq, hnodup, hfresh, horder⟩ := ih (kept ++ [a])
      -- nothing later has the name of `a`
      have hsplit : ∀ b ∈ extra, name b ∉ kept.map name ∧ name a ≠ name b := by
        intro b hb
        have hb := hfresh b hb
        rw [List.map_append, List.mem_append, not_or] at hb
        exact ⟨hb.1, fun h ↦ hb.2 (by simp [h])⟩
      refine ⟨a :: extra, ?_, ?_, ?_, List.pairwise_cons.2 ⟨?_, horder.imp_of_mem ?_⟩⟩
      · rw [appendNew_cons_of_notMem ha, heq, List.append_assoc, List.singleton_append]
      · rw [List.map_cons, List.nodup_cons]
        refine ⟨fun hmem ↦ ?_, hnodup⟩
        obtain ⟨b, hb, hname⟩ := List.mem_map.1 hmem
        exact (hsplit b hb).2 hname.symm
      · intro b hb
        rcases List.mem_cons.1 hb with rfl | hb
        · exact ha
        · exact (hsplit b hb).1
      · intro b _
        exact ⟨[], added, rfl, by simp⟩
      · rintro b b' - hb' ⟨before, after, rfl, hbefore⟩
        exact ⟨a :: before, after, rfl, List.forall_mem_cons.2 ⟨(hsplit b' hb').2, hbefore⟩⟩

theorem exists_appendNew_eq : ∃ extra, appendNew name kept added = kept ++ extra ∧
    (extra.map name).Nodup ∧ ∀ a ∈ extra, name a ∉ kept.map name := by
  obtain ⟨extra, heq, hnodup, hfresh, -⟩ := exists_appendNew_eq_ordered name kept added
  exact ⟨extra, heq, hnodup, hfresh⟩

theorem pairwise_appendNew_nil : (appendNew name [] added).Pairwise fun a b ↦
    ∃ before after, added = before ++ a :: after ∧ ∀ x ∈ before, name x ≠ name b := by
  obtain ⟨extra, heq, -, -, horder⟩ := exists_appendNew_eq_ordered name [] added
  rw [heq, List.nil_append]
  exact horder

/-- What stays of the entries that are added is, for each name that is not taken, the first one. -/
theorem mem_appendNew_iff {b : α} : b ∈ appendNew name kept added ↔
    b ∈ kept ∨ name b ∉ kept.map name ∧ added.find? (name · == name b) = some b := by
  induction added generalizing kept with
  | nil => simp [appendNew]
  | cons a added ih =>
    by_cases ha : name a ∈ kept.map name
    · rw [appendNew_cons_of_mem ha, ih]
      -- `a` has a taken name, so it is not what is found
      refine or_congr_right (and_congr_right fun hb ↦ ?_)
      have hne : name a ≠ name b := fun heq ↦ hb (heq ▸ ha)
      rw [List.find?_cons_of_neg (by simpa using hne)]
    · rw [appendNew_cons_of_notMem ha, ih]
      by_cases hab : name a = name b
      · rw [List.find?_cons_of_pos (by simpa using hab), ← hab, Option.some.injEq]
        simp [ha, eq_comm]
      · rw [List.find?_cons_of_neg (by simpa using hab)]
        have hne : b ≠ a := fun heq ↦ hab (heq ▸ rfl)
        simp [hne, Ne.symm hab]

theorem mem_names_appendNew_iff {n : String} : n ∈ (appendNew name kept added).map name ↔
    n ∈ kept.map name ∨ n ∈ added.map name := by
  constructor
  · intro h
    obtain ⟨b, hb, rfl⟩ := List.mem_map.1 h
    rcases (mem_appendNew_iff name kept added).1 hb with hb | ⟨-, hfind⟩
    · exact .inl (List.mem_map_of_mem hb)
    · exact .inr (List.mem_map_of_mem (List.mem_of_find?_eq_some hfind))
  · intro h
    by_cases hkept : n ∈ kept.map name
    · obtain ⟨b, hb, rfl⟩ := List.mem_map.1 hkept
      exact List.mem_map_of_mem ((mem_appendNew_iff name kept added).2 (.inl hb))
    · obtain ⟨a, ha, rfl⟩ := List.mem_map.1 (h.resolve_left hkept)
      have hfound : (added.find? (name · == name a)).isSome :=
        List.find?_isSome.2 ⟨a, ha, by simp⟩
      obtain ⟨b, hb⟩ := Option.isSome_iff_exists.1 hfound
      have hname : name b = name a := by simpa using List.find?_some hb
      rw [← hname] at hb hkept ⊢
      exact List.mem_map_of_mem ((mem_appendNew_iff name kept added).2 (.inr ⟨hkept, hb⟩))

/-- The names of what is appended are those that are not taken, in the order in which they first
occur. -/
theorem map_name_appendNew : (appendNew name kept added).map name =
    kept.map name ++ ((added.map name).filter (· ∉ kept.map name)).eraseDups := by
  induction added generalizing kept with
  | nil => simp [appendNew]
  | cons a added ih =>
    by_cases ha : name a ∈ kept.map name
    · rw [appendNew_cons_of_mem ha, ih, List.map_cons, List.filter_cons_of_neg (by simpa using ha)]
    · -- what is not taken once `a` is there is what was not taken and has another name
      have hfresh : ∀ n, decide (n ∉ (kept ++ [a]).map name) =
          (!(n == name a) && decide (n ∉ kept.map name)) := by
        intro n
        rw [Bool.eq_iff_iff]
        simp [and_comm]
      rw [appendNew_cons_of_notMem ha, ih, List.map_cons,
        List.filter_cons_of_pos (by simpa using ha), List.eraseDups_cons, List.filter_filter,
        List.map_append, List.map_singleton, List.append_assoc, List.singleton_append]
      simp only [← hfresh, List.map_append, List.map_singleton]

variable {name kept}

theorem nodup_names_appendNew (h : (kept.map name).Nodup) :
    ((appendNew name kept added).map name).Nodup := by
  obtain ⟨extra, heq, hnodup, hfresh⟩ := exists_appendNew_eq name kept added
  rw [heq, List.map_append]
  refine List.nodup_append.2 ⟨h, hnodup, ?_⟩
  rintro n hn n' hn' rfl
  obtain ⟨b, hb, rfl⟩ := List.mem_map.1 hn'
  exact hfresh b hb hn

end

/-! ## Where names are kept once

Both places fold the same step over a list, so both come down to `appendNew`. -/

theorem addMigrations_eq_appendNew (migrations added : List Migration) :
    addMigrations migrations added = appendNew (·.table.name) migrations added := by
  rw [addMigrations, appendNew]
  congr 1
  funext kept m
  have htaken : kept.any (·.table.name == m.table.name) ↔
      m.table.name ∈ kept.map (·.table.name) := by
    simp [List.any_eq_true]
  simp only [htaken]

theorem Model.foreignKeys_eq_appendNew (registry : Registry) (style : NamingStyle) (m : Model) :
    m.foreignKeys registry style = appendNew Prod.fst []
      (m.relations.filterMap fun entry ↦ m.foreignKey? registry style entry.2) := by
  rw [foreignKeys, appendNew]
  congr 1
  funext keys entry
  have htaken : Fields.contains keys entry.1 ↔ entry.1 ∈ keys.map Prod.fst :=
    Fields.contains_iff_mem_keys
  simp only [htaken]

end ModelCatalog
