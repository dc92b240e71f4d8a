/-!
# Ordered fields

A finite map with string keys that remembers the order of its entries, as JSON objects and the
named parts of a model do. It is a list of pairs, so that the order is part of the value and every
operation is a list function.

## Where entries stand

Two rules fix the order after an update. Inserting under a key that is there keeps the position of
the key and replaces its value; a new key goes last. Removing a key moves the *last* entry into the
gap, so removal takes constant work in an indexed table and does not preserve the order. A merge
inserts one entry after the other, so in it the last value and the first place of a key count.

## The invariant

Nothing in the type excludes a key that occurs twice. Look-ups see the first occurrence, and
`Distinct` says that there is no other; every operation here keeps keys distinct where they are.
-/

namespace ModelCatalog

/-- An ordered finite map with string keys. -/
abbrev Fields (α : Type) := List (String × α)

namespace Fields

variable {α β : Type}

/-- The keys, in order. -/
def keys (fs : Fields α) : List String := fs.map (·.1)

/-- No key occurs twice. -/
def Distinct (fs : Fields α) : Prop := fs.keys.Nodup

def get? (fs : Fields α) (key : String) : Option α := fs.lookup key

def contains (fs : Fields α) (key : String) : Bool := (fs.get? key).isSome

/-- Set the value under a key: in place where the key is there, at the end otherwise. -/
def insert : Fields α → String → α → Fields α
  | [], key, value => [(key, value)]
  | (k, v) :: rest, key, value =>
    if k = key then (k, value) :: rest else (k, v) :: insert rest key value

/-- Drop a key; the last entry moves into the gap. -/
def remove : Fields α → String → Fields α
  | [], _ => []
  | (k, v) :: rest, key =>
    if k = key then
      match rest.getLast? with
      | none => []
      | some last => last :: rest.dropLast
    else (k, v) :: remove rest key

/-- Insert the entries of the second map one after the other. -/
def merge (fs gs : Fields α) : Fields α := gs.foldl (fun acc (k, v) ↦ insert acc k v) fs

/-- Collect entries: a repeated key keeps its first position and takes its last value. -/
def ofList (entries : List (String × α)) : Fields α := merge [] entries

def mapValues (f : α → β) (fs : Fields α) : Fields β := fs.map fun (k, v) ↦ (k, f v)

@[simp] theorem keys_nil : keys ([] : Fields α) = [] := rfl

@[simp] theorem keys_cons (entry : String × α) (rest : Fields α) :
    keys (entry :: rest) = entry.1 :: rest.keys := rfl

@[simp] theorem keys_append (fs gs : Fields α) : keys (fs ++ gs) = fs.keys ++ gs.keys :=
  List.map_append

@[simp] theorem distinct_nil : Distinct ([] : Fields α) := List.nodup_nil

@[simp] theorem distinct_cons {entry : String × α} {rest : Fields α} :
    Distinct (entry :: rest) ↔ entry.1 ∉ rest.keys ∧ rest.Distinct :=
  List.nodup_cons

@[simp] theorem get?_nil (key : String) : get? ([] : Fields α) key = none := rfl

@[simp] theorem get?_cons (k : String) (v : α) (rest : Fields α) (key : String) :
    get? ((k, v) :: rest) key = if k = key then some v else get? rest key := by
  by_cases h : k = key
  · subst h
    simp [get?]
  · have h' : (key == k) = false := by simpa using Ne.symm h
    simp [get?, List.lookup_cons, h, h']

theorem get?_eq_none_iff {fs : Fields α} {key : String} : fs.get? key = none ↔ key ∉ fs.keys := by
  induction fs with
  | nil => simp
  | cons entry rest ih =>
    obtain ⟨k, v⟩ := entry
    rw [get?_cons]
    by_cases h : k = key
    · simp [h]
    · simp only [if_neg h, ih]
      simp [Ne.symm h]

theorem contains_iff_mem_keys {fs : Fields α} {key : String} : fs.contains key ↔ key ∈ fs.keys := by
  rw [contains, Option.isSome_iff_ne_none, ne_eq, get?_eq_none_iff, Classical.not_not]

/-- Which keys are there depends on the keys only. -/
theorem get?_eq_none_iff_of_keys {fs : Fields α} {gs : Fields β} (h : fs.keys = gs.keys)
    {key : String} : fs.get? key = none ↔ gs.get? key = none := by
  rw [get?_eq_none_iff, get?_eq_none_iff, h]

theorem mem_of_get? {fs : Fields α} {key : String} {value : α} (h : fs.get? key = some value) :
    (key, value) ∈ fs := by
  induction fs with
  | nil => simp at h
  | cons entry rest ih =>
    obtain ⟨k, v⟩ := entry
    rw [get?_cons] at h
    split at h
    · simp_all
    · exact List.mem_cons_of_mem _ (ih h)

/-- In a map with distinct keys, look-up finds every entry. -/
theorem get?_eq_some_iff_mem {fs : Fields α} (hfs : fs.Distinct) {key : String} {value : α} :
    fs.get? key = some value ↔ (key, value) ∈ fs := by
  refine ⟨mem_of_get?, fun h ↦ ?_⟩
  induction fs with
  | nil => simp at h
  | cons entry rest ih =>
    obtain ⟨k, v⟩ := entry
    rw [Distinct, keys, List.map_cons, List.nodup_cons] at hfs
    rw [get?_cons]
    rcases List.mem_cons.1 h with heq | hmem
    · simp_all
    · have hne : k ≠ key := fun hk ↦ hfs.1 (List.mem_map.2 ⟨_, hmem, hk.symm⟩)
      simp only [if_neg hne]
      exact ih hfs.2 hmem

theorem get?_append (fs gs : Fields α) (key : String) :
    get? (fs ++ gs) key = (fs.get? key).or (gs.get? key) := by
  induction fs with
  | nil => rfl
  | cons entry rest ih =>
    rw [List.cons_append, get?_cons, get?_cons, ih]
    split <;> rfl

@[simp] theorem keys_mapValues (f : α → β) (fs : Fields α) : (fs.mapValues f).keys = fs.keys := by
  rw [keys, mapValues, List.map_map]
  rfl

@[simp] theorem get?_mapValues (f : α → β) (fs : Fields α) (key : String) :
    (fs.mapValues f).get? key = (fs.get? key).map f := by
  induction fs with
  | nil => rfl
  | cons entry rest ih =>
    rw [mapValues, List.map_cons, ← mapValues, get?_cons, get?_cons, ih]
    split <;> rfl

@[simp] theorem get?_insert (fs : Fields α) (key : String) (value : α) (key' : String) :
    (fs.insert key value).get? key' = if key = key' then some value else fs.get? key' := by
  induction fs with
  | nil => simp [insert]
  | cons entry rest ih =>
    obtain ⟨k, v⟩ := entry
    rw [insert]
    by_cases h : k = key
    · subst h
      by_cases hk : k = key' <;> simp [hk]
    · simp only [if_neg h, get?_cons, ih]
      split
      · rename_i hk
        have : key ≠ key' := fun hk' ↦ h (hk.trans hk'.symm)
        simp [this]
      · rfl

theorem get?_insert_self (fs : Fields α) (key : String) (value : α) :
    (fs.insert key value).get? key = some value := by
  rw [get?_insert, if_pos rfl]

theorem get?_insert_of_ne (fs : Fields α) {key key' : String} (h : key' ≠ key) (value : α) :
    (fs.insert key value).get? key' = fs.get? key' := by
  rw [get?_insert, if_neg (Ne.symm h)]

@[simp] theorem keys_insert (fs : Fields α) (key : String) (value : α) :
    (fs.insert key value).keys = if key ∈ fs.keys then fs.keys else fs.keys ++ [key] := by
  induction fs with
  | nil => simp [insert]
  | cons entry rest ih =>
    obtain ⟨k, v⟩ := entry
    rw [insert]
    by_cases h : k = key
    · subst h
      simp
    · simp only [if_neg h, keys, List.map_cons] at ih ⊢
      rw [ih]
      by_cases hmem : key ∈ rest.map (·.1)
      · simp [hmem]
      · simp [hmem, Ne.symm h]

/-- Setting a key to the value that it has changes nothing. -/
theorem insert_eq_self {fs : Fields α} {key : String} {value : α} (h : fs.get? key = some value) :
    fs.insert key value = fs := by
  induction fs with
  | nil => simp at h
  | cons entry rest ih =>
    obtain ⟨k, v⟩ := entry
    rw [get?_cons] at h
    rw [insert]
    split at h
    · rename_i hk
      rw [if_pos hk, Option.some.inj h]
    · rename_i hk
      rw [if_neg hk, ih h]

theorem Distinct.insert {fs : Fields α} (h : fs.Distinct) (key : String) (value : α) :
    (fs.insert key value).Distinct := by
  rw [Distinct, keys_insert]
  split
  · exact h
  · rename_i hnot
    refine List.nodup_append.2 ⟨h, by simp, ?_⟩
    rintro a ha b hb rfl
    exact hnot (by simpa [List.mem_singleton.1 hb] using ha)

theorem Distinct.merge {fs : Fields α} (h : fs.Distinct) (gs : Fields α) :
    (fs.merge gs).Distinct := by
  induction gs generalizing fs with
  | nil => exact h
  | cons entry rest ih => exact ih (h.insert entry.1 entry.2)

theorem distinct_ofList (entries : List (String × α)) : (ofList entries).Distinct :=
  Distinct.merge (by simp) entries

theorem mem_of_mem_insert {fs : Fields α} {key : String} {value : α} {entry : String × α}
    (h : entry ∈ fs.insert key value) : entry = (key, value) ∨ entry ∈ fs := by
  induction fs with
  | nil => simpa [insert] using h
  | cons first rest ih =>
    obtain ⟨k, v⟩ := first
    rw [insert] at h
    split at h
    · rename_i hk
      subst hk
      rcases List.mem_cons.1 h with rfl | h
      · exact .inl rfl
      · exact .inr (List.mem_cons_of_mem _ h)
    · rcases List.mem_cons.1 h with rfl | h
      · exact .inr (by simp)
      · exact (ih h).imp_right (List.mem_cons_of_mem _)

theorem mem_of_mem_merge {fs gs : Fields α} {entry : String × α} (h : entry ∈ fs.merge gs) :
    entry ∈ fs ∨ entry ∈ gs := by
  induction gs generalizing fs with
  | nil => exact .inl h
  | cons first rest ih =>
    rcases ih h with h | h
    · rcases mem_of_mem_insert h with rfl | h
      · exact .inr (by simp)
      · exact .inl h
    · exact .inr (List.mem_cons_of_mem _ h)

theorem mem_of_mem_ofList {entries : List (String × α)} {entry : String × α}
    (h : entry ∈ ofList entries) : entry ∈ entries :=
  (mem_of_mem_merge h).resolve_left (by simp)

/-- After a merge the last value given under a key counts. -/
theorem get?_merge (fs gs : Fields α) (key : String) :
    (fs.merge gs).get? key = (get? gs.reverse key).or (fs.get? key) := by
  induction gs generalizing fs with
  | nil => rfl
  | cons entry rest ih =>
    have hstep : fs.merge (entry :: rest) = (fs.insert entry.1 entry.2).merge rest := rfl
    rw [hstep, ih, List.reverse_cons, get?_append, Option.or_assoc, get?_insert, get?_cons,
      get?_nil]
    split <;> rfl

theorem get?_ofList (entries : List (String × α)) (key : String) :
    (ofList entries).get? key = get? entries.reverse key := by
  rw [ofList, get?_merge, get?_nil, Option.or_none]

/-- A merge appends the keys that are new, in the order in which they first occur. -/
theorem keys_merge (fs gs : Fields α) :
    (fs.merge gs).keys = fs.keys ++ (gs.keys.removeAll fs.keys).eraseDups := by
  induction gs generalizing fs with
  | nil => simp [merge, List.removeAll]
  | cons entry rest ih =>
    obtain ⟨k, v⟩ := entry
    have hstep : fs.merge ((k, v) :: rest) = (fs.insert k v).merge rest := rfl
    have hkeys : keys ((k, v) :: rest) = k :: keys rest := rfl
    rw [hstep, ih, keys_insert, hkeys]
    by_cases h : k ∈ fs.keys
    · simp [h, List.removeAll]
    · simp [h, List.removeAll, List.eraseDups_cons, List.filter_filter, Bool.and_comm]
      rfl

theorem keys_ofList (entries : List (String × α)) :
    (ofList entries).keys = (entries.map (·.1)).eraseDups := by
  rw [ofList, keys_merge]
  simp [keys, List.removeAll_nil]

theorem distinct_append {fs gs : Fields α} (hfs : fs.Distinct) (hgs : gs.Distinct)
    (hdisjoint : ∀ key ∈ fs.keys, key ∉ gs.keys) : Distinct (fs ++ gs) := by
  rw [Distinct, keys, List.map_append]
  exact List.nodup_append.2 ⟨hfs, hgs,
    fun key hkey other hother heq ↦ hdisjoint key hkey (heq ▸ hother)⟩

theorem insert_of_notMem {fs : Fields α} {key : String} (h : key ∉ fs.keys) (value : α) :
    fs.insert key value = fs ++ [(key, value)] := by
  induction fs with
  | nil => rfl
  | cons entry rest ih =>
    obtain ⟨k, v⟩ := entry
    simp only [keys, List.map_cons, List.mem_cons, not_or] at h
    rw [insert, if_neg (Ne.symm h.1), ih h.2, List.cons_append]

theorem merge_eq_append {fs gs : Fields α} (h : Distinct (fs ++ gs)) : fs.merge gs = fs ++ gs := by
  induction gs generalizing fs with
  | nil => simp [merge]
  | cons entry rest ih =>
    obtain ⟨k, v⟩ := entry
    have hk : k ∉ fs.keys := by
      intro hmem
      rw [Distinct, keys, List.map_append, List.nodup_append] at h
      exact h.2.2 k hmem k (by simp) rfl
    have hstep : fs.merge ((k, v) :: rest) = (fs.insert k v).merge rest := rfl
    rw [hstep, insert_of_notMem hk, ih (by simpa using h), List.append_assoc, List.cons_append,
      List.nil_append]

/-- Collecting entries with distinct keys changes nothing. -/
theorem ofList_eq_self {fs : Fields α} (h : fs.Distinct) : ofList fs = fs :=
  merge_eq_append (by simpa using h)

/-- A map with distinct keys is determined by the order of its keys and by what look-up finds. -/
theorem ext_of_distinct {fs gs : Fields α} (h : fs.Distinct) (hkeys : fs.keys = gs.keys)
    (hget : ∀ key, fs.get? key = gs.get? key) : fs = gs := by
  induction fs generalizing gs with
  | nil => exact (List.map_eq_nil_iff.1 hkeys.symm).symm
  | cons entry rest ih =>
    obtain ⟨k, v⟩ := entry
    obtain ⟨⟨k', v'⟩, rest', rfl, hk, hrest⟩ := List.map_eq_cons_iff.1 hkeys.symm
    obtain rfl : k' = k := hk
    rw [Distinct, keys, List.map_cons, List.nodup_cons] at h
    have hv : v = v' := by
      have hself := hget k'
      rw [get?_cons, get?_cons, if_pos rfl, if_pos rfl] at hself
      exact Option.some.inj hself
    have hothers : ∀ key, get? rest key = get? rest' key := by
      intro key
      by_cases hkey : k' = key
      · subst hkey
        rw [get?_eq_none_iff.2 h.1, get?_eq_none_iff.2 (fun hmem ↦ h.1 (hrest ▸ hmem))]
      · have hother := hget key
        rwa [get?_cons, get?_cons, if_neg hkey, if_neg hkey] at hother
    rw [hv, ih h.2 hrest.symm hothers]

theorem remove_of_notMem {fs : Fields α} {key : String} (h : key ∉ fs.keys) :
    fs.remove key = fs := by
  induction fs with
  | nil => rfl
  | cons entry rest ih =>
    obtain ⟨k, v⟩ := entry
    simp only [keys, List.map_cons, List.mem_cons, not_or] at h
    rw [remove, if_neg (Ne.symm h.1), ih h.2]

/-- The last entry leaves no gap. -/
theorem remove_append_singleton {fs : Fields α} {key : String} (h : key ∉ fs.keys) (value : α) :
    remove (fs ++ [(key, value)]) key = fs := by
  induction fs with
  | nil => simp [remove]
  | cons entry rest ih =>
    obtain ⟨k, v⟩ := entry
    simp only [keys, List.map_cons, List.mem_cons, not_or] at h
    rw [List.cons_append, remove, if_neg (Ne.symm h.1), ih h.2]

/-- Which keys are left, and in which order, depends on the keys only. -/
theorem keys_remove_congr {fs : Fields α} {gs : Fields β} (h : fs.keys = gs.keys) (key : String) :
    (fs.remove key).keys = (gs.remove key).keys := by
  induction fs generalizing gs with
  | nil =>
    obtain rfl : gs = [] := List.map_eq_nil_iff.1 h.symm
    rfl
  | cons entry rest ih =>
    obtain ⟨k, v⟩ := entry
    obtain ⟨⟨k', v'⟩, rest', rfl, hk, hrest⟩ := List.map_eq_cons_iff.1 h.symm
    obtain rfl : k' = k := hk
    rw [remove, remove]
    by_cases hkey : k' = key
    · -- the last key moves into the gap
      have hlast : rest.getLast?.map (·.1) = rest'.getLast?.map (·.1) := by
        rw [← List.getLast?_map, ← List.getLast?_map, hrest]
      have hinit : rest.dropLast.map (·.1) = rest'.dropLast.map (·.1) := by
        rw [List.map_dropLast, List.map_dropLast, hrest]
      rw [if_pos hkey, if_pos hkey]
      cases hl : rest.getLast? <;> cases hl' : rest'.getLast? <;>
        simp_all [keys]
    · rw [if_neg hkey, if_neg hkey]
      exact congrArg (k' :: ·) (ih hrest.symm)

/-- Removal drops the first entry under the key and keeps all others, in some order. -/
theorem remove_perm (fs : Fields α) (key : String) :
    (fs.remove key).Perm (fs.eraseP (·.1 = key)) := by
  induction fs with
  | nil => exact .nil
  | cons entry rest ih =>
    obtain ⟨k, v⟩ := entry
    rw [remove]
    by_cases h : k = key
    · simp only [List.eraseP_cons_of_pos, h, decide_true]
      cases hlast : rest.getLast? with
      | none => simp_all
      | some last =>
        obtain ⟨init, rfl⟩ := List.getLast?_eq_some_iff.1 hlast
        simpa using (List.perm_append_comm : ([last] ++ init).Perm (init ++ [last]))
    · simpa [h] using ih.cons (k, v)

theorem Distinct.remove {fs : Fields α} (h : fs.Distinct) (key : String) :
    (fs.remove key).Distinct := by
  have hsub : ((fs.eraseP (·.1 = key)).map (·.1)).Sublist (fs.map (·.1)) :=
    List.eraseP_sublist.map _
  exact ((remove_perm fs key).map _).nodup_iff.2 (List.Nodup.sublist hsub h)

theorem get?_remove {fs : Fields α} (h : fs.Distinct) (key key' : String) :
    (fs.remove key).get? key' = if key = key' then none else fs.get? key' := by
  have hperm := remove_perm fs key
  have hmem : ∀ v, (key', v) ∈ fs.remove key ↔ key ≠ key' ∧ (key', v) ∈ fs := by
    intro v
    rw [hperm.mem_iff]
    clear hperm
    induction fs with
    | nil => simp
    | cons entry rest ih =>
      obtain ⟨k, w⟩ := entry
      rw [Distinct, keys, List.map_cons, List.nodup_cons] at h
      by_cases hk : k = key
      · subst hk
        have hnot : (k, v) ∉ rest := fun hin ↦ h.1 (List.mem_map.2 ⟨_, hin, rfl⟩)
        simp only [decide_true, List.eraseP_cons_of_pos, List.mem_cons, Prod.mk.injEq]
        constructor
        · intro hin
          refine ⟨?_, Or.inr hin⟩
          rintro rfl
          exact hnot hin
        · rintro ⟨hne, ⟨heq, -⟩ | hin⟩
          · exact absurd heq.symm hne
          · exact hin
      · simp only [hk, decide_false, Bool.false_eq_true, not_false_eq_true,
          List.eraseP_cons_of_neg, List.mem_cons, Prod.mk.injEq, ih h.2]
        constructor
        · rintro (⟨rfl, rfl⟩ | ⟨hne, hin⟩)
          · exact ⟨Ne.symm hk, Or.inl ⟨rfl, rfl⟩⟩
          · exact ⟨hne, Or.inr hin⟩
        · rintro ⟨hne, heq | hin⟩
          · exact Or.inl heq
          · exact Or.inr ⟨hne, hin⟩
  have hdist := h.remove key
  apply Option.ext
  intro v
  rw [get?_eq_some_iff_mem hdist, hmem]
  split
  · simp_all
  · rename_i hne
    simp [hne, get?_eq_some_iff_mem h]

theorem get?_remove_self {fs : Fields α} (h : fs.Distinct) (key : String) :
    (fs.remove key).get? key = none := by
  rw [get?_remove h, if_pos rfl]

theorem get?_remove_of_ne {fs : Fields α} (h : fs.Distinct) {key key' : String} (hne : key' ≠ key) :
    (fs.remove key).get? key' = fs.get? key' := by
  rw [get?_remove h, if_neg (Ne.symm hne)]

end Fields

end ModelCatalog
