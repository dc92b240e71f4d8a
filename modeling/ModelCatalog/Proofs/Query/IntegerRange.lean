import ModelCatalog.Proofs.Number.Nearest
import ModelCatalog.Proofs.Query.Vetting

/-!
# Ranges of integers

The bounds of a range are floating-point numbers, also where a request gives integers. A bound that
is exact stays what it is, any other becomes its nearest neighbour, and the bounds are compared only
then: a range that runs backwards is refused unless both of its bounds have become the same number.
-/

namespace ModelCatalog

open Outcome

/-- An integer of 64 bits. -/
def IsBound (n : Int) : Prop := Number.minInt ≤ n ∧ n ≤ maxBound

/-- An integer that stays what it is as a bound. The greatest bound becomes `2 ^ 63` and is cut down
again. -/
def IsKept (n : Int) : Prop := IsExact n ∨ n = maxBound

def integerRange (first last : Int) : String × Json :=
  ("range", .array [.number (.int first), .number (.int last)])

private theorem clampInteger_of_isBound {n : Int} (h : IsBound n) : clampInteger n = n := by
  rw [clampInteger, min_eq_left h.2, max_eq_right h.1]

private theorem natAbs_lt_of_isBound {n : Int} (h : IsBound n) : n.natAbs < 2 ^ 64 := by
  obtain ⟨hmin, hmax⟩ := h
  rw [Number.minInt] at hmin
  rw [maxBound] at hmax
  omega

/-- Next to the greatest bound, only `2 ^ 63` is exact. -/
theorem maxBound_le_of_isNearest {x : Int} (h : IsNearest maxBound x) : maxBound ≤ x := by
  have hexact : IsExact (maxBound + 1) := ⟨1, 63, by decide, by decide⟩
  have hdist := h.nearest _ hexact
  have hne : x ≠ maxBound - 1 := by
    rintro rfl
    rcases h.exact.dvd_or_natAbs_lt 10 with hdvd | hlt
    · exact absurd hdvd (by decide)
    · exact absurd hlt (by decide)
  omega

private theorem clampInteger_eq_iff {n x : Int} (hn : IsBound n) (h : IsNearest n x) :
    clampInteger x = n ↔ IsKept n := by
  constructor
  · intro hclamp
    by_cases hexact : IsExact n
    · exact .inl hexact
    · have hne : x ≠ n := fun heq ↦ hexact (heq ▸ h.exact)
      have hmin : n ≠ Number.minInt := fun heq ↦ hexact (heq ▸ ⟨1, 63, by decide, by decide⟩)
      rw [clampInteger] at hclamp
      exact .inr (by omega)
  · rintro (hexact | rfl)
    · rw [h.eq_of_isExact hexact, clampInteger_of_isBound hn]
    · rw [clampInteger, min_eq_right (maxBound_le_of_isNearest h)]
      rfl

/-- The bounds of a range of integers are rounded, compared and cut down. -/
theorem exists_rangeBetween_eq {first last : Int} (hfirst : first.natAbs < 2 ^ 64)
    (hlast : last.natAbs < 2 ^ 64) :
    ∃ low high, IsNearest first low ∧ IsNearest last high ∧
      rangeBetween (.number (.int first)) (.number (.int last)) =
        if low ≤ high then .ok (clampInteger low, clampInteger high)
        else .error (.invalidRange (toString first) (toString last)) := by
  obtain ⟨b, low, hb, hlow, hnearest⟩ := Binary64.exists_ofInt?_eq_some hfirst
  obtain ⟨c, high, hc, hhigh, hnearest'⟩ := Binary64.exists_ofInt?_eq_some hlast
  refine ⟨low, high, hnearest, hnearest', ?_⟩
  have hread : readBound? (.number (.int first)) = some b := hb
  have hread' : readBound? (.number (.int last)) = some c := hc
  rw [rangeBetween, hread, hread']
  dsimp only
  rw [hlow.truncate_eq, hhigh.truncate_eq]
  exact if_congr (hlow.le_iff hhigh) rfl rfl

namespace Registry

variable {registry : Registry} {model : String} {allowed : AllowedParameters}
  {params : Fields Json} {plan : List Step}

private theorem planQuery_append (h : registry.planQuery allowed model params = .ok plan)
    (entry : String × Json) : registry.planQuery allowed model (params ++ [entry]) =
      (plan ++ ·) <$> registry.planEntry allowed model entry := by
  obtain ⟨m, hm, h⟩ := bind_eq_ok_iff.1 h
  obtain ⟨parts, hparts, hplan⟩ := bind_eq_ok_iff.1 h
  rw [planQuery, hm, ok_bind, List.mapM_append, hparts, ok_bind]
  rw [← pure_eq_ok_iff.1 hplan]
  cases hentry : registry.planEntry allowed model entry with
  | error e => simp [hentry]
  | ok steps => simp [hentry]

private theorem planEntry_integerRange (hallowed : allowed.contains "range") (first last : Int) :
    registry.planEntry allowed model (integerRange first last) =
      (fun bounds ↦ [.range bounds.1 bounds.2]) <$>
        rangeBetween (.number (.int first)) (.number (.int last)) := by
  have hkey : allowed.contains Parameter.range.key := hallowed
  have hfind : allowed.find? "range" = some .range := AllowedParameters.find?_key hkey
  have hread : readRange (.array [.number (.int first), .number (.int last)]) =
      some <$> rangeBetween (.number (.int first)) (.number (.int last)) := rfl
  rw [planEntry, integerRange, hfind]
  dsimp only
  rw [planParameter, hread]
  cases rangeBetween (.number (.int first)) (.number (.int last)) <;> rfl

/-- **Ranges of integers.** The bounds of a range are the exact integers nearest to those that a
request gives, cut down to 64 bits, and it is these that have to be in order. So a range in order is
kept exactly if its bounds are, and one that runs backwards is refused exactly if its bounds do not
become one. -/
theorem planQuery_integerRange (h : registry.planQuery allowed model params = .ok plan)
    (hallowed : allowed.contains "range") {first last : Int}
    (hfirst : IsBound first) (hlast : IsBound last) :
    ∃ low high, IsNearest first low ∧ IsNearest last high ∧
      registry.planQuery allowed model (params ++ [integerRange first last]) =
        (if low ≤ high then .ok (plan ++ [.range (clampInteger low) (clampInteger high)])
          else .error (.invalidRange (toString first) (toString last))) ∧
      (first ≤ last → (registry.planQuery allowed model (params ++ [integerRange first last]) =
        .ok (plan ++ [.range first last]) ↔ IsKept first ∧ IsKept last)) ∧
      (last < first → (registry.planQuery allowed model (params ++ [integerRange first last]) =
        .error (.invalidRange (toString first) (toString last)) ↔ low ≠ high)) := by
  obtain ⟨low, high, hlow, hhigh, hrange⟩ :=
    exists_rangeBetween_eq (natAbs_lt_of_isBound hfirst) (natAbs_lt_of_isBound hlast)
  have hplan : registry.planQuery allowed model (params ++ [integerRange first last]) =
      if low ≤ high then .ok (plan ++ [.range (clampInteger low) (clampInteger high)])
      else .error (.invalidRange (toString first) (toString last)) := by
    rw [planQuery_append h, planEntry_integerRange hallowed, hrange]
    split <;> rfl
  refine ⟨low, high, hlow, hhigh, hplan, fun hle ↦ ?_, fun hlt ↦ ?_⟩
  · rw [hplan, if_pos (hlow.mono hhigh hle), ← clampInteger_eq_iff hfirst hlow,
      ← clampInteger_eq_iff hlast hhigh]
    simp
  · have hge := hhigh.mono hlow hlt.le
    rw [hplan]
    split
    · rename_i hle
      simpa using le_antisymm hle hge
    · rename_i hnle
      simpa using fun heq ↦ hnle heq.le

/-- The greatest bound is kept, though it is not exact. -/
theorem planQuery_integerRange_maxBound :
    usersAndProfiles.planQuery .all "User" [] = .ok [] ∧
      AllowedParameters.all.contains "range" ∧ IsBound 1 ∧ IsBound maxBound ∧
      usersAndProfiles.planQuery .all "User" [integerRange 1 maxBound] =
        .ok [.range 1 maxBound] := by
  have hempty : usersAndProfiles.planQuery .all "User" [] = .ok [] := rfl
  have hallowed : AllowedParameters.all.contains "range" := by decide
  have hone : IsBound 1 := ⟨by decide, by decide⟩
  have hmax : IsBound maxBound := ⟨by decide, le_rfl⟩
  obtain ⟨-, -, -, -, -, hkept, -⟩ := planQuery_integerRange hempty hallowed hone hmax
  exact ⟨hempty, hallowed, hone, hmax,
    (hkept (by decide)).2 ⟨.inl (.of_natAbs_lt (by decide)), .inr rfl⟩⟩

/-- Two neighbours beyond `2 ^ 53`, in the wrong order. -/
theorem planQuery_backwards :
    (9007199254740992 : Int) < 9007199254740993 ∧ IsBound 9007199254740992 ∧
      IsBound 9007199254740993 ∧
      usersAndProfiles.planQuery .all "User" [integerRange 9007199254740993 9007199254740992] =
        .ok [.range 9007199254740992 9007199254740992] :=
  ⟨by decide, ⟨by decide, by decide⟩, ⟨by decide, by decide⟩, rfl⟩

end Registry

end ModelCatalog
