import SiteSection.Proofs.Section.Repeats

/-! # Capping run by run

  Capping compares a point with the last two that were kept, and with nothing else. What it
  does is said in terms of runs, though: neighbours that are one event make a run, and a run is
  cut to its first two points, or stays whole if it is of a building.

  The two agree because to be one event is transitive, also past the points that are dropped:
  each of them repeats the two that stand for it. Where a run ends, what was kept of it is of
  no account for the next.
-/

namespace SiteSection

namespace SectionPoint

variable {α : Type} {R points : List (SectionPoint α)} {parts : List (List (SectionPoint α))}

/-! ## Runs -/

/-- What is kept of a run: all of it if it is of a building, or else its first two points. -/
def keptOfRun (R : List (SectionPoint α)) : List (SectionPoint α) :=
  if R.all isBuilding then R else R.take 2

theorem keptOfRun_sublist (R : List (SectionPoint α)) : (keptOfRun R).Sublist R := by
  rw [keptOfRun]
  split
  · exact List.Sublist.refl R
  · exact List.take_sublist 2 R

theorem keptOfRun_ne_nil (R : List (SectionPoint α)) (h : R ≠ []) : keptOfRun R ≠ [] := by
  rw [keptOfRun]
  split
  · exact h
  · simpa using h

/-- What is kept of a run is kept again. -/
theorem keptOfRun_keptOfRun (R : List (SectionPoint α)) :
    keptOfRun (keptOfRun R) = keptOfRun R := by
  by_cases hall : R.all isBuilding = true
  · have hkept : keptOfRun R = R := if_pos hall
    rw [hkept, hkept]
  · have hkept : keptOfRun R = R.take 2 := if_neg hall
    rw [hkept, keptOfRun, List.take_take, Nat.min_self, ite_self]

variable [Scalar α]

/-- The points fall into these runs: neighbours that are one event, as many as there are. -/
structure IsRuns (points : List (SectionPoint α)) (parts : List (List (SectionPoint α))) :
    Prop where
  /-- The runs one after the other are the points. -/
  eq_flatten : points = parts.flatten
  /-- A run has a point. -/
  nil_notMem : [] ∉ parts
  /-- The points of a run are one event. -/
  oneEvent : ∀ R ∈ parts, R.Pairwise fun a b => a.sameEvent b = true
  /-- A run does not go on in the next: where they meet there are two events. -/
  maximal : parts.IsChain fun R S => ∃ hR hS, (R.getLast hR).sameEvent (S.head hS) = false

/-- A run is of one kind, so it is of a building or has no point of one. -/
theorem all_or_none_isBuilding (h : R.Pairwise fun a b => a.sameEvent b = true) :
    (∀ c ∈ R, c.isBuilding = true) ∨ ∀ c ∈ R, c.isBuilding = false := by
  have hkind : R.Pairwise fun a b => a.isBuilding = b.isBuilding := by
    refine h.imp fun {a b} hab => ?_
    rw [isBuilding, isBuilding, (samePlace_iff.mp (samePlace_of_sameEvent hab)).1]
  cases R with
  | nil => exact .inl fun c hc => absurd hc List.not_mem_nil
  | cons a rest =>
    have hsame : ∀ c ∈ a :: rest, c.isBuilding = a.isBuilding := by
      intro c hc
      rcases List.mem_cons.mp hc with rfl | hc
      · rfl
      · exact (List.rel_of_pairwise_cons hkind hc).symm
    cases ha : a.isBuilding with
    | true => exact .inl fun c hc => (hsame c hc).trans ha
    | false => exact .inr fun c hc => (hsame c hc).trans ha

/-- A run on its own is cut to what is kept of it. -/
theorem capRuns_of_oneEvent (h : R.Pairwise fun a b => a.sameEvent b = true) :
    capRuns R = keptOfRun R := by
  rcases all_or_none_isBuilding h with hall | hnone
  · have hkept : keptOfRun R = R := if_pos (List.all_eq_true.mpr hall)
    rw [hkept]
    exact capAfter_of_building [] hall
  · rw [capRuns_of_repeats h hnone, keptOfRun]
    split
    · next hall =>
      -- Then there is no point at all.
      have hnil : R = [] := List.eq_nil_iff_forall_not_mem.mpr fun c hc =>
        Bool.false_ne_true ((hnone c hc).symm.trans (List.all_eq_true.mp hall c hc))
      rw [hnil, List.take_nil]
    · rfl

section
variable [PartialEquivBEq α]

instance : Std.Symm fun a b : SectionPoint α => a.sameEvent b = true :=
  ⟨fun _ _ => sameEvent_symm⟩

instance : Trans (fun a b : SectionPoint α => a.sameEvent b = true)
    (fun a b => a.sameEvent b = true) fun a b => a.sameEvent b = true := ⟨sameEvent_trans⟩

/-- The runs of some points are the groups of neighbours that are one event. -/
theorem isRuns_iff : IsRuns points parts ↔ points.splitBy sameEvent = parts := by
  rw [List.splitBy_eq_iff]
  constructor
  · intro h
    exact ⟨h.eq_flatten, h.nil_notMem, fun R hR => (h.oneEvent R hR).isChain, h.maximal⟩
  · rintro ⟨hflatten, hne, hchain, hmaximal⟩
    exact ⟨hflatten, hne, fun R hR => (hchain R hR).pairwise, hmaximal⟩

/-- Capping cuts run by run. -/
theorem IsRuns.capRuns_eq (h : IsRuns points parts) :
    capRuns points = (parts.map keptOfRun).flatten := by
  -- Two runs that differ where they meet differ in all their points.
  have hdiffer : parts.IsChain Differ := by
    rw [← isRuns_iff.mp h]
    exact isChain_splitBy points
  have hkept : parts.map capRuns = parts.map keptOfRun :=
    List.map_congr_left fun R hR => capRuns_of_oneEvent (h.oneEvent R hR)
  rw [h.eq_flatten, capRuns_flatten h.nil_notMem hdiffer, hkept]

/-- What is kept of the runs are the runs of what is kept. -/
theorem IsRuns.kept (h : IsRuns points parts) :
    IsRuns (capRuns points) (parts.map keptOfRun) := by
  rw [h.capRuns_eq, isRuns_iff, ← isRuns_iff.mp h]
  exact splitBy_flatten_map keptOfRun_sublist keptOfRun_ne_nil

/-- Capping again changes nothing. -/
theorem capRuns_capRuns (points : List (SectionPoint α)) :
    capRuns (capRuns points) = capRuns points := by
  have hruns : IsRuns points (points.splitBy sameEvent) := isRuns_iff.mpr rfl
  have hagain : keptOfRun ∘ keptOfRun = keptOfRun (α := α) := funext keptOfRun_keptOfRun
  rw [hruns.kept.capRuns_eq, List.map_map, hagain, hruns.capRuns_eq]

/-- **Capping is run by run.** All points fall into runs, in one way. What is left of the points
    is what is kept of each run, and these are its runs: all of a run of a building, the first two
    points of any other. So capping again changes nothing, the order of the points stays, and no
    event, other than of buildings, is left three times in a row.

    Nothing is asked of the points: one whose ground or location is undefined is not even the same
    event as itself, and it is a run of its own. -/
theorem capRuns_run_by_run (points : List (SectionPoint α)) :
    (∃! parts, IsRuns points parts) ∧
    (∀ parts, IsRuns points parts →
      capRuns points = (parts.map keptOfRun).flatten ∧
      IsRuns (capRuns points) (parts.map keptOfRun)) ∧
    capRuns (capRuns points) = capRuns points ∧
    (capRuns points).Sublist points ∧
    ¬ HasTriple (capRuns points) := by
  refine ⟨⟨points.splitBy sameEvent, isRuns_iff.mpr rfl, ?_⟩, ?_, capRuns_capRuns points,
    capRuns_sublist points, not_hasTriple_capRuns points⟩
  · intro parts hparts
    exact (isRuns_iff.mp hparts).symm
  · intro parts hparts
    exact ⟨hparts.capRuns_eq, hparts.kept⟩

end

/-! ## Four runs at two places

  The elevation has no part in what an event is, and the two zeros are one number. -/

/-- Four walls at one place, one on other ground, three more, and three sides of a building. -/
def crowdedStops : List (SectionPoint Float) :=
  [.plain ⟨5, 0, 1⟩ .wall 0.5, .plain ⟨5, -0, 2⟩ .wall 0.5, .plain ⟨5, 0, 3⟩ .wall 0.5,
    .plain ⟨5, 0, 4⟩ .wall 0.5, .plain ⟨5, 0, 1⟩ .wall 0.25, .plain ⟨5, 0, 1⟩ .wall 0.5,
    .plain ⟨5, 0, 2⟩ .wall 0.5, .plain ⟨5, -0, 3⟩ .wall 0.5, .plain ⟨7, 0, 9⟩ .building 0.5,
    .plain ⟨7, 0, 9⟩ .building 0.5, .plain ⟨7, 0, 9⟩ .building 0.5]

/-- The wall on other ground parts the others into two runs. -/
theorem capRuns_run_by_run_crowdedStops :
    PartialEquivBEq Float ∧
    ∃ parts, IsRuns crowdedStops parts ∧ parts.map List.length = [4, 1, 3, 3] ∧
      (parts.map keptOfRun).map List.length = [2, 1, 2, 3] ∧
      capRuns crowdedStops = (parts.map keptOfRun).flatten ∧
      ¬ HasTriple (capRuns crowdedStops) := by
  have hequiv : PartialEquivBEq Float := inferInstance
  obtain ⟨⟨parts, hparts, -⟩, hcapped, -, -, hnone⟩ := capRuns_run_by_run crowdedStops
  have hsplit : crowdedStops.splitBy sameEvent = parts := isRuns_iff.mp hparts
  refine ⟨hequiv, parts, hparts, ?_, ?_, (hcapped parts hparts).1, hnone⟩
  · rw [← hsplit]
    decide +kernel
  · rw [← hsplit]
    decide +kernel

end SectionPoint

end SiteSection
