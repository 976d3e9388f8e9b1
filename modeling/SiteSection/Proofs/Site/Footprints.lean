import SiteSection.Proofs.Plan.Outlines
import SiteSection.Proofs.Site.Sealed

/-! # The footprints of a sealed site

  A building of a sealed site was made of a footprint and placed on the ground. Placing moves
  all corners to one elevation, the roof, and leaves the plan as it is. In exact arithmetic the
  footprint closes the ring of the plan by its first corner.
-/

namespace SiteSection

/-! ## Where the buildings come from -/

namespace Draft

variable {α : Type} [Scalar α]

/-- Every building of a draft was made of a footprint. -/
theorem exists_footprint_afterAll (settings : Settings α) (calls : List (Call α)) :
    ∀ b ∈ ((empty settings).afterAll calls).buildings,
      ∃ footprint height absorption name,
        Building.ofFootprint? footprint height absorption name = .ok b := by
  refine afterAll_invariant (fun d => ∀ b ∈ d.buildings, ∃ footprint height absorption name,
    Building.ofFootprint? footprint height absorption name = .ok b) ?_ (by simp [empty]) calls
  rintro d c ⟨d', i⟩ hd h
  cases Call.adds_of_outcome h with
  | building _ hb =>
    refine List.forall_mem_append.mpr ⟨hd, fun b hmem => ?_⟩
    rw [List.mem_singleton.mp hmem]
    exact ⟨_, _, _, _, hb⟩
  | buildingOnGround _ hb _ =>
    refine List.forall_mem_append.mpr ⟨hd, fun b hmem => ?_⟩
    rw [List.mem_singleton.mp hmem]
    exact ⟨_, _, _, _, hb⟩
  | region | rectangle | wall | point | line => exact hd

end Draft

/-! ## Roofs -/

namespace Building

variable {α : Type} [Scalar α] {footprint : List (Point3 α)} {height : α} {absorption : List α}
  {name : Int} {b : Building α}

theorem head?_closeRing (ring : List (Point3 α)) : (closeRing ring).head? = ring.head? := by
  rw [closeRing]
  split
  · next hfirst _ =>
    split
    · rfl
    · rw [List.head?_append, hfirst]
      rfl
  · rfl

/-- A building has its height and its first corner from what it was made of. -/
theorem given_of_ofFootprint? (h : ofFootprint? footprint height absorption name = .ok b) :
    b.height = height ∧ ¬ height < 0 ∧ ∃ first, footprint.head? = some first ∧
      b.footprint.head? = some first := by
  rw [ofFootprint?] at h
  split at h
  · cases h
  · next plan hplan =>
    split at h
    · cases h
    · next hheight =>
      cases h
      cases footprint with
      | nil => cases hplan
      | cons first rest =>
        refine ⟨rfl, hheight, first, rfl, ?_⟩
        rw [head?_closeRing, head?_dropRepeats]
        rfl

/-- The roof of a building that is placed. -/
theorem roofZ_place {first : Point3 α} (hfirst : b.footprint.head? = some first) (ground : α)
    (absolute : Bool) : (b.place ground absolute).roofZ =
      if b.saysRoof && (absolute || Scalar.isNaN b.height) then b.roofZ
      else if Scalar.isNaN b.height then ground else b.height + ground := by
  simp only [place, roofZ, List.head?_map, hfirst]
  rfl

/-- The height of a building that is placed follows from its roof, or is the one it had. -/
theorem height_place {first : Point3 α} (hfirst : b.footprint.head? = some first) (ground : α)
    (absolute : Bool) : (b.place ground absolute).height =
      if Scalar.isNaN b.height || absolute && b.saysRoof then
        Scalar.floorZero ((b.place ground absolute).roofZ - ground)
      else b.height := by
  rw [roofZ_place hfirst]
  rfl

/-- A building that was placed has its roof over all corners. -/
theorem z_of_mem_place {ground : α} {absolute : Bool} {p : Point3 α}
    (hp : p ∈ (b.place ground absolute).footprint) : p.z = (b.place ground absolute).roofZ := by
  obtain ⟨roof, hroof⟩ :
      ∃ roof, (b.place ground absolute).footprint = b.footprint.map (·.withZ roof) := ⟨_, rfl⟩
  rw [roofZ, hroof]
  rw [hroof] at hp
  obtain ⟨q, hq, rfl⟩ := List.mem_map.mp hp
  cases hf : b.footprint with
  | nil =>
    rw [hf] at hq
    cases hq
  | cons => rfl

theorem plan_place (b : Building α) (ground : α) (absolute : Bool) :
    (b.place ground absolute).plan = b.plan := rfl

theorem map_plan_place (b : Building α) (ground : α) (absolute : Bool) :
    (b.place ground absolute).footprint.map Point3.plan = b.footprint.map Point3.plan :=
  List.map_map

end Building

namespace Site

variable {α : Type} [Circular α] {s : Site α}

/-- A building of a sealed site was made of a footprint and placed. -/
theorem IsSealed.exists_place (h : s.IsSealed) {B : Building α} (hB : B ∈ s.buildings) :
    ∃ footprint height absorption name b ground absolute,
      Building.ofFootprint? footprint height absorption name = .ok b ∧
      B = b.place ground absolute := by
  obtain ⟨settings, calls, terrain, rfl⟩ := h
  obtain ⟨b, hb, rfl⟩ := List.mem_map.mp hB
  obtain ⟨footprint, height, absorption, name, hmade⟩ :=
    Draft.exists_footprint_afterAll settings calls b hb
  exact ⟨footprint, height, absorption, name, b, _, _, hmade, rfl⟩

/-- All corners of a building are at its roof. -/
theorem IsSealed.z_of_mem_footprint (h : s.IsSealed) {B : Building α} (hB : B ∈ s.buildings)
    {p : Point3 α} (hp : p ∈ B.footprint) : p.z = B.roofZ := by
  obtain ⟨_, _, _, _, b, ground, absolute, _, rfl⟩ := h.exists_place hB
  exact Building.z_of_mem_place hp

end Site

/-! ## Closed rings -/

/-- The footprint of a building is the ring of its plan, closed. -/
theorem Building.map_plan_footprint {K : Type} [ExactScalar K] {footprint : List (Point3 K)}
    {height : K} {absorption : List K} {name : Int} {b : Building K}
    (h : ofFootprint? footprint height absorption name = .ok b) :
    b.footprint.map Point3.plan = b.plan.ring ++ b.plan.ring.head?.toList := by
  obtain ⟨first, closing, hfirst, hclosing, hmap⟩ := exists_closing_footprint h
  rw [hmap, hfirst, ← eq_of_beq hclosing]
  rfl

/-- The sides of a building are over the edges of its plan. -/
theorem Site.IsSealed.pathEdges_footprint {K : Type} [ExactCircular K] {s : Site K}
    (h : s.IsSealed) {B : Building K} (hB : B ∈ s.buildings) :
    (pathEdges B.footprint).map (Prod.map Point3.plan Point3.plan) = B.plan.edges := by
  obtain ⟨_, _, _, _, b, ground, absolute, hmade, rfl⟩ := h.exists_place hB
  rw [← pathEdges_map, Building.map_plan_place, Building.map_plan_footprint hmade,
    Building.plan_place, Polygon.edges, ringEdges_eq]

end SiteSection
