import SiteSection.Double
import SiteSection.Triangulation
import SiteSection.Proofs.Site.Unread

/-! # Strict and lax sealing

  A strict sealing stops at a topography that cannot be triangulated, a lax one goes on without
  terrain. The two give the same site wherever the strict one gives any. Where it gives none, the
  lax one gives what both give for the draft without its topography: nothing else that was
  collected is lost, and elevations are those over no terrain throughout.

  Only the topography can stop a sealing, so a lax one never fails.
-/

namespace SiteSection

/-- Every triangulation fault is reported as one. -/
theorem TriangulationFault.exists_cause {α : Type} [Written α] (f : TriangulationFault α) :
    ∃ cause, f.message = "triangulation failed: " ++ cause := by
  cases f with
  | badCoordinate fault x y =>
    refine ⟨fault.name ++ " at (" ++ written x ++ ", " ++ written y ++ ")", ?_⟩
    simp only [← String.append_assoc]
    rfl
  | noTriangle n =>
    refine ⟨toString n ++ " vertices do not form a triangle", ?_⟩
    rw [← String.append_assoc]
    rfl

/-! ## What a site keeps of a draft -/

section
variable {α : Type}

/-- What a building is apart from its elevations and its height, which are settled on the
    ground. -/
def Building.traits (b : Building α) : Int × List (Point2 α) × Polygon α × List α :=
  (b.name, b.footprint.map Point3.plan, b.plan, b.absorption)

/-- What a boundary is apart from its elevations. -/
def Boundary.traits (b : Boundary α) : Role α × (Point2 α × Bool) × (Point2 α × Bool) :=
  (b.role, (b.p0.plan, b.joined0), (b.p1.plan, b.joined1))

/-- The site has all that is in the draft but its topography, each thing in its place and under its
    name. -/
structure Site.Holds (s : Site α) (d : Draft α) : Prop where
  /-- The settings are those of the draft. -/
  settings : s.settings = d.settings
  /-- The buildings are those of the draft. -/
  buildings : s.buildings.map Building.traits = d.buildings.map Building.traits
  /-- The walls are those of the draft. -/
  walls : s.walls.map Boundary.traits = d.walls.map Boundary.traits
  /-- The ground regions are those of the draft. -/
  regions : s.regions = d.regions

end

namespace Draft

section
variable {α : Type} [Circular α] (d : Draft α)

/-- Over any terrain the site has all that is in the draft. -/
theorem holds_siteOver (terrain : Option (Terrain α)) : (d.siteOver terrain).Holds d where
  settings := rfl
  buildings := by
    have htraits : ∀ b : Building α,
        (placeBuilding terrain d.settings.absoluteRoofs b).traits = b.traits := fun b => by
      simp [placeBuilding, Building.place, Building.traits, Function.comp_def]
    simp [siteOver, Function.comp_def, htraits]
  walls := by
    have htraits : ∀ w : Boundary α, (placeWall terrain w).traits = w.traits := fun w => by
      simp [placeWall, Boundary.traits, placeWallEnd_plan]
    simp [siteOver, Function.comp_def, htraits]
  regions := rfl

end

section
variable {α : Type} [Circular α] [Triangulates α] (d : Draft α)

/-! ## Without topography -/

/-- A draft without topography is sealed over no terrain, to the site of the whole draft over
    none. -/
theorem trySeal_withoutTopography :
    d.withoutTopography.trySeal.result = .ok (d.siteOver none) := by
  have hflat : d.withoutTopography.points.length + d.withoutTopography.lines.length < 2 :=
    Nat.zero_lt_two
  exact build_of_flat hflat true

/-! ## Lax sealing -/

/-- Nothing that is reported of a terrain speaks of sealing. -/
theorem sealingFailed_notMem_terrain (f : TriangulationFault α) :
    Event.sealingFailed f ∉ d.terrain.events := by
  rw [terrain]
  split
  · simp
  · simp only [Triangulated.events, List.mem_append, List.mem_replicate]
    split <;> simp

variable {d}

/-- What a strict sealing gives, a lax one gives, and reports the same. -/
theorem sealLax_of_ok {s : Site α} (h : d.trySeal.result = .ok s) :
    d.sealLax = ⟨d.trySeal.events, s⟩ := by
  rw [trySeal] at h ⊢
  cases d.seals with
  | alike terrain hbuild =>
    rw [hbuild] at h ⊢
    cases h
    rw [sealLax, hbuild]
  | stopped f hstrict =>
    rw [hstrict] at h
    cases h

/-- Where a strict sealing is stopped, a lax one goes on over no terrain, and reports that. -/
theorem sealLax_of_error {f : TriangulationFault α} (h : d.trySeal.result = .error f) :
    d.sealLax = ⟨d.trySeal.events ++ [.terrainDropped f, sealedEvent (d.siteOver none)],
      d.siteOver none⟩ := by
  rw [trySeal] at h ⊢
  cases d.seals with
  | alike terrain hbuild =>
    rw [hbuild] at h
    cases h
  | stopped f' hstrict hlax =>
    rw [hstrict] at h ⊢
    cases h
    rw [sealLax, hlax]

variable (d)

/-- A lax sealing never fails. -/
theorem sealingFailed_notMem_sealLax (f : TriangulationFault α) :
    Event.sealingFailed f ∉ d.sealLax.events := by
  have hterrain := d.sealingFailed_notMem_terrain f
  rw [sealLax]
  cases d.seals with
  | alike terrain hbuild =>
    rw [hbuild]
    simpa [sealedEvent] using hterrain
  | stopped f' hstrict hlax =>
    rw [hlax]
    simpa [sealedEvent] using hterrain

end

/-- **Strict and lax sealing.** Let a draft be made by any additions. A lax sealing of it never
    fails. What a strict sealing gives, a lax one gives. If a strict one is stopped, which only
    topography does that cannot be triangulated, a lax one gives what a strict one gives for the
    draft without its topography, that is, for the same additions less those of points and
    break-lines: a site that has all else that was collected, and no terrain. -/
theorem sealLax_agrees {α : Type} [Circular α] [Written α] [Triangulates α]
    (settings : Settings α) (calls : List (Call α)) :
    let d := (empty settings).afterAll calls
    let bare := (empty settings).afterAll (calls.filter fun c => !c.isTopographic)
    (d.build false).result = .ok d.sealLax.result ∧
    (∀ f, Event.sealingFailed f ∉ d.sealLax.events) ∧
    (∀ s, d.trySeal.result = .ok s →
      d.sealLax.result = s ∧ d.sealLax.events = d.trySeal.events) ∧
    bare = { d with points := [], lines := [] } ∧
    ∀ f, d.trySeal.result = .error f →
      (∃ cause, f.message = "triangulation failed: " ++ cause) ∧
      bare.trySeal.result = .ok d.sealLax.result ∧
      d.sealLax.result.Holds d ∧ d.sealLax.result.terrain = none ∧
      d.sealLax.events =
        d.trySeal.events ++ [.terrainDropped f, sealedEvent d.sealLax.result] := by
  intro d bare
  have hbare : bare = d.withoutTopography :=
    afterAll_filter_topographic (empty settings) calls
  refine ⟨d.build_false_eq_sealLax, d.sealingFailed_notMem_sealLax, fun s hs => ?_, hbare,
    fun f hf => ?_⟩
  · rw [sealLax_of_ok hs]
    exact ⟨rfl, rfl⟩
  · rw [sealLax_of_error hf, hbare]
    exact ⟨f.exists_cause, d.trySeal_withoutTopography, d.holds_siteOver none, rfl, rfl⟩

/-! ## Points on a ridge -/

/-- A house and a fence, and points that are all on one ridge. -/
def onRidge : List (Call Float) :=
  [.building [⟨10, 10, 0⟩, ⟨20, 10, 0⟩, ⟨20, 20, 0⟩, ⟨10, 20, 0⟩] 5 [] 7,
    .point ⟨0, 0, 1⟩, .point ⟨1, 0, 1⟩, .point ⟨2, 0, 1⟩, .point ⟨3, 0, 1⟩,
    .wall [⟨20, 0, 0⟩, ⟨20, 10, 0⟩] 3 [] 8]

/-- Four vertices on one line have no face. -/
theorem facesOf_ridge : Triangulation.facesOf
    ([⟨0, 0, 1⟩, ⟨1, 0, 1⟩, ⟨2, 0, 1⟩, ⟨3, 0, 1⟩] : List (Point3 Float)) [] = [] := by
  rw [Triangulation.facesOf, Triangulation.sweep, List.mergeSort_of_pairwise (by decide +kernel)]
  decide +kernel

theorem trySeal_onRidge :
    ((empty Settings.default).afterAll onRidge).trySeal.result = .error (.noTriangle 4) := by
  generalize hd : (empty Settings.default).afterAll onRidge = d
  have hmany : ¬ d.points.length + d.lines.length < 2 := by
    rw [← hd]
    decide +kernel
  -- Each point is a vertex of its own, and there is no break-line.
  generalize houtline : Triangulation.Outline.ofLists d.points d.lines = o
  obtain ⟨hvertices, hlines, hsound⟩ : o.1.vertices =
      [⟨0, 0, 1⟩, ⟨1, 0, 1⟩, ⟨2, 0, 1⟩, ⟨3, 0, 1⟩] ∧ o.1.breaklines = [] ∧ o.2 = none := by
    rw [← houtline, ← hd]
    decide +kernel
  obtain ⟨outline, fault⟩ := o
  simp only at hvertices hlines hsound
  have hstopped : (Triangulates.triangulate d.points d.lines).result = .error (.noTriangle 4) := by
    show (triangulate d.points d.lines).result = _
    simp [triangulate, houtline, hsound, hlines, hvertices, facesOf_ridge]
  simp [trySeal, build, terrain, hmany, hstopped, Except.map]

/-- On the ridge the house and the fence are sealed without terrain, and so they are without the
    points. -/
theorem sealLax_agrees_onRidge :
    ∃ s : Site Float,
      ((empty Settings.default).afterAll onRidge).trySeal.result = .error (.noTriangle 4) ∧
      ((empty Settings.default).afterAll onRidge).sealLax.result = s ∧
      ((empty Settings.default).afterAll
        (onRidge.filter fun c => !c.isTopographic)).trySeal.result = .ok s ∧
      ((empty Settings.default).afterAll
        (onRidge.filter fun c => !c.isTopographic)).sealLax.result = s := by
  obtain ⟨_, _, _, hbare, hfault⟩ := sealLax_agrees (Settings.default : Settings Float) onRidge
  obtain ⟨_, hstrict, _⟩ := hfault _ trySeal_onRidge
  have hagain := (sealLax_agrees (Settings.default : Settings Float)
    (onRidge.filter fun c => !c.isTopographic)).2.2.1 _ hstrict
  exact ⟨_, trySeal_onRidge, rfl, hstrict, hagain.1⟩

end Draft

end SiteSection
