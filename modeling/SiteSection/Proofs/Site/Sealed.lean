import SiteSection.Site.Sealing

/-! # Sealed sites

  The sites that come from a draft: some additions, accepted or refused in any order, and a
  sealing. What every addition preserves holds of every sealed site; here, that the ground
  coefficients are finite.
-/

namespace SiteSection

namespace Draft

variable {α : Type}

/-! ## Additions -/

/-- An addition that can be asked of a draft. -/
inductive Call (α : Type) where
  /-- A ground region. -/
  | region (polygons : List (Polygon α)) (coefficient : α)
  /-- An axis-parallel ground region. -/
  | rectangle (a b : Point2 α) (coefficient : α)
  /-- A building. -/
  | building (footprint : List (Point3 α)) (height : α) (absorption : List α) (name : Int)
  /-- A wall. -/
  | wall (polyline : List (Point3 α)) (height : α) (absorption : List α) (name : Int)
  /-- An elevation point. -/
  | point (p : Point3 α)
  /-- A break-line. -/
  | line (a b : Point3 α)

section
variable [Scalar α]

/-- The outcome of an addition. -/
def Call.outcome (c : Call α) (d : Draft α) : Addition α :=
  match c with
  | .region polygons coefficient => d.addRegion polygons coefficient
  | .rectangle a b coefficient => d.addRectangle a b coefficient
  | .building footprint height absorption name => d.addBuilding footprint height absorption name
  | .wall polyline height absorption name => d.addWall polyline height absorption name
  | .point p => d.addPoint p
  | .line a b => d.addLine a b

/-- The draft after an addition; a refused one leaves it as it was. -/
def after (d : Draft α) (c : Call α) : Draft α :=
  match c.outcome d with
  | .ok e => e.1
  | .error _ => d

/-- The draft after some additions, one after the other. -/
def afterAll (d : Draft α) (calls : List (Call α)) : Draft α := calls.foldl after d

/-- What every accepted addition preserves, every run of additions preserves. -/
theorem afterAll_invariant (inv : Draft α → Prop)
    (hstep : ∀ d (c : Call α) e, inv d → c.outcome d = .ok e → inv e.1) {d : Draft α}
    (hd : inv d) (calls : List (Call α)) : inv (d.afterAll calls) := by
  induction calls generalizing d with
  | nil => exact hd
  | cons c calls ih =>
    refine ih (d := d.after c) ?_
    rw [after]
    split
    · next e he => exact hstep d c e hd he
    · exact hd

/-- A mapped outcome is accepted where the outcome is. -/
theorem exists_of_map_eq_ok {ε β γ : Type} {x : Except ε β} {f : β → γ} {c : γ}
    (h : x.map f = .ok c) : ∃ b, x = .ok b ∧ f b = c := by
  cases x with
  | error => cases h
  | ok b => exact ⟨b, rfl, Except.ok.inj h⟩

/-! ## What an addition adds -/

/-- What an accepted addition does to a draft. New entities go to the ends of their lists, and
    the number is the place of the first of them. A building goes with a region where the
    settings make buildings ground. -/
inductive Call.Adds (d : Draft α) : Call α → Draft α → Nat → Prop where
  | region {polygons : List (Polygon α)} {coefficient : α} {r : GroundRegion α}
      (hr : GroundRegion.ofPolygons? polygons coefficient = .ok r) :
      Adds d (.region polygons coefficient) { d with regions := d.regions ++ [r] }
        d.regions.length
  | rectangle {a b : Point2 α} {coefficient : α} {p : Polygon α} {r : GroundRegion α}
      (hp : Polygon.rectangle? (Coordinates.least a b) (Coordinates.greatest a b) = .ok p)
      (hr : GroundRegion.ofPolygons? [p] coefficient = .ok r) :
      Adds d (.rectangle a b coefficient) { d with regions := d.regions ++ [r] }
        d.regions.length
  | building {footprint : List (Point3 α)} {height : α} {absorption : List α} {name : Int}
      {b : Building α} (hground : d.settings.buildingGround = none)
      (hb : Building.ofFootprint? footprint height absorption name = .ok b) :
      Adds d (.building footprint height absorption name)
        { d with buildings := d.buildings ++ [b] } d.buildings.length
  | buildingOnGround {footprint : List (Point3 α)} {height : α} {absorption : List α}
      {name : Int} {b : Building α} {coefficient : α} {r : GroundRegion α}
      (hground : d.settings.buildingGround = some coefficient)
      (hb : Building.ofFootprint? footprint height absorption name = .ok b)
      (hr : GroundRegion.ofPolygons? [b.plan] coefficient = .ok r) :
      Adds d (.building footprint height absorption name)
        { d with buildings := d.buildings ++ [b], regions := d.regions ++ [r] }
        d.buildings.length
  | wall {polyline : List (Point3 α)} {height : α} {absorption : List α} {name : Int}
      (hsound : wallFault? polyline height = none) :
      Adds d (.wall polyline height absorption name)
        { d with walls := d.walls ++ wallSegments polyline height absorption name d.walls.length }
        d.walls.length
  | point {p q : Point3 α} (hp : d.topographic p = .ok q) :
      Adds d (.point p) { d with points := d.points ++ [q] } d.points.length
  | line {a b a' b' : Point3 α} (ha : d.topographic a = .ok a') (hb : d.topographic b = .ok b') :
      Adds d (.line a b) { d with lines := d.lines ++ [(a', b')] } d.lines.length

theorem addRegion_eq_ok {d : Draft α} {polygons : List (Polygon α)} {coefficient : α}
    {e : Draft α × Nat} (h : d.addRegion polygons coefficient = .ok e) :
    ∃ r, GroundRegion.ofPolygons? polygons coefficient = .ok r ∧
      e = ({ d with regions := d.regions ++ [r] }, d.regions.length) := by
  rw [addRegion] at h
  split at h
  · cases h
  · next r hr => exact ⟨r, hr, (Except.ok.inj h).symm⟩

/-- An accepted addition adds what is asked for, and does nothing else. -/
theorem Call.adds_of_outcome {d d' : Draft α} {c : Call α} {i : Nat}
    (h : c.outcome d = .ok (d', i)) : c.Adds d d' i := by
  cases c with
  | region =>
    obtain ⟨r, hr, he⟩ := addRegion_eq_ok h
    cases he
    exact .region hr
  | rectangle =>
    simp only [outcome, addRectangle] at h
    split at h
    · cases h
    · next p hp =>
      obtain ⟨r, hr, he⟩ := addRegion_eq_ok h
      cases he
      exact .rectangle hp hr
  | building =>
    simp only [outcome, addBuilding] at h
    split at h
    · cases h
    · next b hb =>
      split at h
      · next hground =>
        cases h
        exact .building hground hb
      · next hground =>
        obtain ⟨e', he', he⟩ := exists_of_map_eq_ok h
        obtain ⟨r, hr, rfl⟩ := addRegion_eq_ok he'
        cases he
        exact .buildingOnGround hground hb hr
  | wall =>
    simp only [outcome, addWall] at h
    split at h
    · cases h
    · next hsound =>
      cases h
      exact .wall hsound
  | point =>
    obtain ⟨q, hq, he⟩ := exists_of_map_eq_ok h
    cases he
    exact .point hq
  | line =>
    simp only [outcome, addLine] at h
    split at h
    · cases h
    · next ha =>
      split at h
      · cases h
      · next hb =>
        cases h
        exact .line ha hb

theorem addRegion_of_ok {d : Draft α} {polygons : List (Polygon α)} {coefficient : α}
    {r : GroundRegion α} (hr : GroundRegion.ofPolygons? polygons coefficient = .ok r) :
    d.addRegion polygons coefficient =
      .ok ({ d with regions := d.regions ++ [r] }, d.regions.length) := by
  rw [addRegion, hr]

/-- An addition is accepted where there is something that it adds. -/
theorem Call.outcome_of_adds {d d' : Draft α} {c : Call α} {i : Nat} (h : c.Adds d d' i) :
    c.outcome d = .ok (d', i) := by
  cases h with
  | region hr => exact addRegion_of_ok hr
  | rectangle hp hr =>
    simp only [outcome, addRectangle, hp]
    exact addRegion_of_ok hr
  | building hground hb => simp only [outcome, addBuilding, hb, hground]
  | buildingOnGround hground hb hr =>
    simp only [outcome, addBuilding, hb, hground, addRegion_of_ok hr]
    rfl
  | wall hsound => simp only [outcome, addWall, hsound]
  | point hp =>
    simp only [outcome, addPoint, hp]
    rfl
  | line ha hb => simp only [outcome, addLine, ha, hb]

/-- A region has a finite ground coefficient. -/
theorem isFinite_of_ofPolygons? {polygons : List (Polygon α)} {coefficient : α}
    {r : GroundRegion α} (h : GroundRegion.ofPolygons? polygons coefficient = .ok r) :
    Scalar.isFinite r.coefficient = true := by
  rw [GroundRegion.ofPolygons?] at h
  split at h
  · cases h
  · split at h
    · next hfinite =>
      cases h
      exact hfinite
    · cases h

/-- An accepted addition keeps the regions and the walls that there are, and adds regions with
    finite ground coefficients and free-standing walls. -/
theorem outcome_adds {d : Draft α} {c : Call α} {e : Draft α × Nat} (h : c.outcome d = .ok e) :
    (∃ rs, e.1.regions = d.regions ++ rs ∧ ∀ r ∈ rs, Scalar.isFinite r.coefficient = true) ∧
    ∃ ws, e.1.walls = d.walls ++ ws ∧ ∀ w ∈ ws, w.kind = .wall := by
  have hnone : ∃ ws, d.walls = d.walls ++ ws ∧ ∀ w ∈ ws, w.kind = .wall :=
    ⟨[], by simp, by simp⟩
  obtain ⟨d', i⟩ := e
  cases Call.adds_of_outcome h with
  | region hr => exact ⟨⟨_, rfl, by simpa using isFinite_of_ofPolygons? hr⟩, hnone⟩
  | rectangle _ hr => exact ⟨⟨_, rfl, by simpa using isFinite_of_ofPolygons? hr⟩, hnone⟩
  | buildingOnGround _ _ hr => exact ⟨⟨_, rfl, by simpa using isFinite_of_ofPolygons? hr⟩, hnone⟩
  | wall =>
    refine ⟨⟨[], by simp, by simp⟩, _, rfl, fun w hw => ?_⟩
    obtain ⟨e, _, rfl⟩ := List.mem_map.mp hw
    rfl
  | building | point | line => exact ⟨⟨[], by simp, by simp⟩, hnone⟩

/-- After any additions every ground coefficient is finite and every wall free-standing. -/
theorem sound_afterAll (settings : Settings α) (calls : List (Call α)) :
    (∀ r ∈ ((empty settings).afterAll calls).regions, Scalar.isFinite r.coefficient = true) ∧
    ∀ w ∈ ((empty settings).afterAll calls).walls, w.kind = .wall := by
  refine afterAll_invariant
    (fun d => (∀ r ∈ d.regions, Scalar.isFinite r.coefficient = true) ∧
      ∀ w ∈ d.walls, w.kind = .wall) ?_ ⟨by simp [empty], by simp [empty]⟩ calls
  rintro d c e ⟨hregions, hwalls⟩ h
  obtain ⟨⟨rs, hrs, hfinite⟩, ws, hws, hkind⟩ := outcome_adds h
  rw [hrs, hws]
  exact ⟨List.forall_mem_append.mpr ⟨hregions, hfinite⟩,
    List.forall_mem_append.mpr ⟨hwalls, hkind⟩⟩

end

end Draft

/-! ## Sealing -/

namespace Site

variable {α : Type} [Circular α]

/-- A site is sealed if it is that of an empty draft after some additions. -/
def IsSealed (s : Site α) : Prop :=
  ∃ settings calls terrain, s = ((Draft.empty settings).afterAll calls).siteOver terrain

theorem IsSealed.finiteGround {s : Site α} (h : s.IsSealed) :
    ∀ r ∈ s.regions, Scalar.isFinite r.coefficient = true := by
  obtain ⟨settings, calls, terrain, rfl⟩ := h
  exact (Draft.sound_afterAll settings calls).1

end Site

/-! ## Both sealings -/

namespace Draft

variable {α : Type} [Circular α] [Triangulates α] (settings : Settings α)
  (calls : List (Call α))

/-- How the sealings of a draft go. -/
inductive Seals (d : Draft α) : Prop where
  /-- They are over one terrain, or none, and do the same. -/
  | alike (terrain : Option (Terrain α))
      (h : ∀ strict, d.build strict =
        ⟨d.terrain.events ++ [sealedEvent (d.siteOver terrain)], .ok (d.siteOver terrain)⟩)
  /-- The strict one is stopped by a fault, and the lax one is over no terrain. -/
  | stopped (f : TriangulationFault α)
      (hstrict : d.build true = ⟨d.terrain.events, .error f⟩)
      (hlax : d.build false =
        ⟨d.terrain.events ++ [.terrainDropped f, sealedEvent (d.siteOver none)],
          .ok (d.siteOver none)⟩)

theorem seals (d : Draft α) : d.Seals := by
  cases h : d.terrain.result with
  | ok terrain => exact .alike terrain fun strict => by simp [build, h]
  | error f => exact .stopped f (by simp [build, h]) (by simp [build, h])

/-- A lax sealing gives what was built. -/
theorem build_false_eq_sealLax (d : Draft α) : (d.build false).result = .ok d.sealLax.result := by
  rw [sealLax]
  cases d.seals with
  | alike terrain hbuild => rw [hbuild]
  | stopped f hstrict hlax => rw [hlax]

/-- Drafts with the same topography are sealed together, over the same terrain or over none. -/
theorem exists_siteOver_of_build {d d' : Draft α} (hpoints : d'.points = d.points)
    (hlines : d'.lines = d.lines) {strict : Bool} {s : Site α}
    (h : (d.build strict).result = .ok s) :
    ∃ terrain, s = d.siteOver terrain ∧ (d'.build strict).result = .ok (d'.siteOver terrain) := by
  have hterrain : (d'.terrain : Reported α (Except (TriangulationFault α) (Option (Terrain α)))) =
      d.terrain := by
    rw [terrain, terrain, hpoints, hlines]
  rw [build] at h ⊢
  rw [hterrain]
  split at h
  · next terrain _ =>
    cases h
    exact ⟨terrain, rfl, rfl⟩
  · cases strict with
    | true => cases h
    | false =>
      cases h
      exact ⟨none, rfl, rfl⟩

/-- Without topography to speak of, a draft is sealed over no terrain. -/
theorem build_of_flat {d : Draft α} (hflat : d.points.length + d.lines.length < 2)
    (strict : Bool) : (d.build strict).result = .ok (d.siteOver none) := by
  simp [build, terrain, hflat]

theorem isSealed_of_build {strict : Bool} {s : Site α}
    (h : (((empty settings).afterAll calls).build strict).result = .ok s) : s.IsSealed := by
  obtain ⟨terrain, hs, _⟩ := exists_siteOver_of_build rfl rfl h
  exact ⟨settings, calls, terrain, hs⟩

end Draft

end SiteSection
