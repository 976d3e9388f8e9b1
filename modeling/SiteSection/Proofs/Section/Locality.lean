import SiteSection.Double
import SiteSection.Triangulation
import SiteSection.Proofs.Plan.Parity
import SiteSection.Proofs.Section.Arrangement
import SiteSection.Proofs.Site.Footprints
import SiteSection.Proofs.Site.Refusals

/-! # What a section does not meet

  A section depends on the site through its ground, and through the boundaries that its line
  meets. A building or a wall that the line misses may come up when the pieces of the line are
  looked up, and it moves others to later places among the boundaries; but it gives no point,
  and sections never see a place among the boundaries.

  So whatever is added behind all else clear of a line, leaves the profile of the line as it is.
  Nothing is assumed of the arithmetic: whether a line meets an edge is what the meeting test
  says, and in exact arithmetic that is the truth.
-/

namespace SiteSection

namespace Segment

variable {α : Type} [Scalar α]

/-- Where a segment meets another is a matter of the plan of the other. -/
theorem intersect?_congr (s : Segment α) {o o' : Segment α} (h0 : o.p0.plan = o'.p0.plan)
    (h1 : o.p1.plan = o'.p1.plan) : s.intersect? o = s.intersect? o' := by
  obtain ⟨⟨x0, y0, z0⟩, x1, y1, z1⟩ := o
  obtain ⟨⟨x0', y0', z0'⟩, x1', y1', z1'⟩ := o'
  cases h0
  cases h1
  rfl

/-- The segment meets none of some edges. -/
def Misses (s : Segment α) (edges : List (Point3 α × Point3 α)) : Prop :=
  ∀ e ∈ edges, s.intersect? ⟨e.1, e.2⟩ = none

instance (s : Segment α) (edges : List (Point3 α × Point3 α)) : Decidable (s.Misses edges) :=
  inferInstanceAs (Decidable (∀ e ∈ edges, s.intersect? ⟨e.1, e.2⟩ = none))

/-- Edges at other elevations are missed as well. -/
theorem Misses.of_plan {s : Segment α} {edges edges' : List (Point3 α × Point3 α)}
    (h : s.Misses edges) (hplan : edges'.map (Prod.map Point3.plan Point3.plan) =
      edges.map (Prod.map Point3.plan Point3.plan)) : s.Misses edges' := by
  intro e' he'
  have hmem : Prod.map Point3.plan Point3.plan e' ∈
      edges.map (Prod.map Point3.plan Point3.plan) :=
    hplan ▸ List.mem_map.mpr ⟨e', he', rfl⟩
  obtain ⟨e, he, heq⟩ := List.mem_map.mp hmem
  rw [Prod.map, Prod.map, Prod.mk.injEq] at heq
  rw [← h e he]
  exact s.intersect?_congr heq.1.symm heq.2.symm

/-- In exact arithmetic the edges that are missed are those without a common place. -/
theorem misses_iff {K : Type} [ExactScalar K] (s : Segment K)
    (edges : List (Point3 K × Point3 K)) :
    s.Misses edges ↔ ∀ e ∈ edges, s.Apart ⟨e.1, e.2⟩ := by
  have hnone : ∀ o : Segment K, s.intersect? o = none ↔ s.Apart o := by
    intro o
    rw [← Option.not_isSome_iff_eq_none, isSome_intersect?_iff]
    simp [Apart]
  simp only [Misses, hnone]

end Segment

/-! ## The same ground -/

namespace Site

section
variable {α : Type} [Scalar α]

/-- The sites have the same terrain and the same ground regions, looked up and sampled in the
    same way. -/
structure SameGround (s s' : Site α) : Prop where
  /-- The terrain is the same. -/
  terrain : s'.terrain = s.terrain
  /-- The ground regions are the same. -/
  regions : s'.regions = s.regions
  /-- The ground regions are looked up in the same way. -/
  regionIndex : s'.regionIndex = s.regionIndex
  /-- The terrain is thinned alike. -/
  terrainTolerance : s'.settings.terrainTolerance = s.settings.terrainTolerance
  /-- The terrain is walked alike. -/
  crossingTolerance : s'.settings.crossingTolerance = s.settings.crossingTolerance
  /-- Conflicts are settled alike. -/
  policy : s'.settings.policy = s.settings.policy

namespace SameGround

variable {s s' : Site α} (h : s.SameGround s')
include h

/-- A boundary is crossed alike. -/
theorem crossing?_eq (line : Segment α) (g : α) : s'.crossing? line g = s.crossing? line g := by
  obtain ⟨hterrain, hregions, hindex, _⟩ := h
  cases s
  cases s'
  simp only at hterrain hregions hindex
  subst hterrain hregions hindex
  rfl

theorem groundAt_eq : s'.groundAt = s.groundAt := by
  obtain ⟨_, hregions, hindex, _⟩ := h
  cases s
  cases s'
  simp only at hregions hindex
  subst hregions hindex
  rfl

theorem groundAhead_eq : s'.groundAhead = s.groundAhead := by
  funext line g p
  rw [groundAhead, groundAhead, h.groundAt_eq]

theorem terrainPoints_eq : s'.terrainPoints = s.terrainPoints := by
  funext line g
  rw [terrainPoints, terrainPoints, terrainSamples, terrainSamples, h.groundAt_eq, h.terrain,
    h.terrainTolerance, h.crossingTolerance]

theorem footOf_eq : s'.footOf = s.footOf := by
  funext c
  rw [footOf, footOf, groundZ, groundZ, h.terrain]

/-- Over the same ground a profile is known from its crossings. -/
theorem profile_eq {source receiver : Point3 α} {g : α}
    (hcrossings : s'.crossings ⟨source, receiver⟩ g = s.crossings ⟨source, receiver⟩ g) :
    s'.profile source receiver g = s.profile source receiver g := by
  simp only [profile, sectionPoints, interior, collected]
  rw [hcrossings, h.terrainPoints_eq, h.footOf_eq, h.groundAt_eq, h.groundAhead_eq, h.policy]

end SameGround

end

/-! ## Crossings in the order of the boundaries -/

section
variable {α : Type} [Scalar α]

/-- Does the box of a boundary meet that of a piece of the line? -/
def sights (s : Site α) (line : Segment α) (b : Boundary α) : Bool :=
  (line.split s.settings.pieceLength).any fun piece =>
    (Envelope.ofBox b.box).meets (Envelope.ofBox piece.box)

/-- The crossing with a boundary, if it is looked up. -/
def sighted? (s : Site α) (line : Segment α) (g : α) (b : Boundary α) :
    Option (SectionPoint α) :=
  if s.sights line b then s.crossing? line g b else none

end

section
variable {α : Type} [Circular α] {s : Site α}

/-- A boundary is looked up by its box. -/
theorem IsSealed.mem_alongPieces_iff (h : s.IsSealed) {line : Segment α} {i : Nat}
    {b : Boundary α} (hb : s.boundaries[i]? = some b) :
    i ∈ s.alongPieces s.boundaryIndex line ↔ s.sights line b = true := by
  rw [mem_alongPieces, sights, List.any_eq_true]
  refine exists_congr fun piece => and_congr_right fun _ => ?_
  rw [h.boundaryIndex_eq, BoxIndex.mem_query_zipIdx hb]

/-- The crossings of a line are those with the boundaries that are looked up, in the order of the
    boundaries. -/
theorem IsSealed.crossings_eq_sighted (h : s.IsSealed) (line : Segment α) (g : α) :
    s.crossings line g = s.boundaries.filterMap (s.sighted? line g) := by
  rw [← filterMap_of_increasing (s.sighted? line g)
    (pairwise_sortedOnce ((line.split s.settings.pieceLength).flatMap fun piece =>
      s.boundaryIndex.query piece.box))]
  · apply List.filterMap_congr
    intro b hb
    obtain ⟨i, hi, hget⟩ := List.mem_filterMap.mp hb
    rw [sighted?, if_pos ((h.mem_alongPieces_iff hget).mp hi)]
  · intro i b hget hsome
    apply (h.mem_alongPieces_iff hget).mpr
    by_contra hnot
    rw [sighted?, if_neg hnot] at hsome
    cases hsome

end

end Site

/-! ## Additions clear of a line -/

namespace Draft

/-- The ends of the segments of a wall are those of the legs. -/
theorem map_wallSegments {α : Type} (polyline : List (Point3 α)) (height : α)
    (absorption : List α) (name : Int) (first : Nat) :
    (wallSegments polyline height absorption name first).map (fun w => (w.p0, w.p1)) =
      pathEdges polyline := by
  rw [wallSegments, List.map_map]
  exact List.zipIdx_map_fst 0 (pathEdges polyline)

variable {α : Type} [Scalar α]

/-- The call adds a building or a wall with no edge that the line meets. -/
def Call.IsClearOf (line : Segment α) : Call α → Prop
  | .building footprint height absorption name =>
    ∀ b, Building.ofFootprint? footprint height absorption name = .ok b →
      line.Misses (pathEdges b.footprint)
  | .wall polyline _ _ _ => line.Misses (pathEdges polyline)
  | _ => False

/-- The second draft has more buildings and walls than the first, behind all others and clear of
    the line, and is else the same. -/
structure GrowsClear (line : Segment α) (d d' : Draft α) : Prop where
  /-- The settings are the same. -/
  settings : d'.settings = d.settings
  /-- The line meets none of the new buildings. -/
  buildings : ∃ bs, d'.buildings = d.buildings ++ bs ∧
    ∀ b ∈ bs, line.Misses (pathEdges b.footprint)
  /-- The line meets none of the new walls. -/
  walls : ∃ ws, d'.walls = d.walls ++ ws ∧ line.Misses (ws.map fun w => (w.p0, w.p1))
  /-- The regions are the same. -/
  regions : d'.regions = d.regions
  /-- The points are the same. -/
  points : d'.points = d.points
  /-- The break-lines are the same. -/
  lines : d'.lines = d.lines

variable {line : Segment α} {d d' d'' : Draft α}

theorem GrowsClear.refl (d : Draft α) : d.GrowsClear line d :=
  ⟨rfl, ⟨[], by simp⟩, ⟨[], by simp [Segment.Misses]⟩, rfl, rfl, rfl⟩

theorem GrowsClear.trans (h : d.GrowsClear line d') (h' : d'.GrowsClear line d'') :
    d.GrowsClear line d'' where
  settings := h'.settings.trans h.settings
  buildings := by
    obtain ⟨bs, hbs, hmiss⟩ := h.buildings
    obtain ⟨bs', hbs', hmiss'⟩ := h'.buildings
    exact ⟨bs ++ bs', by rw [hbs', hbs, List.append_assoc],
      List.forall_mem_append.mpr ⟨hmiss, hmiss'⟩⟩
  walls := by
    obtain ⟨ws, hws, hmiss⟩ := h.walls
    obtain ⟨ws', hws', hmiss'⟩ := h'.walls
    refine ⟨ws ++ ws', by rw [hws', hws, List.append_assoc], ?_⟩
    rw [List.map_append]
    exact List.forall_mem_append.mpr ⟨hmiss, hmiss'⟩
  regions := h'.regions.trans h.regions
  points := h'.points.trans h.points
  lines := h'.lines.trans h.lines

/-- An addition clear of the line adds buildings and walls clear of it, and nothing else where
    buildings are not ground. -/
theorem growsClear_after (hground : d.settings.buildingGround = none) {c : Call α}
    (hc : c.IsClearOf line) : d.GrowsClear line (d.after c) := by
  rw [after]
  split
  · next e he =>
    obtain ⟨d', i⟩ := e
    cases Call.adds_of_outcome he with
    | building _ hb =>
      exact { GrowsClear.refl d with
        buildings := ⟨_, rfl, List.forall_mem_singleton.mpr (hc _ hb)⟩ }
    | wall =>
      refine { GrowsClear.refl d with walls := ⟨_, rfl, ?_⟩ }
      rw [map_wallSegments]
      exact hc
    | buildingOnGround hsome =>
      rw [hground] at hsome
      cases hsome
    | region | rectangle | point | line => exact hc.elim
  · exact .refl d

/-- So do all additions clear of the line. -/
theorem growsClear_afterAll (hground : d.settings.buildingGround = none) {more : List (Call α)}
    (hmore : ∀ c ∈ more, c.IsClearOf line) : d.GrowsClear line (d.afterAll more) := by
  induction more generalizing d with
  | nil => exact .refl d
  | cons c more ih =>
    have hstep : d.GrowsClear line (d.after c) :=
      growsClear_after hground (hmore c List.mem_cons_self)
    refine hstep.trans (ih ?_ fun e he => hmore e (List.mem_cons_of_mem c he))
    rw [hstep.settings]
    exact hground

end Draft

/-! ## Sealing what has grown -/

namespace Site

section
variable {α : Type} [Scalar α] (s : Site α) {line : Segment α} {g : α}

/-- Boundaries that are missed are not crossed. -/
theorem filterMap_sighted?_of_misses {bs : List (Boundary α)}
    (h : line.Misses (bs.map fun b => (b.p0, b.p1))) : bs.filterMap (s.sighted? line g) = [] := by
  apply List.filterMap_eq_nil_iff.mpr
  intro b hb
  have hmissed : line.intersect? b.segment = none := h _ (List.mem_map.mpr ⟨b, hb, rfl⟩)
  have hnone : s.crossing? line g b = none := by
    rw [crossing?, hmissed]
    rfl
  rw [sighted?, hnone, ite_self]

end

section
variable {α : Type} [Circular α] {line : Segment α} {d d' : Draft α}

/-- The sides of buildings that are put on the ground are missed if the footprints are. -/
theorem misses_sides {bs : List (Building α)}
    (hmiss : ∀ b ∈ bs, line.Misses (pathEdges b.footprint)) (terrain : Option (Terrain α))
    (absolute : Bool) (n : Nat) :
    line.Misses ((((bs.map (Draft.placeBuilding terrain absolute)).zipIdx n).flatMap
      fun (b, i) => b.sides i).map fun b => (b.p0, b.p1)) := by
  intro ends hends
  obtain ⟨w, hw, rfl⟩ := List.mem_map.mp hends
  obtain ⟨⟨B, i⟩, hB, hside⟩ := List.mem_flatMap.mp hw
  obtain ⟨b, hb, rfl⟩ := List.mem_map.mp (List.fst_mem_of_mem_zipIdx hB)
  obtain ⟨e, he, rfl⟩ := List.mem_map.mp hside
  have hplan : (pathEdges (Draft.placeBuilding terrain absolute b).footprint).map
      (Prod.map Point3.plan Point3.plan) =
        (pathEdges b.footprint).map (Prod.map Point3.plan Point3.plan) := by
    rw [← pathEdges_map, ← pathEdges_map, Draft.placeBuilding, Building.map_plan_place]
  exact (hmiss b hb).of_plan hplan e he

/-- Walls that are put on the ground are missed if they were before. -/
theorem misses_walls {ws : List (Boundary α)} (hmiss : line.Misses (ws.map fun w => (w.p0, w.p1)))
    (terrain : Option (Terrain α)) :
    line.Misses ((ws.map (Draft.placeWall terrain)).map fun w => (w.p0, w.p1)) := by
  apply hmiss.of_plan
  rw [List.map_map, List.map_map, List.map_map]
  apply List.map_congr_left
  intro w _
  simp [Draft.placeWall, Draft.placeWallEnd_plan]

variable (h : d.GrowsClear line d') (terrain : Option (Terrain α))
include h

/-- What is clear of the line is not ground. -/
theorem sameGround_of_growsClear : (d.siteOver terrain).SameGround (d'.siteOver terrain) where
  terrain := rfl
  regions := h.regions
  regionIndex := by simp only [Draft.siteOver, h.regions]
  terrainTolerance := congrArg Settings.terrainTolerance h.settings
  crossingTolerance := congrArg Settings.crossingTolerance h.settings
  policy := congrArg Settings.policy h.settings

/-- What is clear of the line makes no difference to what the line crosses. -/
theorem crossings_of_growsClear (hsealed : (d.siteOver terrain).IsSealed)
    (hsealed' : (d'.siteOver terrain).IsSealed) (g : α) :
    (d'.siteOver terrain).crossings line g = (d.siteOver terrain).crossings line g := by
  -- A boundary of both is looked up and crossed alike.
  have hsame : (d'.siteOver terrain).sighted? line g = (d.siteOver terrain).sighted? line g := by
    have hsettings : (d'.siteOver terrain).settings = (d.siteOver terrain).settings := h.settings
    funext b
    rw [sighted?, sighted?, (sameGround_of_growsClear h terrain).crossing?_eq, sights, sights,
      hsettings]
  obtain ⟨bs, hbs, hbuildings⟩ := h.buildings
  obtain ⟨ws, hws, hwalls⟩ := h.walls
  -- The other ones stand behind the sides of the buildings and behind the walls.
  have hsides : (d'.siteOver terrain).buildings.zipIdx = (d.siteOver terrain).buildings.zipIdx ++
      (bs.map (Draft.placeBuilding terrain d.settings.absoluteRoofs)).zipIdx
        (d.siteOver terrain).buildings.length := by
    simp only [Draft.siteOver, hbs, h.settings, List.map_append, List.zipIdx_append,
      Nat.zero_add]
  have hplaced : (d'.siteOver terrain).walls =
      (d.siteOver terrain).walls ++ ws.map (Draft.placeWall terrain) := by
    simp only [Draft.siteOver, hws, List.map_append]
  have hregions : (d'.siteOver terrain).regions = (d.siteOver terrain).regions := h.regions
  rw [hsealed.crossings_eq_sighted, hsealed'.crossings_eq_sighted, hsame, hsealed.boundaries_eq,
    hsealed'.boundaries_eq, hsides, hplaced, hregions]
  simp only [List.flatMap_append, List.filterMap_append, List.append_assoc]
  rw [filterMap_sighted?_of_misses _ (misses_sides hbuildings terrain _ _),
    filterMap_sighted?_of_misses _ (misses_walls hwalls terrain), List.nil_append, List.nil_append]

end

/-- **What is not met is not noticed.** Where buildings are not ground, buildings and walls that
    are added behind all else, and have no edge that a line meets, leave the sealing and the
    profile of the line as they are: all of its points in all that they say. In exact arithmetic
    no edge is met exactly if none has a place in common with the line. -/
theorem profile_local {α : Type} [Circular α] [Triangulates α]
    {settings : Settings α} (hground : settings.buildingGround = none)
    {calls more : List (Draft.Call α)} {source receiver : Point3 α}
    (hclear : ∀ c ∈ more, c.IsClearOf ⟨source, receiver⟩) {strict : Bool} {s : Site α}
    (hs : (((Draft.empty settings).afterAll calls).build strict).result = .ok s) :
    (∃ s', (((Draft.empty settings).afterAll (calls ++ more)).build strict).result = .ok s' ∧
      ∀ g, s'.profile source receiver g = s.profile source receiver g) ∧
    ∀ {K : Type} [ExactScalar K] (line : Segment K) (edges : List (Point3 K × Point3 K)),
      line.Misses edges ↔ ∀ e ∈ edges, line.Apart ⟨e.1, e.2⟩ := by
  refine ⟨?_, fun line edges => line.misses_iff edges⟩
  have hsettings : ((Draft.empty settings).afterAll calls).settings = settings :=
    ((Draft.empty settings).extends_afterAll calls).settings_eq
  have hgrows : ((Draft.empty settings).afterAll calls).GrowsClear ⟨source, receiver⟩
      ((Draft.empty settings).afterAll (calls ++ more)) := by
    rw [Draft.afterAll_append]
    exact Draft.growsClear_afterAll (by rwa [hsettings]) hclear
  obtain ⟨terrain, rfl, hs'⟩ := Draft.exists_siteOver_of_build hgrows.points hgrows.lines hs
  refine ⟨_, hs', fun g => (sameGround_of_growsClear hgrows terrain).profile_eq ?_⟩
  exact crossings_of_growsClear hgrows terrain (Draft.isSealed_of_build settings calls hs)
    (Draft.isSealed_of_build settings (calls ++ more) hs') g

/-! ## A yard beside the line -/

/-- The line from one corner of a yard to the other. -/
def acrossYard : Segment Float := ⟨⟨0, 0, 1⟩, ⟨100, 50, 1⟩⟩

/-- A house on the line. -/
def houseOnLine : List (Draft.Call Float) :=
  [.building [⟨40, 15, 0⟩, ⟨50, 15, 0⟩, ⟨50, 30, 0⟩, ⟨40, 30, 0⟩] 3 [] 1]

/-- The corners of a shed beside the line. -/
def shed : List (Point3 Float) := [⟨20, 20, 0⟩, ⟨30, 20, 0⟩, ⟨30, 30, 0⟩, ⟨20, 30, 0⟩]

/-- The shed, and a wall that ends short of the line. -/
def besideLine : List (Draft.Call Float) :=
  [.building shed 2 [] 2, .wall [⟨10, 20, 0⟩, ⟨15, 9, 0⟩] 2 [] 3]

theorem isClearOf_besideLine : ∀ c ∈ besideLine, c.IsClearOf acrossYard := by
  refine List.forall_mem_cons.mpr ⟨fun b hb => ?_, List.forall_mem_singleton.mpr ?_⟩
  · have hfootprint : b.footprint = shed ++ shed.take 1 := by
      have hall : (Building.ofFootprint? shed 2 [] 2).toOption.all fun b =>
          decide (b.footprint = shed ++ shed.take 1) := by decide +kernel
      rw [hb] at hall
      simpa [Except.toOption] using hall
    rw [hfootprint]
    decide +kernel
  · show Segment.Misses _ _
    decide +kernel

/-- The shed and the wall go unnoticed, though their boxes are in that of the line. -/
theorem profile_local_besideLine :
    ∃ s s' : Site Float,
      (((Draft.empty Settings.default).afterAll houseOnLine).build true).result = .ok s ∧
      (((Draft.empty Settings.default).afterAll (houseOnLine ++ besideLine)).build true).result =
        .ok s' ∧
      ∀ g, s'.profile acrossYard.p0 acrossYard.p1 g = s.profile acrossYard.p0 acrossYard.p1 g := by
  have hs := Draft.build_of_flat (d := (Draft.empty Settings.default).afterAll houseOnLine)
    (by decide +kernel) true
  obtain ⟨⟨s', hs', hprofile⟩, _⟩ := profile_local rfl isClearOf_besideLine hs
  exact ⟨_, s', hs, hs', hprofile⟩

end Site

end SiteSection
