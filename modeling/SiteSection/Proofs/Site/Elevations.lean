import SiteSection.Proofs.Section.Renumbering
import SiteSection.Proofs.Site.Ownership
import SiteSection.Proofs.Site.Footprints
import SiteSection.Proofs.Terrain.OneTriangle

/-! # Elevations of a sealed site

  Heights and elevations can be left out. What is given says where the roof of a building is:
  the footprint itself, or the height over the mean ground under the corners. The height that is
  kept follows from the roof and the ground, however these were found. An end of a wall without
  an elevation is at the height of the wall over the ground there. Where the terrain has no finite
  elevation, the ground is as it is off the terrain.

  In exact arithmetic the mean does not depend on the corner at which the footprint begins, and a
  height that was given is found again from roof and ground.
-/

namespace SiteSection

/-! ## What was added when -/

namespace Draft

variable {α : Type} [Scalar α]

/-- What there is in a draft was added by one of the additions. -/
theorem exists_adding (count : Draft α → Nat) {d : Draft α} {calls : List (Call α)} {i : Nat}
    (hd : count d ≤ i) (hi : i < count (d.afterAll calls)) :
    ∃ before c behind d' k, calls = before ++ c :: behind ∧
      c.answer (d.afterAll before) = .ok k ∧ c.Adds (d.afterAll before) d' k ∧
      d.afterAll calls = d'.afterAll behind ∧ count (d.afterAll before) ≤ i ∧ i < count d' := by
  induction calls generalizing d with
  | nil => exact absurd hi (Nat.not_lt.mpr hd)
  | cons c calls ih =>
    by_cases hnow : i < count (d.after c)
    · have hleaves := c.leaves_after d
      have hrest : d.afterAll (c :: calls) = (d.after c).afterAll calls := rfl
      generalize d.after c = d' at hleaves hnow hrest
      generalize hanswer : c.answer d = answer at hleaves
      cases hleaves with
      | added h => exact ⟨[], c, calls, d', _, rfl, hanswer, h, hrest, hd, hnow⟩
      | refused => exact absurd hnow (Nat.not_lt.mpr hd)
    · obtain ⟨before, c', behind, d', k, rfl, hanswer, hadds, hrest, hlow, hhigh⟩ :=
        ih (Nat.not_lt.mp hnow) hi
      exact ⟨c :: before, c', behind, d', k, rfl, hanswer, hadds, hrest, hlow, hhigh⟩

variable {settings : Settings α} {calls : List (Call α)} {i : Nat}

/-- A building of a draft has the number of an addition, and was made of its footprint. -/
theorem exists_building_call {b : Building α}
    (h : ((empty settings).afterAll calls).buildings[i]? = some b) :
    ∃ before footprint height absorption name behind,
      calls = before ++ .building footprint height absorption name :: behind ∧
      (Call.building footprint height absorption name).answer
        ((empty settings).afterAll before) = .ok i ∧
      Building.ofFootprint? footprint height absorption name = .ok b := by
  obtain ⟨before, c, behind, d', k, rfl, hanswer, hadds, hrest, hlow, hhigh⟩ :=
    exists_adding (fun d => d.buildings.length) (Nat.zero_le i)
      (List.getElem?_eq_some_iff.mp h).1
  rw [hrest] at h
  obtain ⟨rest, hbehind⟩ := (extends_afterAll d' behind).buildings
  rw [← hbehind, List.getElem?_append_left hhigh] at h
  cases hadds with
  | building _ hb | buildingOnGround _ hb _ =>
    rw [List.length_append, List.length_singleton] at hhigh
    obtain rfl : i = _ := Nat.le_antisymm (Nat.lt_succ_iff.mp hhigh) hlow
    rw [List.getElem?_concat_length, Option.some.injEq] at h
    exact ⟨before, _, _, _, _, behind, rfl, hanswer, h ▸ hb⟩
  | region | rectangle | wall | point | line => exact absurd hhigh (Nat.not_lt.mpr hlow)

/-- A wall of a draft is a leg of a polyline that was added. -/
theorem exists_wall_call {w : Boundary α}
    (h : ((empty settings).afterAll calls).walls[i]? = some w) :
    ∃ before polyline height absorption name behind first j p q,
      calls = before ++ .wall polyline height absorption name :: behind ∧
      (Call.wall polyline height absorption name).answer
        ((empty settings).afterAll before) = .ok first ∧ i = first + j ∧
      polyline[j]? = some p ∧ polyline[j + 1]? = some q ∧
      w.p0 = p ∧ w.p1 = q ∧ w.height? = some height := by
  obtain ⟨before, c, behind, d', k, rfl, hanswer, hadds, hrest, hlow, hhigh⟩ :=
    exists_adding (fun d => d.walls.length) (Nat.zero_le i) (List.getElem?_eq_some_iff.mp h).1
  rw [hrest] at h
  obtain ⟨rest, hbehind⟩ := (extends_afterAll d' behind).walls
  rw [← hbehind, List.getElem?_append_left hhigh] at h
  cases hadds with
  | @wall polyline height absorption name _ =>
    obtain ⟨j, rfl⟩ := Nat.exists_eq_add_of_le hlow
    rw [List.getElem?_append_right (Nat.le_add_right _ _), Nat.add_sub_cancel_left] at h
    have hj : j + 1 < polyline.length := by
      have hlt := (List.getElem?_eq_some_iff.mp h).1
      rw [wallSegments, List.length_map, List.length_zipIdx, length_pathEdges] at hlt
      omega
    have hp := List.getElem?_eq_getElem (Nat.lt_of_succ_lt hj)
    have hq := List.getElem?_eq_getElem hj
    rw [getElem?_wallSegments hp hq, Option.some.injEq] at h
    subst h
    exact ⟨before, polyline, height, absorption, name, behind, _, j, _, _, rfl, hanswer, rfl, hp,
      hq, rfl, rfl, rfl⟩
  | building | buildingOnGround | region | rectangle | point | line =>
    exact absurd hhigh (Nat.not_lt.mpr hlow)

/-- The plan locations of the topography are finite. -/
theorem isFinite_topography (settings : Settings α) (calls : List (Call α)) :
    let d := (empty settings).afterAll calls
    ∀ p ∈ Triangulation.visits d.points d.lines,
      Scalar.isFinite p.x = true ∧ Scalar.isFinite p.y = true := by
  have htopographic : ∀ (d : Draft α) (p q : Point3 α), d.topographic p = .ok q →
      Scalar.isFinite q.x = true ∧ Scalar.isFinite q.y = true := by
    intro d p q h
    rw [topographic] at h
    split at h
    · next hfinite =>
      cases h
      rw [Bool.and_eq_true] at hfinite
      split
      · exact hfinite
      · exact hfinite
    · cases h
  have hall : (∀ p ∈ ((empty settings).afterAll calls).points,
        Scalar.isFinite p.x = true ∧ Scalar.isFinite p.y = true) ∧
      ∀ l ∈ ((empty settings).afterAll calls).lines, ∀ p ∈ [l.1, l.2],
        Scalar.isFinite p.x = true ∧ Scalar.isFinite p.y = true := by
    refine afterAll_invariant (fun d : Draft α =>
      (∀ p ∈ d.points, Scalar.isFinite p.x = true ∧ Scalar.isFinite p.y = true) ∧
        ∀ l ∈ d.lines, ∀ p ∈ [l.1, l.2], Scalar.isFinite p.x = true ∧ Scalar.isFinite p.y = true)
      ?_ ⟨by simp [empty], by simp [empty]⟩ calls
    rintro d c ⟨d', k⟩ ⟨hpoints, hlines⟩ h
    cases Call.adds_of_outcome h with
    | point hp =>
      refine ⟨List.forall_mem_append.mpr ⟨hpoints, ?_⟩, hlines⟩
      simpa using htopographic _ _ _ hp
    | line ha hb =>
      refine ⟨hpoints, List.forall_mem_append.mpr ⟨hlines, ?_⟩⟩
      simpa using ⟨htopographic _ _ _ ha, htopographic _ _ _ hb⟩
    | region | rectangle | building | buildingOnGround | wall => exact ⟨hpoints, hlines⟩
  intro d p hp
  rcases List.mem_append.mp hp with hp | hp
  · exact hall.1 p hp
  · obtain ⟨l, hl, hp⟩ := List.mem_flatMap.mp hp
    exact hall.2 l hl p hp

end Draft

/-! ## The terrain of a sealed site -/

/-- The terrain of a sealed site was triangulated from the topography of the draft. -/
theorem Draft.exists_mesh_of_build {α : Type} [Circular α] [Triangulates α]
    {d : Draft α} {strict : Bool} {s : Site α} (hs : (d.build strict).result = .ok s)
    {t : Terrain α} (ht : s.terrain = some t) :
    ∃ m, (Triangulates.triangulate d.points d.lines).result = .ok m ∧
      Terrain.ofMesh? m = some t := by
  have hterrain : d.terrain.result = .ok (some t) := by
    rw [build] at hs
    split at hs
    · next terrain hterrain =>
      cases hs
      rw [hterrain]
      exact congrArg Except.ok ht
    · split at hs
      · cases hs
      · cases hs
        cases ht
  rw [terrain] at hterrain
  split at hterrain
  · cases hterrain
  · obtain ⟨m, hm, hmesh⟩ := exists_of_map_eq_ok hterrain
    exact ⟨m, hm, hmesh⟩

/-- A draft whose topography is triangulated is sealed over the terrain. -/
theorem Draft.build_of_mesh {α : Type} [Circular α] [Triangulates α] {d : Draft α}
    {m : Mesh α} {t : Terrain α} (hmany : 2 ≤ d.points.length + d.lines.length)
    (hm : (Triangulates.triangulate d.points d.lines).result = .ok m)
    (ht : Terrain.ofMesh? m = some t)
    (strict : Bool) : (d.build strict).result = .ok (d.siteOver (some t)) := by
  have hterrain : d.terrain.result = .ok (some t) := by
    simp only [terrain, if_neg (not_lt.mpr hmany), hm]
    exact congrArg Except.ok ht
  rw [build, hterrain]

/-! ## The ground -/

section
variable {K : Type} [ExactScalar K] (terrain : Option (Terrain (Extended K)))

open Extended

/-- The finite elevation of the terrain at a location, if there is one. -/
def groundAt? (p : Point2 (Extended K)) : Option K :=
  (terrain.bind fun t => t.elevation? p).bind number?

/-- The mean of the finite elevations at some locations, zero if there are none. -/
def meanGround (ps : List (Point2 (Extended K))) : K :=
  let zs := ps.filterMap (groundAt? terrain)
  if zs = [] then 0 else zs.sum / zs.length

theorem groundAt?_some (t : Terrain (Extended K)) (p : Point2 (Extended K)) :
    groundAt? (some t) p = (t.elevation? p).bind number? := rfl

theorem elevationsAt_eq (ps : List (Point2 (Extended K))) :
    Draft.elevationsAt terrain ps = (ps.filterMap (groundAt? terrain)).map number := by
  cases terrain with
  | none =>
    have hnone : ps.filterMap (groundAt? (none : Option (Terrain (Extended K)))) = [] :=
      List.filterMap_eq_nil_iff.mpr fun _ _ => rfl
    rw [hnone]
    rfl
  | some t =>
    induction ps with
    | nil => rfl
    | cons p ps ih =>
      simp only [Draft.elevationsAt] at ih ⊢
      rw [List.filterMap_cons, List.filterMap_cons, groundAt?_some]
      cases t.elevation? p with
      | none => exact ih
      | some z =>
        cases z with
        | number a => exact congrArg (number a :: ·) ih
        | infinite n => exact ih
        | undefined => exact ih

theorem mean_elevationsAt (ps : List (Point2 (Extended K))) :
    Scalar.mean (Draft.elevationsAt terrain ps) = number (meanGround terrain ps) := by
  rw [elevationsAt_eq, mean_number, meanGround]

theorem groundOrZero_eq (p : Point2 (Extended K)) :
    Draft.groundOrZero terrain p = number ((groundAt? terrain p).getD 0) := by
  rw [Draft.groundOrZero, elevationsAt_eq, List.filterMap_cons]
  cases groundAt? terrain p <;> rfl

variable {terrain}

/-- The mean does not depend on the order of the locations. -/
theorem meanGround_perm {ps qs : List (Point2 (Extended K))} (h : ps.Perm qs) :
    meanGround terrain ps = meanGround terrain qs := by
  have hperm := h.filterMap (groundAt? terrain)
  have hnil : ps.filterMap (groundAt? terrain) = [] ↔ qs.filterMap (groundAt? terrain) = [] := by
    rw [← List.length_eq_zero_iff, ← List.length_eq_zero_iff, hperm.length_eq]
  simp only [meanGround, hnil, hperm.sum_eq, hperm.length_eq]

end

/-! ## Buildings -/

namespace Building

section
variable {K : Type} [ExactScalar K] {terrain : Option (Terrain (Extended K))}

open Extended

/-- A building rises from the mean ground under its corners to its roof. It was given a first
    corner at some elevation, and some height; `absolute` says whether the elevation comes before
    the height. -/
structure Rises (B : Building (Extended K)) (terrain : Option (Terrain (Extended K)))
    (absolute : Bool) (z height : Extended K) : Prop where
  /-- All corners are at the roof. -/
  level : ∀ p ∈ B.footprint, p.z = B.roofZ
  /-- The ground is the mean of the finite elevations at the corners of the plan. -/
  groundZ_eq : B.groundZ = number (meanGround terrain B.plan.ring)
  /-- The height is from the ground to the roof, if the roof is above the ground. -/
  height_eq : B.height = Scalar.max (B.roofZ - B.groundZ) 0
  /-- The footprint says where the roof is. -/
  said : Scalar.isFinite z = true → z ≠ 0 → (absolute = true ∨ Scalar.isNaN height = true) →
    B.roofZ = z
  /-- Otherwise the roof is over the ground by the height, if there is one. -/
  raised : ¬ (Scalar.isFinite z = true ∧ z ≠ 0 ∧ (absolute = true ∨ Scalar.isNaN height = true)) →
    B.roofZ = B.groundZ + if Scalar.isNaN height then 0 else height

variable {b : Building (Extended K)} {first : Point3 (Extended K)}

/-- After its first corner, a footprint goes once around the ring of the plan. -/
theorem corners_perm_ring {footprint : List (Point3 (Extended K))} {height : Extended K}
    {absorption : List (Extended K)} {name : Int}
    (h : ofFootprint? footprint height absorption name = .ok b) :
    (b.footprint.tail.map Point3.plan).Perm b.plan.ring := by
  obtain ⟨first, closing, hfirst, hclosing, hmap⟩ := exists_closing_footprint h
  obtain ⟨rest, hring⟩ := List.head?_eq_some_iff.mp hfirst
  rw [Point2.beq_eq, Bool.and_eq_true, beq_iff, beq_iff] at hclosing
  have hsame : closing = first := Point2.ext hclosing.1.1.symm hclosing.2.1.symm
  rw [List.map_tail, hmap, hring, hsame]
  exact List.perm_append_singleton first rest

/-- A building that is placed rises from the ground under it. -/
theorem rises_placeBuilding (hheight : ¬ b.height < 0) (hfirst : b.footprint.head? = some first)
    (hcorners : (b.footprint.tail.map Point3.plan).Perm b.plan.ring) (absolute : Bool) :
    (Draft.placeBuilding terrain absolute b).Rises terrain absolute first.z b.height := by
  set g := meanGround terrain b.plan.ring with hg
  have hplaced : Draft.placeBuilding terrain absolute b = b.place (number g) absolute := by
    rw [Draft.placeBuilding, mean_elevationsAt, meanGround_perm hcorners]
  have hroofZ : b.roofZ = first.z := by
    rw [roofZ, hfirst]
    rfl
  have hsays : b.saysRoof = true ↔ Scalar.isFinite first.z = true ∧ first.z ≠ 0 := by
    rw [saysRoof, hroofZ, Bool.and_eq_true, bne, Bool.not_eq_true', Bool.eq_false_iff, ne_eq,
      beq_zero_iff]
  have hchoice : (b.saysRoof && (absolute || Scalar.isNaN b.height)) = true ↔
      Scalar.isFinite first.z = true ∧ first.z ≠ 0 ∧
        (absolute = true ∨ Scalar.isNaN b.height = true) := by
    rw [Bool.and_eq_true, Bool.or_eq_true, hsays, and_assoc]
  have hroof := roofZ_place hfirst (number g) absolute
  have hkept := height_place hfirst (number g) absolute
  rw [hplaced]
  refine ⟨fun p hp => z_of_mem_place hp, rfl, ?_, fun hfinite hne hgiven => ?_, fun hnot => ?_⟩
  · rw [hkept]
    split
    · exact floorZero_eq_max _
    · next hgiven =>
      -- The height is left as it is just if the roof was found from it.
      rw [Bool.or_eq_true, Bool.and_eq_true, not_or] at hgiven
      have hover : ¬ (b.saysRoof && (absolute || Scalar.isNaN b.height)) = true := by
        rw [Bool.and_eq_true, Bool.or_eq_true]
        rintro ⟨hsaid, habsolute | hnan⟩
        · exact hgiven.2 ⟨habsolute, hsaid⟩
        · exact hgiven.1 hnan
      rw [hroof, if_neg hover, if_neg hgiven.1]
      exact (max_add_sub hheight (Bool.eq_false_iff.mpr hgiven.1) g).symm
  · rw [hroof, if_pos (hchoice.mpr ⟨hfinite, hne, hgiven⟩), hroofZ]
  · rw [hroof, if_neg (mt hchoice.mp hnot)]
    split
    · exact (add_zero_eq_self _).symm
    · exact add_comm_eq _ _

end

end Building

/-! ## Walls -/

section
variable {K : Type} [ExactScalar K]

open Extended

/-- An end of a wall of some height, in a sealed site and as it was given: at the height over the
    finite elevation of the terrain, if it was given without an elevation or at zero. -/
structure EndOver (terrain : Option (Terrain (Extended K))) (height : Extended K)
    (given p : Point3 (Extended K)) : Prop where
  /-- The plan location is the one that was given. -/
  plan : p.plan = given.plan
  /-- An end without an elevation is over the terrain, or over zero. -/
  raised : Scalar.isNaN given.z = true ∨ given.z = 0 →
    p.z = height + number ((groundAt? terrain given.plan).getD 0)
  /-- Any other end is where it was given. -/
  kept : ¬ (Scalar.isNaN given.z = true ∨ given.z = 0) → p.z = given.z

theorem endOver_placeWallEnd (terrain : Option (Terrain (Extended K))) (height : Extended K)
    (p : Point3 (Extended K)) : EndOver terrain height p (Draft.placeWallEnd terrain height p) := by
  have hiff : (Scalar.isNaN p.z || p.z == 0) = true ↔ Scalar.isNaN p.z = true ∨ p.z = 0 := by
    rw [Bool.or_eq_true, beq_zero_iff]
  refine ⟨Draft.placeWallEnd_plan terrain height p, fun h => ?_, fun h => ?_⟩
  · rw [Draft.placeWallEnd, if_pos (hiff.mpr h), groundOrZero_eq]
    rfl
  · rw [Draft.placeWallEnd, if_neg (mt hiff.mp h)]

end

/-! ## Elevations -/

section
variable {K : Type} [ExactCircular K] [Triangulates (Extended K)]
  [Triangulation.LawfulTriangulates (Extended K)]

open Extended

/-- Over a topography with finite elevations, all elevations of the terrain are finite. -/
theorem exists_elevation_of_build (settings : Settings (Extended K))
    (calls : List (Draft.Call (Extended K))) {strict : Bool} {s : Site (Extended K)}
    (hs : (((Draft.empty settings).afterAll calls).build strict).result = .ok s)
    (hfinite : ∀ p ∈ Triangulation.visits ((Draft.empty settings).afterAll calls).points
      ((Draft.empty settings).afterAll calls).lines, Scalar.isFinite p.z = true)
    {t : Terrain (Extended K)} (ht : s.terrain = some t) {p : Point2 (Extended K)}
    {z : Extended K} (hz : t.elevation? p = some z) : ∃ c, z = number c := by
  obtain ⟨m, hm, hmesh⟩ := Draft.exists_mesh_of_build hs ht
  have hmerges := Triangulation.LawfulTriangulates.merges hm
  have hplan := Draft.isFinite_topography settings calls
  refine Terrain.exists_elevation_eq_number hmesh (fun v hv => ?_) hz
  obtain ⟨first, hfirst, hplace, last, hlast, hvz⟩ := hmerges.exists_visits hv
  obtain ⟨hx, hy⟩ := hplan first hfirst
  obtain ⟨x, hx⟩ := isFinite_iff.mp hx
  obtain ⟨y, hy⟩ := isFinite_iff.mp hy
  obtain ⟨c, hc⟩ := isFinite_iff.mp (hfinite last hlast)
  rw [Point3.samePlan, Point2.beq_eq, Bool.and_eq_true, beq_iff, beq_iff] at hplace
  refine ⟨⟨x, y, c⟩, Point3.ext ?_ ?_ ?_⟩
  · exact hplace.1.1.trans hx
  · exact hplace.2.1.trans hy
  · exact hvz.symm.trans hc

end

namespace Site

/-! ## A house on a slope -/

section
open Extended Triangulation

/-- A slope that rises to a corner at some elevation. -/
noncomputable def slope (z : Extended ℝ) : Triangle (Extended ℝ) :=
  ⟨⟨number (-2), number (-2), number 0⟩, ⟨number 4, number (-4), number 0⟩,
    ⟨number 1, number 5, z⟩⟩

/-- Half-way up the slope. -/
noncomputable def halfWay : Point2 (Extended ℝ) := ⟨number 1, number 1⟩

/-- The corners can be triangulated: from west to east they turn to the right. -/
theorem turnsRight_slope (z : Extended ℝ) : TurnsRight (slope z).a (slope z).c (slope z).b where
  inRange := by
    simp only [List.mem_cons, List.not_mem_nil, or_false, forall_eq_or_imp, forall_eq, slope,
      Point3.plan, locationFault?]
    norm_num [coordinateFault?_number]
  apart := by
    norm_num [slope, Point3.samePlan, Point3.plan, Point2.beq_eq, Bool.eq_false_iff,
      Extended.beq_iff]
  sorted := by norm_num [slope, ExactPlan.before, exactPlan, Exact.exact, number?]
  right := by norm_num [slope, ExactPlan.rightOf, ExactPlan.area, exactPlan, Exact.exact, number?]
  not_right := by
    norm_num [slope, ExactPlan.rightOf, ExactPlan.area, exactPlan, Exact.exact, number?]

/-- The box of the slope does not depend on how high it rises. -/
theorem meets_slope (z : Extended ℝ) (x y : ℝ) : (Envelope.ofBox (slope z).box.plan).meets
    (Envelope.ofBox (Box.ofPoint ⟨number x, number y⟩)) =
      decide (-2 ≤ x ∧ x ≤ 4 ∧ -4 ≤ y ∧ y ≤ 5) := by
  simp only [slope, Triangle.box, Triangle.corners, Box.ofPoints, Box.ofCorners, Box3.plan,
    Coordinates.least, Coordinates.greatest, Coordinates.zipWith, Coordinates.sub, Point3.plan,
    Envelope.ofBox, Envelope.meets, Box.upper, Box.ofPoint, Coordinates.fill, Coordinates.add,
    List.foldl, zero_eq, min_number, max_number, number_add, number_sub]
  norm_num
  grind

theorem barycentric?_slope (z : Extended ℝ) :
    (slope z).barycentric? halfWay = some ⟨number (1 / 2), number (1 / 4), number (1 / 4)⟩ := by
  simp only [slope, halfWay, Triangle.barycentric?, Barycentric.of?, Point3.plan, number_beq_zero,
    one_eq, Point2.sub_x, Point2.sub_y, number_sub, number_mul, number_add]
  norm_num [number_div]

/-- The slope is half as high there as its corner, and is beyond all numbers if its corner is. -/
theorem elevation_slope : (slope (number 8)).plane.elevation halfWay = number 4 ∧
    (slope (infinite false)).plane.elevation halfWay = infinite false := by
  have hadd : ∀ q r : Point3 (Extended ℝ), q + r = ⟨q.x + r.x, q.y + r.y, q.z + r.z⟩ :=
    fun _ _ => rfl
  simp only [slope, halfWay, Triangle.plane, Plane.through, Plane.ofNormal, Plane.elevation,
    Plane.isVertical, Coordinates.dot, Coordinates.scale, Coordinates.toList, Coordinates.zipWith,
    Coordinates.map, Point3.cross, Scalar.sum, List.foldl, hadd, one_eq, zero_eq, sub_eq_add,
    number_neg, number_mul, number_add]
  norm_num [beq_iff, number_div]

/-- The terrain that is the slope. Half-way up it has the elevation of its plane, and beyond its
    easternmost corner it has none. -/
theorem exists_terrain_slope (z : Extended ℝ) : ∃ m t,
    (triangulate [(slope z).a, (slope z).c, (slope z).b] []).result = .ok m ∧
      Terrain.ofMesh? m = some t ∧
      t.elevation? halfWay = some ((slope z).plane.elevation halfWay) ∧
      ∀ x y : ℝ, 4 < x → t.elevation? ⟨number x, number y⟩ = none := by
  obtain ⟨m, t, hm, ht, hone⟩ := (turnsRight_slope z).exists_terrain
  refine ⟨m, t, hm, ht, ?_, fun x y hx => ?_⟩
  · refine Terrain.elevation?_of_inside ht hone ?_ (barycentric?_slope z) ?_
    · rw [halfWay, meets_slope]
      norm_num
    · simp only [Barycentric.inside, zero_eq, number_le]
      norm_num
  · refine Terrain.elevation?_eq_none ht hone ?_
    rw [meets_slope, decide_eq_false_iff_not]
    exact fun h => absurd h.2.1 (not_le.mpr hx)

/-- The ground plan of a house with a corner half-way up the slope and two corners off it. -/
noncomputable def houseRing : List (Point2 (Extended ℝ)) :=
  [halfWay, ⟨number 50, number 1⟩, ⟨number 50, number 60⟩]

/-- A polyline from half-way up the slope, where its elevation is left out, to a place off it. -/
noncomputable def wallLine : List (Point3 (Extended ℝ)) :=
  [halfWay.atZ undefined, ⟨number 50, number 1, number 9⟩]

/-- A slope, and on it a house whose roof is not given and a wall. -/
noncomputable def houseOnSlope (z : Extended ℝ) : List (Draft.Call (Extended ℝ)) :=
  [.point (slope z).a, .point (slope z).c, .point (slope z).b,
    .building (houseRing.map (·.atZ (number 0))) (number 5) [] 1, .wall wallLine (number 3) [] 1]

theorem building_of_mem_houseOnSlope {z height : Extended ℝ}
    {footprint : List (Point3 (Extended ℝ))} {absorption : List (Extended ℝ)} {name : Int}
    (h : .building footprint height absorption name ∈ houseOnSlope z) :
    footprint = houseRing.map (·.atZ (number 0)) ∧ height = number 5 := by
  simp only [houseOnSlope, List.mem_cons, List.not_mem_nil, or_false, reduceCtorEq, false_or,
    Draft.Call.building.injEq] at h
  exact ⟨h.1, h.2.1⟩

theorem wall_of_mem_houseOnSlope {z height : Extended ℝ} {polyline : List (Point3 (Extended ℝ))}
    {absorption : List (Extended ℝ)} {name : Int}
    (h : .wall polyline height absorption name ∈ houseOnSlope z) :
    polyline = wallLine ∧ height = number 3 := by
  simp only [houseOnSlope, List.mem_cons, List.not_mem_nil, or_false, reduceCtorEq, false_or,
    Draft.Call.wall.injEq] at h
  exact ⟨h.1, h.2.1⟩

/-- The house has one corner over the slope. -/
theorem meanGround_houseRing {t : Terrain (Extended ℝ)}
    (hhalf : t.elevation? halfWay = some (number 4))
    (hoff : ∀ x y : ℝ, 4 < x → t.elevation? ⟨number x, number y⟩ = none) :
    meanGround (some t) houseRing = 4 := by
  have hone : houseRing.filterMap (groundAt? (some t)) = [4] := by
    have hbeside := hoff 50 1 (by norm_num)
    have hbehind := hoff 50 60 (by norm_num)
    simp [houseRing, groundAt?_some, hhalf, hbeside, hbehind, number?]
  rw [meanGround, hone]
  simp

/-- The house is accepted. -/
theorem exists_house : ∃ b : Building (Extended ℝ), b.plan = ⟨houseRing⟩ ∧
    Building.ofFootprint? (houseRing.map (·.atZ (number 0))) (number 5) [] 1 = .ok b := by
  have htidy : Polygon.IsTidy (⟨houseRing⟩ : Polygon (Extended ℝ)).ring := by
    refine ⟨by simp [houseRing], ?_, ?_⟩
    · simp [houseRing, halfWay, Coordinates.hasNaN, Coordinates.toList]
    · norm_num [houseRing, halfWay, ringEdges, pathEdges, Point2.beq_eq, Bool.eq_false_iff,
        Extended.beq_iff]
  have hmap : (houseRing.map (·.atZ (number 0))).map Point3.plan = houseRing := by
    simp [Function.comp_def]
  have hheight : ¬ (number 5 : Extended ℝ) < 0 := by
    rw [zero_eq, number_lt]
    norm_num
  rw [Building.ofFootprint?_eq, hmap, htidy.ofRing?_eq]
  exact ⟨_, rfl, if_neg hheight⟩

/-- All of this is accepted. -/
theorem exists_draft_houseOnSlope {z : Extended ℝ} (hz : Scalar.isNaN z = false) :
    ∃ b : Building (Extended ℝ), b.plan = ⟨houseRing⟩ ∧
      (Draft.empty Settings.default).afterAll (houseOnSlope z) =
        { Draft.empty Settings.default with
          points := [(slope z).a, (slope z).c, (slope z).b]
          buildings := [b]
          walls := Draft.wallSegments wallLine (number 3) [] 1 0 } := by
  obtain ⟨b, hplan, hb⟩ := exists_house
  have hpoint : ∀ d : Draft (Extended ℝ), ∀ p ∈ (slope z).corners, d.topographic p = .ok p := by
    intro d
    simp [Triangle.corners, slope, Draft.topographic, hz]
  simp only [Triangle.corners, List.mem_cons, List.not_mem_nil, or_false, forall_eq_or_imp,
    forall_eq] at hpoint
  have hheight : ¬ (number 3 : Extended ℝ) < 0 := by
    rw [zero_eq, number_lt]
    norm_num
  have hwall : Draft.wallFault? wallLine (number 3) = none := by
    simp [Draft.wallFault?, wallLine, halfWay, Point2.atZ, Point3.plan, Coordinates.hasNaN,
      Coordinates.toList, hheight]
  refine ⟨b, hplan, ?_⟩
  simp [houseOnSlope, Draft.afterAll, Draft.after, Draft.Call.outcome, Draft.addPoint, hpoint,
    Draft.addBuilding, hb, Draft.addWall, hwall, Draft.empty, Settings.default, Except.map]

/-- The sealed site on the slope. -/
theorem exists_site_houseOnSlope {z : Extended ℝ} (hz : Scalar.isNaN z = false) :
    ∃ (s : Site (Extended ℝ)) (t : Terrain (Extended ℝ)) (B : Building (Extended ℝ))
      (w : Boundary (Extended ℝ)),
      (((Draft.empty Settings.default).afterAll (houseOnSlope z)).build true).result = .ok s ∧
      s.terrain = some t ∧ t.elevation? halfWay = some ((slope z).plane.elevation halfWay) ∧
      (∀ x y : ℝ, 4 < x → t.elevation? ⟨number x, number y⟩ = none) ∧
      s.buildings = [B] ∧ B.plan = ⟨houseRing⟩ ∧ s.walls = [w] ∧
      w.p0 = Draft.placeWallEnd (some t) (number 3) (halfWay.atZ undefined) := by
  obtain ⟨m, t, hm, ht, hhalf, hoff⟩ := exists_terrain_slope z
  obtain ⟨b, hplan, hd⟩ := exists_draft_houseOnSlope hz
  rw [hd]
  exact ⟨_, t, Draft.placeBuilding (some t) false b, Draft.placeWall (some t)
    ⟨halfWay.atZ undefined, ⟨number 50, number 1, number 9⟩, false, false,
      .freestanding 0 (number 3) [] 1⟩,
    Draft.build_of_mesh (Nat.le_add_right 2 _) hm ht true, rfl, hhalf, hoff, rfl, hplan, rfl, rfl⟩

end

section
variable {K : Type} [ExactCircular K] [Triangulates (Extended K)]
  [Triangulation.LawfulTriangulates (Extended K)]

open Extended

/-- **Elevations.** In exact arithmetic every building of a sealed site rises from the mean ground
    under its corners to its roof, as its footprint or its height say, and every end of a wall is
    where it was given or at the height of the wall over the ground. Elevations that are not
    finite are passed over; there are none of the terrain if none was given. -/
theorem elevations_of_build (settings : Settings (Extended K))
    (calls : List (Draft.Call (Extended K))) {strict : Bool} {s : Site (Extended K)}
    (hs : (((Draft.empty settings).afterAll calls).build strict).result = .ok s) :
    (∀ (i : Nat) (B : Building (Extended K)), s.buildings[i]? = some B →
      ∃ before footprint height absorption name behind first,
        calls = before ++ .building footprint height absorption name :: behind ∧
        (Draft.Call.building footprint height absorption name).answer
          ((Draft.empty settings).afterAll before) = .ok i ∧
        footprint.head? = some first ∧
        Polygon.ofRing? (footprint.map Point3.plan) = .ok B.plan ∧
        B.Rises s.terrain settings.absoluteRoofs first.z height) ∧
    (∀ (k : Nat) (w : Boundary (Extended K)), s.walls[k]? = some w →
      ∃ before polyline height absorption name behind first j p q,
        calls = before ++ .wall polyline height absorption name :: behind ∧
        (Draft.Call.wall polyline height absorption name).answer
          ((Draft.empty settings).afterAll before) = .ok first ∧ k = first + j ∧
        polyline[j]? = some p ∧ polyline[j + 1]? = some q ∧
        EndOver s.terrain height p w.p0 ∧ EndOver s.terrain height q w.p1) ∧
    ((∀ p ∈ Triangulation.visits ((Draft.empty settings).afterAll calls).points
        ((Draft.empty settings).afterAll calls).lines, Scalar.isFinite p.z = true) →
      ∀ t, s.terrain = some t → ∀ p z, t.elevation? p = some z → ∃ c, z = number c) := by
  obtain ⟨terrain, rfl, -⟩ := Draft.exists_siteOver_of_build rfl rfl hs
  have hsettings : ((Draft.empty settings).afterAll calls).settings = settings :=
    (Draft.extends_afterAll (Draft.empty settings) calls).settings_eq
  refine ⟨fun i B hB => ?_, fun k w hw => ?_, fun hfinite t ht p z hz =>
    exists_elevation_of_build settings calls hs hfinite ht hz⟩
  · have hplaced : (((Draft.empty settings).afterAll calls).buildings.map
        (Draft.placeBuilding terrain
          ((Draft.empty settings).afterAll calls).settings.absoluteRoofs))[i]? = some B := hB
    rw [hsettings, List.getElem?_map, Option.map_eq_some_iff] at hplaced
    obtain ⟨b, hb, rfl⟩ := hplaced
    obtain ⟨before, footprint, height, absorption, name, behind, hcalls, hanswer, hmade⟩ :=
      Draft.exists_building_call hb
    obtain ⟨rfl, hheight, first, hfirst, hhead⟩ := Building.given_of_ofFootprint? hmade
    exact ⟨before, footprint, _, absorption, name, behind, first, hcalls, hanswer, hfirst,
      (Building.plan_of_ofFootprint? hmade).1,
      Building.rises_placeBuilding hheight hhead (Building.corners_perm_ring hmade) _⟩
  · have hplaced : (((Draft.empty settings).afterAll calls).walls.map
        (Draft.placeWall terrain))[k]? = some w := hw
    rw [List.getElem?_map, Option.map_eq_some_iff] at hplaced
    obtain ⟨v, hv, rfl⟩ := hplaced
    obtain ⟨before, polyline, height, absorption, name, behind, first, j, p, q, hcalls, hanswer,
      hk, hp, hq, rfl, rfl, hheight⟩ := Draft.exists_wall_call hv
    refine ⟨before, polyline, height, absorption, name, behind, first, j, _, _, hcalls, hanswer,
      hk, hp, hq, ?_⟩
    simp only [Draft.placeWall, hheight, Option.getD_some]
    exact ⟨endOver_placeWallEnd terrain height v.p0, endOver_placeWallEnd terrain height v.p1⟩

end

section
open Extended

/-- Of the corners of the house, one is over ground at 4. The other end of the wall stays where it
    was given. -/
theorem elevations_of_build_houseOnSlope : ∃ s B w,
    (((Draft.empty Settings.default).afterAll (houseOnSlope (number 8))).build true).result =
      .ok s ∧ s.buildings = [B] ∧ s.walls = [w] ∧
    B.groundZ = number 4 ∧ B.roofZ = number 9 ∧ B.height = number 5 ∧
    w.p0.z = number 7 ∧ w.p1.z = number 9 := by
  obtain ⟨s, t, B, w, hs, ht, hhalf, hoff, hB, hplan, hw, -⟩ :=
    exists_site_houseOnSlope (isNaN_number 8)
  rw [elevation_slope.1] at hhalf
  obtain ⟨hbuildings, hwalls, -⟩ := elevations_of_build Settings.default _ hs
  rw [ht] at hbuildings hwalls
  obtain ⟨before, footprint, height, absorption, name, behind, first, hcalls, -, hfirst, -,
    hrises⟩ := hbuildings 0 B (by rw [hB]; rfl)
  obtain ⟨rfl, rfl⟩ := building_of_mem_houseOnSlope
    (hcalls ▸ List.mem_append_right before List.mem_cons_self)
  obtain ⟨before', polyline, height', absorption', name', behind', k, j, p, q, hcalls', -, -,
    hp, hq, hend, hend'⟩ := hwalls 0 w (by rw [hw]; rfl)
  obtain ⟨rfl, rfl⟩ := wall_of_mem_houseOnSlope
    (hcalls' ▸ List.mem_append_right before' List.mem_cons_self)
  obtain rfl : j = 0 := Nat.lt_one_iff.mp
    (Nat.succ_lt_succ_iff.mp (List.getElem?_eq_some_iff.mp hq).1)
  cases hfirst
  cases hp
  cases hq
  have hgroundZ : B.groundZ = number 4 := by
    rw [hrises.groundZ_eq, hplan, meanGround_houseRing hhalf hoff]
  have hroofZ : B.roofZ = number 9 := by
    rw [hrises.raised fun h => h.2.1 rfl, hgroundZ, isNaN_number, if_neg Bool.false_ne_true,
      number_add]
    norm_num
  refine ⟨s, B, w, hs, hB, hw, hgroundZ, hroofZ, ?_, ?_, ?_⟩
  · rw [hrises.height_eq, hroofZ, hgroundZ, number_sub, zero_eq, max_number, Scalar.max_eq_max]
    norm_num
  · rw [hend.raised (.inl rfl), Point2.atZ_plan, groundAt?_some, hhalf]
    norm_num [number?]
  · refine hend'.kept ?_
    rintro (hnan | hzero)
    · cases hnan
    · rw [zero_eq, number.injEq] at hzero
      norm_num at hzero

/-- Over ground beyond all numbers, the wall rises from zero. -/
theorem wall_not_over_infinite_ground : ∃ s t w,
    (((Draft.empty Settings.default).afterAll (houseOnSlope (infinite false))).build true).result =
      .ok s ∧ s.terrain = some t ∧ s.walls = [w] ∧
    .wall wallLine (number 3) [] 1 ∈ houseOnSlope (infinite false) ∧
    wallLine.head? = some (halfWay.atZ undefined) ∧ t.elevation? halfWay = some (infinite false) ∧
    w.p0 = halfWay.atZ (number 3) ∧ w.p0.z ≠ number 3 + infinite false := by
  obtain ⟨s, t, B, w, hs, ht, hhalf, -, -, -, hw, hp⟩ :=
    exists_site_houseOnSlope (isNaN_infinite false)
  rw [elevation_slope.2] at hhalf
  have hground : groundAt? (some t) halfWay = none := by
    rw [groundAt?_some, hhalf]
    rfl
  have hend : w.p0 = halfWay.atZ (number 3) := by
    have hover := endOver_placeWallEnd (some t) (number 3) (halfWay.atZ undefined)
    rw [← hp] at hover
    refine Point3.ext (congrArg Point2.x hover.plan) (congrArg Point2.y hover.plan) ?_
    have hz := hover.raised (.inl rfl)
    rw [Point2.atZ_plan, hground, Option.getD_none, number_add, add_zero] at hz
    exact hz
  refine ⟨s, t, w, hs, ht, hw, ?_, rfl, hhalf, hend, ?_⟩
  · simp [houseOnSlope]
  · rw [hend]
    exact fun h => nomatch h

end

end Site

end SiteSection
