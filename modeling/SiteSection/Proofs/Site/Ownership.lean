import SiteSection.Triangulation
import SiteSection.Proofs.Section.Feet
import SiteSection.Proofs.Site.Refusals

/-! # Owners

  A boundary carries the number of what it bounds. For a wall that number is written down when
  the wall is added, for a building or a region when the boundaries are listed, and it is read
  much later, when a line crosses the boundary and the section point shows it as its owner.

  The numbers agree with the lists all the way: every boundary is an edge of the building, wall
  or region that has its number, and an owner shown by a section point has such an edge there.

  Nothing is assumed of the arithmetic.
-/

namespace SiteSection

/-! ## Walls are numbered by place -/

namespace Draft

variable {α : Type}

/-- Every wall is free-standing, and its number is its place. -/
def WallsNumbered (d : Draft α) : Prop :=
  ∀ (i : Nat) (w : Boundary α), d.walls[i]? = some w → w.kind = .wall ∧ w.owner = i

/-- Leg `j` of a polyline is segment `j` of the wall. -/
theorem getElem?_wallSegments {polyline : List (Point3 α)} {j : Nat} {p q : Point3 α}
    (hp : polyline[j]? = some p) (hq : polyline[j + 1]? = some q) (height : α)
    (absorption : List α) (name : Int) (first : Nat) :
    (wallSegments polyline height absorption name first)[j]? =
      some ⟨p, q, j != 0, j + 2 != polyline.length,
        .freestanding (first + j) height absorption name⟩ := by
  have hleg : (pathEdges polyline)[j]? = some (p, q) := by
    rw [getElem?_pathEdges, hp, hq]
    rfl
  have hlt : j + 1 < polyline.length := (List.getElem?_eq_some_iff.mp hq).1
  have hlast : (j + 1 != (pathEdges polyline).length) = (j + 2 != polyline.length) := by
    rw [length_pathEdges, Bool.eq_iff_iff, bne_iff_ne, bne_iff_ne]
    omega
  simp only [wallSegments, List.getElem?_map, List.getElem?_zipIdx, hleg, Option.map_some,
    Nat.zero_add, hlast]

/-- The segments of a wall have consecutive numbers. -/
theorem owner_of_getElem?_wallSegments {polyline : List (Point3 α)} {height : α}
    {absorption : List α} {name : Int} {first j : Nat} {w : Boundary α}
    (hw : (wallSegments polyline height absorption name first)[j]? = some w) :
    w.kind = .wall ∧ w.owner = first + j := by
  simp only [wallSegments, List.getElem?_map, List.getElem?_zipIdx, Option.map_eq_some_iff,
    Nat.zero_add] at hw
  obtain ⟨_, ⟨_, _, rfl⟩, rfl⟩ := hw
  exact ⟨rfl, rfl⟩

section
variable [Scalar α]

/-- An addition keeps the walls numbered: it adds none, or numbers them from the end on. -/
theorem Call.Adds.wallsNumbered {c : Call α} {d d' : Draft α} {i : Nat} (h : c.Adds d d' i)
    (hd : d.WallsNumbered) : d'.WallsNumbered := by
  intro k w hw
  cases h with
  | wall =>
    rcases Nat.lt_or_ge k d.walls.length with hk | hk
    · rw [List.getElem?_append_left hk] at hw
      exact hd k w hw
    · rw [List.getElem?_append_right hk] at hw
      obtain ⟨hkind, howner⟩ := owner_of_getElem?_wallSegments hw
      exact ⟨hkind, by omega⟩
  | region | rectangle | building | buildingOnGround | point | line => exact hd k w hw

theorem wallsNumbered_afterAll (settings : Settings α) (calls : List (Call α)) :
    ((empty settings).afterAll calls).WallsNumbered := by
  refine afterAll_invariant WallsNumbered ?_ ?_ calls
  · rintro d c ⟨d', i⟩ hd h
    exact (Call.adds_of_outcome h).wallsNumbered hd
  · simp [WallsNumbered, empty]

/-- An accepted wall is in the draft from its number on, through all that follows. -/
theorem getElem?_walls_afterAll {d : Draft α} {polyline : List (Point3 α)} {height : α}
    {absorption : List α} {name : Int} {first : Nat}
    (hfirst : (Call.wall polyline height absorption name).answer d = .ok first)
    (behind : List (Call α)) {j : Nat} {p q : Point3 α} (hp : polyline[j]? = some p)
    (hq : polyline[j + 1]? = some q) :
    (d.afterAll (.wall polyline height absorption name :: behind)).walls[first + j]? =
      some ⟨p, q, j != 0, j + 2 != polyline.length,
        .freestanding (first + j) height absorption name⟩ := by
  have hleaves := (Call.wall polyline height absorption name).leaves_after d
  rw [hfirst] at hleaves
  have hextends : (d.after (.wall polyline height absorption name)).Extends
      (d.afterAll (.wall polyline height absorption name :: behind)) := extends_afterAll _ behind
  generalize d.after (.wall polyline height absorption name) = d' at hleaves hextends
  cases hleaves with
  | added h =>
    cases h with
    | wall _ =>
      obtain ⟨rest, hrest⟩ := hextends.walls
      have hleg := getElem?_wallSegments hp hq height absorption name d.walls.length
      have hlt := (List.getElem?_eq_some_iff.mp hleg).1
      rw [← hrest, List.append_assoc, List.getElem?_append_right (Nat.le_add_right _ _),
        Nat.add_sub_cancel_left, List.getElem?_append_left hlt]
      exact hleg

end

end Draft

/-! ## Boundaries are edges -/

/-- The kinds of section points that show an owner. -/
def PointKind.isOwned : PointKind → Bool
  | .building | .wall | .ground => true
  | .terrain | .source | .receiver => false

namespace Site

section
variable {α : Type} [Scalar α] (s : Site α)

/-- The segment is an edge of the building, wall or region with the number: a leg of the footprint
    of a building, a wall, or an edge of a polygon of a region. -/
inductive Owns : PointKind → Nat → Segment α → Prop where
  | side {i : Nat} {B : Building α} {e : Point3 α × Point3 α} (hB : s.buildings[i]? = some B)
      (he : e ∈ pathEdges B.footprint) : Owns .building i ⟨e.1, e.2⟩
  | wall {i : Nat} {w : Boundary α} (hw : s.walls[i]? = some w) : Owns .wall i ⟨w.p0, w.p1⟩
  | border {i : Nat} {r : GroundRegion α} {o : Polygon α} {e : Point2 α × Point2 α}
      (hr : s.regions[i]? = some r) (ho : o ∈ r.polygons) (he : e ∈ o.edges) :
      Owns .ground i (.flat e.1 e.2)

/-- All such edges: those of the buildings, the walls, those of the regions, by number. -/
def ownedEdges : List (PointKind × Nat × Segment α) :=
  (s.buildings.zipIdx.flatMap fun (B, i) =>
    (pathEdges B.footprint).map fun e => (.building, i, ⟨e.1, e.2⟩)) ++
  (s.walls.zipIdx.map fun (w, i) => (.wall, i, ⟨w.p0, w.p1⟩)) ++
  s.regions.zipIdx.flatMap fun (r, i) =>
    r.polygons.flatMap fun o => o.edges.map fun e => (.ground, i, .flat e.1 e.2)

variable {s}

theorem owns_of_mem_ownedEdges {k : PointKind} {i : Nat} {e : Segment α}
    (h : (k, i, e) ∈ s.ownedEdges) : s.Owns k i e := by
  rcases List.mem_append.mp h with h | h
  · rcases List.mem_append.mp h with h | h
    · obtain ⟨⟨B, j⟩, hB, h⟩ := List.mem_flatMap.mp h
      obtain ⟨e, he, heq⟩ := List.mem_map.mp h
      cases heq
      exact .side (List.mk_mem_zipIdx_iff_getElem?.mp hB) he
    · obtain ⟨⟨w, j⟩, hw, heq⟩ := List.mem_map.mp h
      cases heq
      exact .wall (List.mk_mem_zipIdx_iff_getElem?.mp hw)
  · obtain ⟨⟨r, j⟩, hr, h⟩ := List.mem_flatMap.mp h
    obtain ⟨o, ho, h⟩ := List.mem_flatMap.mp h
    obtain ⟨e, he, heq⟩ := List.mem_map.mp h
    cases heq
    exact .border (List.mk_mem_zipIdx_iff_getElem?.mp hr) ho he

end

section
variable {α : Type} [Circular α] {s : Site α}

/-- The walls of a sealed site are numbered by place. -/
theorem IsSealed.owner_of_wall (h : s.IsSealed) {i : Nat} {w : Boundary α}
    (hw : s.walls[i]? = some w) : w.kind = .wall ∧ w.owner = i := by
  obtain ⟨settings, calls, terrain, rfl⟩ := h
  have hplaced : (((Draft.empty settings).afterAll calls).walls.map
      (Draft.placeWall terrain))[i]? = some w := hw
  rw [List.getElem?_map, Option.map_eq_some_iff] at hplaced
  obtain ⟨v, hv, rfl⟩ := hplaced
  exact Draft.wallsNumbered_afterAll settings calls i v hv

/-- Every boundary bounds what has the edge. -/
theorem IsSealed.map_boundaries (h : s.IsSealed) :
    s.boundaries.map (fun b => (b.kind, b.owner, b.segment)) = s.ownedEdges := by
  have hsides : (s.buildings.zipIdx.flatMap fun (B, i) => B.sides i).map
      (fun b => (b.kind, b.owner, b.segment)) = s.buildings.zipIdx.flatMap fun (B, i) =>
        (pathEdges B.footprint).map fun e => (.building, i, ⟨e.1, e.2⟩) := by
    rw [List.map_flatMap]
    congr 1
    funext ⟨B, i⟩
    simp only [Building.sides, List.map_map]
    rfl
  have hwalls : s.walls.map (fun b => (b.kind, b.owner, b.segment)) =
      s.walls.zipIdx.map fun (w, i) => (.wall, i, ⟨w.p0, w.p1⟩) := by
    apply List.ext_getElem?
    intro i
    rw [List.getElem?_map, List.getElem?_map, List.getElem?_zipIdx]
    cases hw : s.walls[i]? with
    | none => rfl
    | some w =>
      obtain ⟨hkind, howner⟩ := h.owner_of_wall hw
      simp [hkind, howner, Boundary.segment]
  have hborders : (s.regions.zipIdx.flatMap fun (r, i) => r.border i).map
      (fun b => (b.kind, b.owner, b.segment)) = s.regions.zipIdx.flatMap fun (r, i) =>
        r.polygons.flatMap fun o => o.edges.map fun e => (.ground, i, .flat e.1 e.2) := by
    rw [List.map_flatMap]
    congr 1
    funext ⟨r, i⟩
    simp only [GroundRegion.border, List.map_flatMap, List.map_map]
    rfl
  rw [h.boundaries_eq, List.map_append, List.map_append, hsides, hwalls, hborders, ownedEdges]

theorem IsSealed.owns_of_mem (h : s.IsSealed) {b : Boundary α} (hb : b ∈ s.boundaries) :
    s.Owns b.kind b.owner b.segment := by
  apply owns_of_mem_ownedEdges
  rw [← h.map_boundaries]
  exact List.mem_map.mpr ⟨b, hb, rfl⟩

end

/-! ## What section points show -/

section
variable {α : Type} [Scalar α] (s : Site α)

/-- The elevation of the foot of a building at a location. -/
def footZ (p : Point2 α) : α := if Scalar.isNaN (s.groundZ p) then 0 else s.groundZ p

/-- The point is where the line meets a boundary of the kind and the number that it shows, and
    these have the edge. The elevation is that of the crossing, or that of the foot of a
    building. -/
def ShowsOwner (line : Segment α) (c : SectionPoint α) : Prop :=
  ∃ b ∈ s.boundaries, ∃ x, c.kind = b.kind ∧ c.owner = some b.owner ∧
    s.Owns b.kind b.owner b.segment ∧ line.intersect? b.segment = some x ∧
    (c.position = x.plan.atZ (s.crossingZ b x.plan) ∨
      c.kind = .building ∧ c.position = x.plan.atZ (s.footZ x.plan))

variable {s} {line : Segment α} {g : α} {c : SectionPoint α}

/-- A crossing shows the kind and the number of the boundary, where the line meets it. -/
theorem crossing?_owner {b : Boundary α} (h : s.crossing? line g b = some c) :
    c.kind = b.kind ∧ c.owner = some b.owner ∧ c.kind.isOwned = true ∧
    ∃ x, line.intersect? b.segment = some x ∧
      c.position = x.plan.atZ (s.crossingZ b x.plan) := by
  obtain ⟨x, hx, hposition, hkind, howner, hcases⟩ := s.crossing?_cases h
  have howned : c.kind.isOwned = true := by
    rcases hcases with ⟨hk, _⟩ | ⟨hk, _⟩ | ⟨hk, _⟩ <;> (rw [hk]; rfl)
  exact ⟨hkind, howner, howned, x, hx, hposition⟩

end

section
variable {α : Type} [Circular α] {s : Site α} {line : Segment α} {g : α} {c : SectionPoint α}

/-- A collected point shows its owner if it is a crossing, and no owner if it is of the
    terrain. -/
theorem IsSealed.owner_of_mem_collected (h : s.IsSealed) (hc : c ∈ s.collected line g) :
    if c.kind.isOwned then ∃ b ∈ s.boundaries, s.Owns b.kind b.owner b.segment ∧
      s.crossing? line g b = some c else c.owner = none := by
  rcases s.mem_collected hc with ⟨p, rfl⟩ | hc
  · rfl
  · obtain ⟨b, hb, hcrossing⟩ := s.exists_of_mem_crossings hc
    rw [if_pos (crossing?_owner hcrossing).2.2.1]
    exact ⟨b, hb, h.owns_of_mem hb, hcrossing⟩

/-- A point between the ends of a section shows its owner, if its kind has one. -/
theorem IsSealed.showsOwner_of_mem_interior (h : s.IsSealed) (hc : c ∈ s.interior line g) :
    if c.kind.isOwned then s.ShowsOwner line c else c.owner = none := by
  rcases s.mem_interior hc with hc | ⟨d, hd, hbuilding, rfl⟩
  · have howner := h.owner_of_mem_collected hc
    split at howner
    · next hkind =>
      rw [if_pos hkind]
      obtain ⟨b, hb, howns, hcrossing⟩ := howner
      obtain ⟨hk, ho, _, x, hx, hposition⟩ := crossing?_owner hcrossing
      exact ⟨b, hb, x, hk, ho, howns, hx, .inl hposition⟩
    · next hkind =>
      rw [if_neg hkind]
      exact howner
  · have hkind : d.kind = .building := by simpa [SectionPoint.isBuilding] using hbuilding
    have howned : d.kind.isOwned = true := by rw [hkind]; rfl
    have howner := h.owner_of_mem_collected hd
    rw [if_pos howned] at howner
    obtain ⟨b, hb, howns, hcrossing⟩ := howner
    obtain ⟨hk, ho, _, x, hx, hposition⟩ := crossing?_owner hcrossing
    rw [if_pos (show (s.footOf d).kind.isOwned = true from howned)]
    refine ⟨b, hb, x, hk, ho, howns, hx, .inr ⟨hkind, ?_⟩⟩
    rw [footOf, hposition]
    rfl

/-- A point of a profile shows its owner, if its kind has one, and none otherwise. -/
theorem IsSealed.showsOwner_of_mem_profile (h : s.IsSealed) {source receiver : Point3 α}
    (hc : c ∈ (s.profile source receiver g).points) :
    if c.kind.isOwned then s.ShowsOwner ⟨source, receiver⟩ c else c.owner = none := by
  obtain ⟨inner, hinner, hpoints⟩ := s.profile_points source receiver g
  rw [hpoints, List.mem_cons, List.mem_append, List.mem_singleton] at hc
  rcases hc with rfl | hc | rfl
  · rfl
  · exact h.showsOwner_of_mem_interior (hinner.subset hc)
  · rfl

end

/-! ## From the additions to the section points -/

section
variable {α : Type} [Scalar α]

/-- The walls from number `first` on are the legs of a polyline, put on the ground. Two legs
    that follow each other share an end, and are joined there. -/
structure HasLegs (s : Site α) (polyline : List (Point3 α)) (height : α) (absorption : List α)
    (name : Int) (first : Nat) : Prop where
  /-- A leg is numbered by its place, and joined to those before and after it. -/
  leg : ∀ j p q, polyline[j]? = some p → polyline[j + 1]? = some q →
    s.walls[first + j]? = some ⟨Draft.placeWallEnd s.terrain height p,
      Draft.placeWallEnd s.terrain height q, j != 0, j + 2 != polyline.length,
      .freestanding (first + j) height absorption name⟩
  /-- Neighbours share an end, with its elevation. -/
  shared : ∀ j w w', j + 2 < polyline.length → s.walls[first + j]? = some w →
    s.walls[first + j + 1]? = some w' → w.p1 = w'.p0 ∧ w.joined1 = true ∧ w'.joined0 = true

theorem HasLegs.of_leg {s : Site α} {polyline : List (Point3 α)} {height : α}
    {absorption : List α} {name : Int} {first : Nat}
    (leg : ∀ j p q, polyline[j]? = some p → polyline[j + 1]? = some q →
      s.walls[first + j]? = some ⟨Draft.placeWallEnd s.terrain height p,
        Draft.placeWallEnd s.terrain height q, j != 0, j + 2 != polyline.length,
        .freestanding (first + j) height absorption name⟩) :
    s.HasLegs polyline height absorption name first := by
  refine ⟨leg, fun j w w' hj hw hw' => ?_⟩
  have hp : polyline[j]? = some polyline[j] := List.getElem?_eq_getElem (by omega)
  have hq : polyline[j + 1]? = some polyline[j + 1] := List.getElem?_eq_getElem (by omega)
  have hr : polyline[j + 2]? = some polyline[j + 2] := List.getElem?_eq_getElem hj
  rw [leg j _ _ hp hq] at hw
  rw [Nat.add_assoc, leg (j + 1) _ _ hq hr] at hw'
  cases hw
  cases hw'
  exact ⟨rfl, by simp; omega, by simp⟩

end

section
variable {α : Type} [Circular α]

/-- An accepted wall has its legs in the sealed site. -/
theorem hasLegs_siteOver {d : Draft α} {polyline : List (Point3 α)} {height : α}
    {absorption : List α} {name : Int} {first : Nat}
    (hfirst : (Draft.Call.wall polyline height absorption name).answer d = .ok first)
    (behind : List (Draft.Call α)) (terrain : Option (Terrain α)) :
    ((d.afterAll (.wall polyline height absorption name :: behind)).siteOver terrain).HasLegs
      polyline height absorption name first := by
  apply HasLegs.of_leg
  intro j p q hp hq
  show (List.map (Draft.placeWall terrain) _)[first + j]? = _
  rw [List.getElem?_map, Draft.getElem?_walls_afterAll hfirst behind hp hq]
  rfl

/-- **Owners.** However a draft is fed, the boundaries of its site are the sides of the
    buildings, the walls and the borders of the regions, in this order and each by number; the
    kind and the number of a boundary are those of what has the edge. A wall is numbered by its
    place, and a polyline keeps its legs together, joined where they share an end.

    In every profile a point of a building, a wall or the ground shows one of these as its owner,
    which has an edge where the point is. Other points show none. -/
theorem owners_of_build [Triangulates α] (settings : Settings α) (calls : List (Draft.Call α))
    {strict : Bool} {s : Site α} (hs : (((Draft.empty settings).afterAll calls).build strict).result = .ok s) :
    s.boundaries = (s.buildings.zipIdx.flatMap fun (B, i) => B.sides i) ++ s.walls ++
      (s.regions.zipIdx.flatMap fun (r, i) => r.border i) ∧
    s.boundaries.map (fun b => (b.kind, b.owner, b.segment)) = s.ownedEdges ∧
    (∀ (i : Nat) (w : Boundary α), s.walls[i]? = some w → w.owner = i) ∧
    (∀ before polyline height absorption name behind first,
      calls = before ++ .wall polyline height absorption name :: behind →
      (Draft.Call.wall polyline height absorption name).answer
        ((Draft.empty settings).afterAll before) = .ok first →
      s.HasLegs polyline height absorption name first) ∧
    ∀ source receiver g, ∀ c ∈ (s.profile source receiver g).points,
      if c.kind.isOwned then s.ShowsOwner ⟨source, receiver⟩ c else c.owner = none := by
  have hsealed : s.IsSealed := Draft.isSealed_of_build settings calls hs
  obtain ⟨terrain, hterrain, _⟩ := Draft.exists_siteOver_of_build rfl rfl hs
  refine ⟨hsealed.boundaries_eq, hsealed.map_boundaries, fun i w hw => (hsealed.owner_of_wall hw).2,
    ?_, fun source receiver g c hc => hsealed.showsOwner_of_mem_profile hc⟩
  rintro before polyline height absorption name behind first rfl hfirst
  rw [hterrain, Draft.afterAll_append]
  exact hasLegs_siteOver hfirst behind terrain

end

/-! ## A house, a wall and a lawn -/

/-- The corners of a wall. -/
def fence : List (Point3 Float) := [⟨8, 0, 0⟩, ⟨8, 8, 0⟩, ⟨0, 8, 0⟩]

/-- A house, a wall with a corner, and a lawn. -/
def fencedYard : List (Draft.Call Float) :=
  [.building [⟨2, 2, 0⟩, ⟨4, 2, 0⟩, ⟨4, 4, 0⟩, ⟨2, 4, 0⟩] 3 [] 1, .wall fence 2 [] 7,
   .rectangle ⟨0, 0⟩ ⟨8, 8⟩ 0.5]

/-- The legs of the wall are raised to its height and share the corner. -/
theorem owners_of_build_fencedYard :
    ∃ s, (((Draft.empty Settings.default).afterAll fencedYard).build true).result = .ok s ∧
      s.boundaries.map (fun b => (b.kind, b.owner, b.segment)) = s.ownedEdges ∧
      s.boundaries.map Boundary.owner = [0, 0, 0, 0, 0, 1, 0, 0, 0, 0] ∧
      s.HasLegs fence 2 [] 7 0 ∧
      s.walls.map (fun w => (w.p0, w.p1)) = [(⟨8, 0, 2⟩, ⟨8, 8, 2⟩), (⟨8, 8, 2⟩, ⟨0, 8, 2⟩)] := by
  have hs := Draft.build_of_flat (d := (Draft.empty Settings.default).afterAll fencedYard)
    (by decide +kernel) true
  obtain ⟨_, hboundaries, _, hlegs, _⟩ := owners_of_build Settings.default fencedYard hs
  have hfirst : (Draft.Call.wall fence 2 [] 7).answer
      ((Draft.empty Settings.default).afterAll (fencedYard.take 1)) = .ok 0 := by
    decide +kernel
  exact ⟨_, hs, hboundaries, by decide +kernel, hlegs (fencedYard.take 1) fence 2 [] 7
    (fencedYard.drop 2) 0 rfl hfirst, by decide +kernel⟩

end Site

end SiteSection
