import SiteSection.Site
import SiteSection.Triangulated

/-! # Sealing a draft

  Sealing triangulates the topography, settles the elevations of buildings and walls on it,
  and files everything. Topography that cannot be triangulated stops a strict sealing; a lax
  one reports it and goes on without terrain. Any triangulation will do.
-/

namespace SiteSection

namespace Draft

variable {α : Type}

/-! ## Terrain -/

section
variable [Scalar α] [Triangulates α]

/-- The terrain of a draft, `none` if there are fewer than two topographic features. -/
def terrain (d : Draft α) :
    Reported α (Except (TriangulationFault α) (Option (Terrain α))) :=
  if d.points.length + d.lines.length < 2 then ⟨[.noTerrain], .ok none⟩
  else
    let t := Triangulates.triangulate d.points d.lines
    ⟨t.events, t.result.map Terrain.ofMesh?⟩

end

/-! ## Elevations -/

section
variable [Scalar α]

/-- The finite elevations of a terrain at some locations. -/
def elevationsAt (terrain : Option (Terrain α)) (ps : List (Point2 α)) : List α :=
  match terrain with
  | none => []
  | some t => (ps.filterMap t.elevation?).filter Scalar.isFinite

/-- The elevation of the terrain at a location, zero where there is none. -/
def groundOrZero (terrain : Option (Terrain α)) (p : Point2 α) : α :=
  (elevationsAt terrain [p]).head?.getD 0

/-- A building placed on the mean of the terrain under its corners. -/
def placeBuilding (terrain : Option (Terrain α)) (absolute : Bool) (b : Building α) :
    Building α :=
  b.place (Scalar.mean (elevationsAt terrain (b.footprint.tail.map Point3.plan))) absolute

/-- The end of a wall of some height: without an elevation of its own it is at that height above
    the terrain. -/
def placeWallEnd (terrain : Option (Terrain α)) (height : α) (p : Point3 α) : Point3 α :=
  if Scalar.isNaN p.z || p.z == 0 then p.withZ (height + groundOrZero terrain p.plan) else p

theorem placeWallEnd_plan (terrain : Option (Terrain α)) (height : α) (p : Point3 α) :
    (placeWallEnd terrain height p).plan = p.plan := by
  unfold placeWallEnd
  split <;> rfl

/-- A wall with the elevations of its ends settled. -/
def placeWall (terrain : Option (Terrain α)) (w : Boundary α) : Boundary α :=
  let height := w.height?.getD 0
  { w with p0 := placeWallEnd terrain height w.p0, p1 := placeWallEnd terrain height w.p1 }

end

/-! ## Filing -/

section
variable [Circular α]

/-- The site of a draft over a given terrain. -/
def siteOver (d : Draft α) (terrain : Option (Terrain α)) : Site α :=
  let buildings := d.buildings.map (placeBuilding terrain d.settings.absoluteRoofs)
  let walls := d.walls.map (placeWall terrain)
  let boundaries :=
    (buildings.zipIdx.flatMap fun (b, i) => b.sides i) ++ walls ++
      (d.regions.zipIdx.flatMap fun (g, i) => g.border i)
  { settings := d.settings
    buildings := buildings
    walls := walls
    regions := d.regions
    boundaries := boundaries
    terrain := terrain
    buildingIndex := BoxIndex.ofList (buildings.zipIdx.map fun (b, i) => (b.box, i))
    wallIndex := BoxIndex.ofList (walls.zipIdx.map fun (w, i) => (w.box, i))
    boundaryIndex := BoxIndex.ofList (boundaries.zipIdx.map fun (w, i) => (w.box, i))
    regionIndex := BoxIndex.ofList (d.regions.zipIdx.flatMap fun (g, r) =>
      g.polygons.zipIdx.map fun (p, i) => (p.box, (r, i)))
    corners := buildings.map fun b =>
      b.cornerPoints 0 (Scalar.two * Circular.pi) d.settings.cornerOffset }

end

/-- The report of a sealed site. -/
def sealedEvent (s : Site α) : Event α :=
  .siteSealed s.buildings.length s.walls.length s.regions.length s.boundaries.length
    ((s.mesh?.map (·.faces.length)).getD 0)

/-! ## Sealing -/

section
variable [Circular α] [Triangulates α]

/-- The site of a draft. Topography that cannot be triangulated is an error if `strict` is set,
    and is left out with a report otherwise. -/
def build (d : Draft α) (strict : Bool) :
    Reported α (Except (TriangulationFault α) (Site α)) :=
  let t := d.terrain
  match t.result with
  | .ok terrain =>
    let site := d.siteOver terrain
    ⟨t.events ++ [sealedEvent site], .ok site⟩
  | .error f =>
    if strict then ⟨t.events, .error f⟩
    else
      let site := d.siteOver none
      ⟨t.events ++ [.terrainDropped f, sealedEvent site], .ok site⟩

/-- Seals a draft, or says why its topography cannot be triangulated. -/
def trySeal (d : Draft α) : Reported α (Except (TriangulationFault α) (Site α)) :=
  d.build true

/-- Seals a draft, without terrain if its topography cannot be triangulated. -/
def sealLax (d : Draft α) : Reported α (Site α) :=
  let built := d.build false
  match built.result with
  | .ok site => ⟨built.events, site⟩
  | .error f => ⟨built.events ++ [.sealingFailed f], Site.empty Settings.default⟩

end

end Draft

end SiteSection
