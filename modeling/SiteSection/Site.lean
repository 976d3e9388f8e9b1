import SiteSection.Draft
import SiteSection.Terrain
import SiteSection.Building.Corners

/-! # Sites

  A sealed site: its geometry with elevations settled, its boundaries in one list, and indexes
  over all of it. Queries file through an index first and then decide exactly.
-/

namespace SiteSection

/-- A sealed site. -/
structure Site (α : Type) where
  /-- The settings. -/
  settings : Settings α
  /-- The buildings, placed on the ground. -/
  buildings : List (Building α)
  /-- The free-standing walls, one per segment. -/
  walls : List (Boundary α)
  /-- The ground regions. -/
  regions : List (GroundRegion α)
  /-- The sides of the buildings, the walls, and the borders of the regions, in this order. -/
  boundaries : List (Boundary α)
  /-- The terrain, if there is one. -/
  terrain : Option (Terrain α)
  /-- The buildings by their boxes. -/
  buildingIndex : BoxIndex α Nat
  /-- The walls by their boxes. -/
  wallIndex : BoxIndex α Nat
  /-- The boundaries by their boxes. -/
  boundaryIndex : BoxIndex α Nat
  /-- The polygons of the regions by their boxes, as region and place in the region. -/
  regionIndex : BoxIndex α (Nat × Nat)
  /-- The diffraction corners of each building, over the full circle. -/
  corners : List (List (Point3 α))

namespace Site

variable {α : Type}

/-- A site with nothing in it. -/
def empty (settings : Settings α) : Site α where
  settings := settings
  buildings := []
  walls := []
  regions := []
  boundaries := []
  terrain := none
  buildingIndex := ⟨[]⟩
  wallIndex := ⟨[]⟩
  boundaryIndex := ⟨[]⟩
  regionIndex := ⟨[]⟩
  corners := []

/-- The terrain mesh, if there is one. -/
def mesh? (s : Site α) : Option (Mesh α) := s.terrain.map (·.mesh)

/-- Is there a terrain of at least one triangle? -/
def hasTerrain (s : Site α) : Bool := s.mesh?.any fun m => 0 < m.faces.length

/-- The edges of the terrain, as boundaries of its triangles. -/
def terrainEdges (s : Site α) : List (Boundary α) :=
  ((s.mesh?.bind Mesh.edges?).getD []).map fun (p, q, t) => ⟨p, q, true, true, .terrain t⟩

/-- The diffraction corners of building `i`, over the full circle. -/
def corners? (s : Site α) (i : Nat) : Option (List (Point3 α)) := s.corners[i]?

/-- The diffraction corners of building `i` whose open angle lies strictly between bounds. -/
def cornersWithin? [Circular α] (s : Site α) (i : Nat) (least greatest : α) :
    Option (List (Point3 α)) :=
  s.buildings[i]?.map fun b => b.cornerPoints least greatest s.settings.cornerOffset

variable [Scalar α]

/-! ## At a location -/

/-- The elevation of the terrain, undefined off it. -/
def groundZ (s : Site α) (p : Point2 α) : α :=
  match s.terrain with
  | some t => t.elevation p
  | none => Scalar.nan

/-- The lowest building that covers a location. -/
def buildingAt? (s : Site α) (p : Point2 α) : Option (Building α) :=
  ((sortedOnce (s.buildingIndex.queryPoint p)).filterMap (s.buildings[·]?)).find? (·.plan.covers p)

/-- The elevation of the roof over a location, or else of the terrain. -/
def surfaceZ (s : Site α) (p : Point2 α) : α :=
  match s.buildingAt? p with
  | some b => b.roofZ
  | none => s.groundZ p

/-- Does polygon `k.2` of region `k.1` cover a location? -/
def regionCovers (s : Site α) (p : Point2 α) (k : Nat × Nat) : Bool :=
  ((s.regions[k.1]?).bind fun g => g.polygons[k.2]?).any (·.covers p)

/-- The region in effect at a location: the highest that covers it. -/
def regionAt? (s : Site α) (p : Point2 α) : Option Nat :=
  (((s.regionIndex.queryPoint p).filter (s.regionCovers p)).map (·.1)).max?

/-- The ground coefficient at a location, `otherwise` where there is no region. -/
def groundAt (s : Site α) (p : Point2 α) (otherwise : α) : α :=
  (((s.regionAt? p).bind (s.regions[·]?)).map (·.coefficient)).getD otherwise

/-! ## Along a way -/

/-- What is asked along a line is found by its pieces, so there is an answer only if there is room
    for a list of them. -/
def answerAlong? {β : Type} (s : Site α) (room : Nat) (line : Segment α) (answer : Unit → β) :
    Option β :=
  (line.split? s.settings.pieceLength room).map fun _ => answer ()

theorem answerAlong?_eq_none_iff {β : Type} {s : Site α} {room : Nat} {line : Segment α}
    {answer : Unit → β} : s.answerAlong? room line answer = none ↔
      0 < s.settings.pieceLength ∧ s.settings.pieceLength ≤ line.planLength ∧
        room < Scalar.ceil (line.planLength / s.settings.pieceLength) := by
  rw [answerAlong?, Option.map_eq_none_iff, Segment.split?_eq_none_iff]

theorem eq_of_answerAlong? {β : Type} {s : Site α} {room : Nat} {line : Segment α}
    {answer : Unit → β} {b : β} (h : s.answerAlong? room line answer = some b) : b = answer () := by
  obtain ⟨_, _, rfl⟩ := Option.map_eq_some_iff.mp h
  rfl

/-- The items of an index whose boxes meet those of the pieces of a line. -/
def alongPieces (s : Site α) (x : BoxIndex α Nat) (line : Segment α) : List Nat :=
  sortedOnce ((line.split s.settings.pieceLength).flatMap fun piece => x.query piece.box)

/-- The buildings whose boxes meet those of the pieces of a line, in order. -/
def buildingsAlong (s : Site α) (line : Segment α) : List (Nat × Building α) :=
  (s.alongPieces s.buildingIndex line).filterMap fun i => s.buildings[i]?.map (i, ·)

/-- The buildings along a line, if there is room for its pieces. -/
def buildingsAlong? (s : Site α) (room : Nat) (line : Segment α) :
    Option (List (Nat × Building α)) :=
  s.answerAlong? room line fun _ => s.buildingsAlong line

/-- The walls whose boxes meet that of a line, in order. -/
def wallsAlong (s : Site α) (line : Segment α) : List (Nat × Boundary α) :=
  (sortedOnce (s.wallIndex.query line.box)).filterMap fun i => s.walls[i]?.map (i, ·)

/-- The building sides and walls whose boxes meet a box, in order. -/
def obstaclesIn (s : Site α) (b : Box2 α) : List (Boundary α) :=
  ((sortedOnce (s.boundaryIndex.query b)).filterMap (s.boundaries[·]?)).filter fun w =>
    w.kind == .building || w.kind == .wall

end Site

end SiteSection
