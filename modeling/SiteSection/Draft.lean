import SiteSection.Building
import SiteSection.GroundRegion
import SiteSection.Settings
import SiteSection.Event

/-! # Drafts

  A draft collects the geometry of a site: buildings, walls, ground regions and topography.
  Each addition either returns the draft with the new entity and the number of that entity, or
  is refused with a reason; a refusal returns no draft, so nothing can be left behind by it.
-/

namespace SiteSection

/-- The geometry of a site, as collected so far. -/
structure Draft (α : Type) where
  /-- The settings. -/
  settings : Settings α
  /-- The buildings. -/
  buildings : List (Building α)
  /-- The free-standing walls, one per segment. -/
  walls : List (Boundary α)
  /-- The ground regions. -/
  regions : List (GroundRegion α)
  /-- The topographic points. -/
  points : List (Point3 α)
  /-- The break-lines. -/
  lines : List (Point3 α × Point3 α)
  deriving BEq, DecidableEq, Repr

/-- Why an addition to a draft was refused: the fault, and the event that reports it. -/
structure Rejection (α : Type) where
  /-- What is wrong. -/
  fault : GeometryFault α
  /-- The report. -/
  event : Event α
  deriving DecidableEq, Repr

/-- The outcome of an addition: the new draft and the number of what was added. -/
abbrev Addition (α : Type) := Except (Rejection α) (Draft α × Nat)

namespace Draft

variable {α : Type}

/-- An empty draft. -/
def empty (settings : Settings α) : Draft α := ⟨settings, [], [], [], [], []⟩

variable [Scalar α]

/-! ## Ground regions -/

/-- Adds a ground region. Regions added later take priority where they overlap. -/
def addRegion (d : Draft α) (polygons : List (Polygon α)) (coefficient : α) : Addition α :=
  match GroundRegion.ofPolygons? polygons coefficient with
  | .error f => .error ⟨f, .regionRejected f⟩
  | .ok g => .ok ({ d with regions := d.regions ++ [g] }, d.regions.length)

/-- Adds an axis-parallel ground region between two opposite corners, in any order. -/
def addRectangle (d : Draft α) (a b : Point2 α) (coefficient : α) : Addition α :=
  match Polygon.rectangle? (Coordinates.least a b) (Coordinates.greatest a b) with
  | .error f => .error ⟨f, .rectangleRejected f⟩
  | .ok p => d.addRegion [p] coefficient

/-! ## Buildings -/

/-- The outside name of a building that is given none. -/
def unnamed : Int := -1

/-- Adds a building. Where the settings make buildings ground, its plan becomes a region. -/
def addBuilding (d : Draft α) (footprint : List (Point3 α)) (height : α)
    (absorption : List α) (name : Int) : Addition α :=
  match Building.ofFootprint? footprint height absorption name with
  | .error f => .error ⟨f, .buildingRejected name f⟩
  | .ok b =>
    let add := fun (d : Draft α) => ({ d with buildings := d.buildings ++ [b] }, d.buildings.length)
    match d.settings.buildingGround with
    | none => .ok (add d)
    | some coefficient => (d.addRegion [b.plan] coefficient).map fun e => add e.1

/-! ## Walls -/

/-- What is wrong with a wall, if anything. -/
def wallFault? (polyline : List (Point3 α)) (height : α) : Option (GeometryFault α) :=
  if polyline.length < 2 then some .wallTooShort
  else if polyline.any fun p => Coordinates.hasNaN p.plan then some .undefinedWallPoint
  else if Scalar.isNaN height ∨ height < 0 then some .badWallHeight
  else none

/-- The segments of a wall, numbered from `first`; neighbours are joined. -/
def wallSegments (polyline : List (Point3 α)) (height : α) (absorption : List α) (name : Int)
    (first : Nat) : List (Boundary α) :=
  let edges := pathEdges polyline
  edges.zipIdx.map fun (e, i) =>
    ⟨e.1, e.2, i != 0, i + 1 != edges.length, .freestanding (first + i) height absorption name⟩

/-- Adds a wall along a polyline, one segment per leg; the number is that of the first. -/
def addWall (d : Draft α) (polyline : List (Point3 α)) (height : α) (absorption : List α)
    (name : Int) : Addition α :=
  match wallFault? polyline height with
  | some f => .error ⟨f, .wallRejected name f⟩
  | none =>
    let segments := wallSegments polyline height absorption name d.walls.length
    .ok ({ d with walls := d.walls ++ segments }, d.walls.length)

/-! ## Topography -/

/-- A topographic point with its elevation, the one of the settings where it has none. -/
def topographic (d : Draft α) (p : Point3 α) : Except (Rejection α) (Point3 α) :=
  if Scalar.isFinite p.x && Scalar.isFinite p.y then
    .ok (if Scalar.isNaN p.z then p.withZ d.settings.defaultZ else p)
  else .error ⟨.pointNotFinite p.x p.y, .pointRejected p.x p.y⟩

/-- Adds an elevation point. -/
def addPoint (d : Draft α) (p : Point3 α) : Addition α :=
  (d.topographic p).map fun p => ({ d with points := d.points ++ [p] }, d.points.length)

/-- Adds a break-line. -/
def addLine (d : Draft α) (a b : Point3 α) : Addition α :=
  match d.topographic a with
  | .error r => .error r
  | .ok a => match d.topographic b with
    | .error r => .error r
    | .ok b => .ok ({ d with lines := d.lines ++ [(a, b)] }, d.lines.length)

end Draft

end SiteSection
