import SiteSection.Site
import SiteSection.Section.Profile
import SiteSection.Section.Framing
import SiteSection.Section.Cleanup
import SiteSection.Terrain.Walk
import SiteSection.Terrain.Thinning

/-! # Cutting a section through a site

  A section collects what a line meets: samples of the terrain, and crossings with the sides of
  buildings, with walls, and with the borders of ground regions. The collected points are put
  in order along the line, buildings are framed, the source and the receiver are set at the
  ends, and the whole is cleaned up.
-/

namespace SiteSection

namespace Site

variable {α : Type} [Scalar α]

/-! ## Ground along a line -/

/-- How far past a place the ground ahead of it is looked up. -/
def aheadStep : α := Scalar.negPowTen 6

/-- The ground coefficient just past a location, in the direction of a line. A line without
    direction has the ground of the location itself. -/
def groundAhead (s : Site α) (line : Segment α) (otherwise : α) (p : Point2 α) : α :=
  let length := Coordinates.norm line.dir
  if length == 0 then s.groundAt p otherwise
  else s.groundAt (p + Coordinates.scale line.dir (aheadStep / length)) otherwise

/-! ## Collecting -/

/-- Elevation samples of the terrain from one location towards another. -/
def terrainSamples (s : Site α) (a b : Point2 α) : List (Point3 α) :=
  match s.terrain with
  | none => []
  | some t => t.walk a b s.settings.crossingTolerance

/-- The terrain under a line, as section points. -/
def terrainPoints (s : Site α) (line : Segment α) (otherwise : α) : List (SectionPoint α) :=
  (thin s.settings.terrainTolerance (s.terrainSamples line.p0.plan line.p1.plan)).map fun p =>
    .plain p .terrain (s.groundAt p.plan otherwise)

/-- The elevation of a boundary at a location on it; that of the ground where the boundary has
    none of its own. -/
def crossingZ (s : Site α) (b : Boundary α) (p : Point2 α) : α :=
  if Scalar.isFinite b.p0.z && Scalar.isFinite b.p1.z then b.segment.elevation p else s.groundZ p

/-- The ground coefficient at a wall: that of the region at the crossing, else of the region
    with the number of the wall. -/
def groundAtWall (s : Site α) (wall : Nat) (otherwise : α) (p : Point2 α) : α :=
  s.groundAt p (((s.regions[wall]?).map (·.coefficient)).getD otherwise)

/-- The section point where a line meets a boundary, if it does. The border of a ground region
    is not crossed at its corners, and terrain edges are not crossed at all. -/
def crossing? (s : Site α) (line : Segment α) (otherwise : α) (b : Boundary α) :
    Option (SectionPoint α) := do
  let p := (← line.intersect? b.segment).plan
  let position := p.atZ (s.crossingZ b p)
  match b.role with
  | .side building absorption =>
    some ⟨position, .building, some building, s.groundAt p otherwise, some absorption, b.hasEnd p⟩
  | .freestanding wall _ absorption _ =>
    some ⟨position, .wall, some wall, s.groundAtWall wall otherwise p, some absorption,
      b.hasEnd p⟩
  | .region region =>
    if b.hasEnd p then none
    else some ⟨position, .ground, some region, s.groundAhead line otherwise p, none, false⟩
  | .terrain _ => none

/-- The crossings of a line with the boundaries of the site, in the order of the boundaries. -/
def crossings (s : Site α) (line : Segment α) (otherwise : α) : List (SectionPoint α) :=
  ((s.alongPieces s.boundaryIndex line).filterMap (s.boundaries[·]?)).filterMap
    (s.crossing? line otherwise)

/-- The crossings of a line, if there is room for its pieces. -/
def crossings? (s : Site α) (room : Nat) (line : Segment α) (otherwise : α) :
    Option (List (SectionPoint α)) :=
  s.answerAlong? room line fun _ => s.crossings line otherwise

/-- All that a line meets. -/
def collected (s : Site α) (line : Segment α) (otherwise : α) : List (SectionPoint α) :=
  s.terrainPoints line otherwise ++ s.crossings line otherwise

/-! ## Putting together -/

/-- The order of section points along a line: by projection, then by plan location. -/
def alongOrder (line : Segment α) (a b : SectionPoint α) : Ordering :=
  (Scalar.totalCmp (line.project a.position.plan) (line.project b.position.plan)).then
    (Coordinates.compare a.position.plan b.position.plan)

/-- The points in order along a line; points at one place stay in their order. -/
def sortAlong (line : Segment α) (points : List (SectionPoint α)) : List (SectionPoint α) :=
  points.mergeSort fun a b => (alongOrder line a b).isLE

/-- The framing point at the foot of a building crossing: on the ground, at zero where the
    ground is undefined. -/
def footOf (s : Site α) (c : SectionPoint α) : SectionPoint α :=
  let z := s.groundZ c.position.plan
  { c with position := c.position.withZ (if Scalar.isNaN z then 0 else z), atEnd := false }

/-- The points between the ends of a section, in order and framed. -/
def interior (s : Site α) (line : Segment α) (otherwise : α) : List (SectionPoint α) :=
  SectionPoint.frame s.footOf (sortAlong line (s.collected line otherwise))

/-- The points of a section before they are cleaned up. -/
def sectionPoints (s : Site α) (line : Segment α) (otherwise : α) : List (SectionPoint α) :=
  .plain line.p0 .source (s.groundAt line.p0.plan otherwise) ::
    (s.interior line otherwise ++ [.plain line.p1 .receiver (s.groundAt line.p1.plan otherwise)])

/-- A section runs from its source to its receiver. -/
theorem isAnchored_sectionPoints (s : Site α) (line : Segment α) (otherwise : α) :
    SectionPoint.isAnchored (s.sectionPoints line otherwise) = true := by
  simp [SectionPoint.isAnchored, sectionPoints, List.getLast?_cons]

/-- The ends of a section need not be moved. -/
theorem anchor_sectionPoints (s : Site α) (line : Segment α) (otherwise : α) :
    SectionPoint.anchor (s.sectionPoints line otherwise) = s.sectionPoints line otherwise :=
  SectionPoint.anchor_of_isAnchored (s.isAnchored_sectionPoints line otherwise)

/-- The profile from a source to a receiver, with the ground coefficient `otherwise` where
    there is no region. -/
def profile (s : Site α) (source receiver : Point3 α) (otherwise : α) : Profile α :=
  let line : Segment α := ⟨source, receiver⟩
  ⟨SectionPoint.settle s.settings.policy (s.groundAhead line otherwise)
    (SectionPoint.capRuns (SectionPoint.anchor (s.sectionPoints line otherwise)))⟩

/-- An end of a profile with the owner, the ground and the absorption of a given point. -/
def withTraits (given c : SectionPoint α) : SectionPoint α :=
  { c with owner := given.owner, ground := given.ground, absorption := given.absorption }

/-- The profile between two given points, whose ends keep what the points say. -/
def profileBetween (s : Site α) (source receiver : SectionPoint α) (otherwise : α) :
    Profile α :=
  (s.profile source.position receiver.position otherwise).mapEnds
    (withTraits source) (withTraits receiver)

/-- The profile from a source to a receiver, if there is room for the pieces of the line. -/
def profile? (s : Site α) (room : Nat) (source receiver : Point3 α) (otherwise : α) :
    Option (Profile α) :=
  s.answerAlong? room ⟨source, receiver⟩ fun _ => s.profile source receiver otherwise

/-- The profile between two given points, if there is room for the pieces of the line. -/
def profileBetween? (s : Site α) (room : Nat) (source receiver : SectionPoint α) (otherwise : α) :
    Option (Profile α) :=
  s.answerAlong? room ⟨source.position, receiver.position⟩ fun _ =>
    s.profileBetween source receiver otherwise

/-! ## Reporting -/

/-- The event that reports a profile. -/
def cutEvent (source receiver : Point3 α) (p : Profile α) : Event α :=
  .sectionCut source receiver p.length

end Site

end SiteSection
