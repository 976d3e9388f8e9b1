import SiteSection.Stored.Geometry
import SiteSection.Building
import SiteSection.GroundRegion
import SiteSection.Settings
import SiteSection.Section.Profile

/-! # Stored sites and sections

  The stored forms of what a site is made of, of its settings, and of sections.
-/

namespace SiteSection

/-- The name of a kind of section point. -/
def PointKind.name : PointKind → String
  | .building => "Building"
  | .wall => "Wall"
  | .terrain => "Topography"
  | .ground => "GroundEffect"
  | .source => "Source"
  | .receiver => "Receiver"

/-- All kinds of section points. -/
def PointKind.all : List PointKind := [.building, .wall, .terrain, .ground, .source, .receiver]

/-- The name of a policy. -/
def ConflictPolicy.name : ConflictPolicy → String
  | .groundAhead => "LastRegistered"
  | .alternate => "Parity"

/-- All policies. -/
def ConflictPolicy.all : List ConflictPolicy := [.groundAhead, .alternate]

namespace Form

variable {α : Type}

/-- A kind of section point, by its name. -/
def pointKind : Form α PointKind := oneOf PointKind.name PointKind.all

/-- A policy, by its name. -/
def conflictPolicy : Form α ConflictPolicy := oneOf ConflictPolicy.name ConflictPolicy.all

variable [Scalar α]

/-! ## Sections -/

/-- A section point. -/
def sectionPoint : Form α (SectionPoint α) :=
  (((Fields.required "coordinate" point3).and
    ((Fields.required "kind" pointKind).and
    ((Fields.optional "id" count).and
    ((Fields.required "ground_coef" scalar).and
    ((Fields.optional "wall_alpha" scalar.list).and
      (.required "on_wall_end" bool)))))).record .complete).map
    (fun c => ⟨c.1, c.2.1, c.2.2.1, c.2.2.2.1, c.2.2.2.2.1, c.2.2.2.2.2⟩)
    (fun p => (p.position, p.kind, p.owner, p.ground, p.absorption, p.atEnd))

/-- A profile. -/
def profile : Form α (Profile α) :=
  ((Fields.required "pts" sectionPoint.list).record .complete).map
    (fun c => ⟨c⟩) (fun p => p.points)

/-! ## Boundaries -/

/-- What a building side holds. -/
def side : Form α (Nat × List α) :=
  ((Fields.required "building" count).and (.required "alphas" scalar.list)).record .refused

/-- What a free-standing wall holds. -/
def freestanding : Form α (Nat × α × List α × Int) :=
  ((Fields.required "wall" count).and
    ((Fields.required "height" scalar).and
    ((Fields.required "alphas" scalar.list).and
      (.required "origin_id" signed)))).record .refused

/-- What the border of a ground region holds. -/
def regionBorder : Form α Nat := (Fields.required "region" count).record .refused

/-- What a terrain edge holds. -/
def terrainEdge : Form α Nat := (Fields.required "triangle" shortCount).record .refused

/-- What a boundary bounds, as one entry under the name of its role. -/
def role : Form α (Role α) where
  write
    | .side i a => .record [("Building", side.write (i, a))]
    | .freestanding i h a n => .record [("Free", freestanding.write (i, h, a, n))]
    | .region i => .record [("Ground", regionBorder.write i)]
    | .terrain i => .record [("Topography", terrainEdge.write i)]
  read?
    | .record [("Building", t)] => (side.read? t).map fun (i, a) => .side i a
    | .record [("Free", t)] => (freestanding.read? t).map fun (i, h, a, n) => .freestanding i h a n
    | .record [("Ground", t)] => (regionBorder.read? t).map .region
    | .record [("Topography", t)] => (terrainEdge.read? t).map .terrain
    | _ => none

/-- A boundary. -/
def boundary : Form α (Boundary α) :=
  (((Fields.required "p0" point3).and
    ((Fields.required "p1" point3).and
    ((Fields.required "p0_shared" bool).and
    ((Fields.required "p1_shared" bool).and
      (.required "kind" role))))).record .complete).map
    (fun c => ⟨c.1, c.2.1, c.2.2.1, c.2.2.2.1, c.2.2.2.2⟩)
    (fun b => (b.p0, b.p1, b.joined0, b.joined1, b.role))

/-! ## Buildings and regions -/

/-- A building. -/
def building : Form α (Building α) :=
  (((Fields.required "footprint" point3.list).and
    ((Fields.required "plan" polygon).and
    ((Fields.required "height" scalar).and
    ((Fields.required "alphas" scalar.list).and
    ((Fields.required "origin_id" signed).and
      (.required "ground_z" scalar)))))).record .complete).map
    (fun c => ⟨c.1, c.2.1, c.2.2.1, c.2.2.2.1, c.2.2.2.2.1, c.2.2.2.2.2⟩)
    (fun b => (b.footprint, b.plan, b.height, b.absorption, b.name, b.groundZ))

/-- A ground region. -/
def groundRegion : Form α (GroundRegion α) :=
  (((Fields.required "polygons" polygon.list).and
    (.required "coefficient" scalar)).record .complete).map
    (fun c => ⟨c.1, c.2⟩) (fun g => (g.polygons, g.coefficient))

/-! ## Settings -/

/-- Settings. A field that is absent has its default. -/
def settings : Form α (Settings α) :=
  let d : Settings α := .default
  (((Fields.withDefault "max_line_length" scalar d.pieceLength).and
    ((Fields.withDefault "ground_coefficient" scalar d.ground).and
    ((Fields.withDefault "wide_angle_epsilon" scalar d.cornerOffset).and
    ((Fields.withDefault "topography_tolerance" scalar d.terrainTolerance).and
    ((Fields.withDefault "triangle_intersection_epsilon" scalar d.crossingTolerance).and
    ((Fields.withDefault "default_topography_z" scalar d.defaultZ).and
    ((Fields.withDefault "absolute_building_z" bool d.absoluteRoofs).and
    ((Fields.withDefault "building_ground_coefficient" scalar.option d.buildingGround).and
      (.withDefault "duplicate_ground_policy" conflictPolicy d.policy))))))))).record
        .leading).map
    (fun (l, g, o, t, x, z, a, b, p) => ⟨l, g, o, t, x, z, a, b, p⟩)
    (fun s => (s.pieceLength, s.ground, s.cornerOffset, s.terrainTolerance,
      s.crossingTolerance, s.defaultZ, s.absoluteRoofs, s.buildingGround, s.policy))

end Form

end SiteSection
