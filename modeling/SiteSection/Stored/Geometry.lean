import SiteSection.Stored.Fields
import SiteSection.Mesh
import SiteSection.Polygon

/-! # Stored geometry

  The stored forms of points, boxes, segments, polygons and meshes. Reading checks the shape
  of the data and nothing of its geometry.
-/

namespace SiteSection

namespace Form

variable {α : Type} [Scalar α]

/-! ## Points -/

/-- A plan point, as its two coordinates. -/
def point2 : Form α (Point2 α) :=
  scalar.pair.map (fun c => ⟨c.1, c.2⟩) (fun p => (p.x, p.y))

/-- A point of space, as its three coordinates. -/
def point3 : Form α (Point3 α) :=
  scalar.triple.map (fun c => ⟨c.1, c.2.1, c.2.2⟩) (fun p => (p.x, p.y, p.z))

/-! ## Boxes and segments -/

/-- A box, by the form of its corners. -/
def box {P : Type → Type} (corner : Form α (P α)) : Form α (Box P α) :=
  (((Fields.required "origin" corner).and (.required "size" corner)).record .complete).map
    (fun c => ⟨c.1, c.2⟩) (fun b => (b.origin, b.size))

/-- A plan box. -/
def box2 : Form α (Box2 α) := box point2

/-- A box of space. -/
def box3 : Form α (Box3 α) := box point3

/-- A segment. -/
def segment : Form α (Segment α) :=
  (((Fields.required "p0" point3).and (.required "p1" point3)).record .complete).map
    (fun c => ⟨c.1, c.2⟩) (fun s => (s.p0, s.p1))

/-! ## Polygons and meshes -/

/-- A polygon, as the list of its corners. -/
def polygon : Form α (Polygon α) := point2.list.map (fun r => ⟨r⟩) (fun p => p.ring)

/-- A face, as its three corners. -/
def face : Form α Face :=
  shortCount.triple.map (fun c => ⟨c.1, c.2.1, c.2.2⟩) (fun f => (f.a, f.b, f.c))

/-- Links, as the three neighbours. -/
def links : Form α Links :=
  shortCount.option.triple.map (fun c => ⟨c.1, c.2.1, c.2.2⟩) (fun l => (l.ab, l.bc, l.ca))

/-- A mesh. Its links are stored, not worked out again. -/
def mesh : Form α (Mesh α) :=
  (((Fields.required "points" point3.list).and
    ((Fields.required "triangles" face.list).and
      (.required "neighbours" links.list))).record .complete).map
    (fun c => ⟨c.1, c.2.1, c.2.2⟩) (fun m => (m.points, m.faces, m.links))

end Form

end SiteSection
