import SiteSection.Terrain

/-! # Walking the terrain

  Elevation samples along a plan line, taken triangle by triangle. The walk starts where the
  line does, or where it first meets the mesh, and leaves each triangle by the side that the
  line comes nearest to its end on, never back into a triangle that it has been in. It ends in
  the triangle that holds the end of the line, or where the line leaves the mesh.
-/

namespace SiteSection

namespace Terrain

variable {α : Type} [Scalar α]

/-! ## Entering -/

/-- The points where a line meets the sides of triangle `t`, with their place along the line;
    elevations are those of the sides. -/
def sideCrossings (s : Terrain α) (line : Segment α) (t : Nat) : List (α × Nat × Point3 α) :=
  match s.triangles[t]? with
  | none => []
  | some tri => tri.sides.filterMap fun (p, q) =>
    let side : Segment α := ⟨p, q⟩
    (line.intersect? side).map fun x =>
      (line.project x.plan, t, x.withZ (side.elevation x.plan))

/-- Where a line first meets the mesh, and the triangle that it meets there. -/
def entry? (s : Terrain α) (line : Segment α) : Option (Nat × Point3 α) :=
  let hits := (s.index.query (line.box.thicken 1 1)).flatMap (s.sideCrossings line)
  (leastBy? (fun a b => (Scalar.totalCmp a.1 b.1).then (compare a.2.1 b.2.1)) hits).map (·.2)

/-- The first sample and its triangle: the start of the line if the mesh holds it, else the
    entry. -/
def start? (s : Terrain α) (line : Segment α) : Option (Nat × Point3 α) :=
  match s.locate? line.p0.plan with
  | some t => some (t, line.p0.withZ (s.planeZ t line.p0.plan))
  | none => s.entry? line

/-! ## Stepping -/

/-- A way out of a triangle. -/
structure Exit (α : Type) where
  /-- How far the crossing is from the end of the line. -/
  remaining : α
  /-- The crossing. -/
  crossing : Point3 α
  /-- The triangle on the other side, `none` off the mesh. -/
  next : Option Nat

/-- The ways out of triangle `t`: the sides within `eps` of the line that do not lead into a
    visited triangle. -/
def exits (s : Terrain α) (line : Segment α) (visited : List Nat) (eps : α) (t : Nat) :
    List (Exit α) :=
  match s.triangles[t]? with
  | none => []
  | some tri => (tri.sides.zip (s.mesh.linksAt t).toList).filterMap fun ((p, q), next) =>
    if next.any visited.contains then none
    else
      let side : Segment α := ⟨p, q⟩
      let (x, y) := line.closestPoints side
      if eps ≤ x.plan.dist y.plan then none
      else some ⟨x.plan.dist line.p1.plan, x.withZ (side.elevation x.plan), next⟩

/-- The way out that comes nearest to the end of the line; the first of several. -/
def exit? (s : Terrain α) (line : Segment α) (visited : List Nat) (eps : α) (t : Nat) :
    Option (Exit α) :=
  match s.exits line visited eps t with
  | [] => none
  | e :: es => some (es.foldl (fun best x => if x.remaining < best.remaining then x else best) e)

/-- A sample, unless it is where the last one was. -/
def distinctFrom (last x : Point3 α) : List (Point3 α) := if last.samePlan x then [] else [x]

/-- The samples after `last`, from triangle `t` on. The first argument bounds the number of
    triangles entered. -/
def samplesFrom (s : Terrain α) (line : Segment α) (eps : α) :
    Nat → List Nat → Nat → Point3 α → List (Point3 α)
  | 0, _, _, _ => []
  | bound + 1, visited, t, last =>
    if s.holds t line.p1.plan then
      distinctFrom last (line.p1.withZ (s.planeZ t line.p1.plan))
    else
      match s.exit? line (t :: visited) eps t with
      | none => []
      | some e =>
        let new := distinctFrom last e.crossing
        match e.next with
        | none => new
        | some n => new ++ s.samplesFrom line eps bound (t :: visited) n (new.getLast?.getD last)

/-- Elevation samples from `a` towards `b`. No triangle is entered twice, so one more step than
    there are triangles is enough. -/
def walk (s : Terrain α) (a b : Point2 α) (eps : α) : List (Point3 α) :=
  let line := Segment.flat a b
  match s.start? line with
  | none => []
  | some (t, first) =>
    first :: s.samplesFrom line eps (s.triangles.length + 1) [] t first

end Terrain

end SiteSection
