import SiteSection.Triangulation.Breaklines
import SiteSection.Triangulation.Sweep
import SiteSection.Triangulation.Flips
import SiteSection.Triangulated

/-! # Triangulation of a terrain

  The constrained Delaunay triangulation of topographic points and break-lines: every vertex
  is used, the convex hull is covered, accepted break-lines are edges, and the circle of a
  face holds no vertex that the face can see.

  Faces are numbered by their corners and so do not depend on how they were found. Among
  vertices on one circle the choice of diagonals is not determined.
-/

namespace SiteSection

namespace Triangulation

variable {α β : Type} [Scalar α] [Exact α β]
  [Zero β] [Add β] [Sub β] [Mul β] [LT β] [DecidableLT β] [BEq β]

/-- The faces of the constrained Delaunay triangulation of an outline. -/
def facesOf (vertices : List (Point3 α)) (breaklines : List (Nat × Nat)) : List Face :=
  let plan := (vertices.map fun v => (exactPlan v : Point2 β)).toArray
  let parts := breaklines.flatMap (breaklineParts plan)
  let bound := 4 * Nat.pow (plan.size + 4) 2
  let forced := parts.foldl (fun w e => Wings.force plan e.1 e.2 bound w)
    (Wings.ofFaces (sweep plan))
  let fixed := fun (e : Nat × Nat) => parts.contains e || parts.contains (e.2, e.1)
  (Wings.legalise plan fixed bound (forced.inner.map fun e => (e.1, e.2.1)) forced).faces

end Triangulation

/-- Triangulates points and break-lines. Points that share a plan location become one vertex
    with the last elevation. -/
def triangulate {α β : Type} [Scalar α] [Exact α β]
    [Zero β] [Add β] [Sub β] [Mul β] [LT β] [DecidableLT β] [BEq β]
    (points : List (Point3 α)) (lines : List (Point3 α × Point3 α)) : Triangulated α :=
  match Triangulation.Outline.ofLists points lines with
  | (outline, some fault) => ⟨outline.refused, .error fault⟩
  | (outline, none) =>
    match Triangulation.facesOf outline.vertices outline.breaklines with
    | [] => ⟨outline.refused, .error (.noTriangle outline.vertices.length)⟩
    | faces => ⟨outline.refused, .ok (Mesh.ofFaces outline.vertices faces)⟩

instance {α β : Type} [Scalar α] [Exact α β]
    [Zero β] [Add β] [Sub β] [Mul β] [LT β] [DecidableLT β] [BEq β] : Triangulates α :=
  ⟨triangulate⟩

end SiteSection
