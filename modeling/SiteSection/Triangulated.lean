import SiteSection.Event
import SiteSection.Mesh

/-! # Triangulated terrain

  What sealing asks of a triangulation: a mesh of given points and break-lines, or what is wrong
  with them, and how many break-lines were refused. Which faces there are is the business of the
  triangulation.
-/

namespace SiteSection

/-- What came of triangulating a terrain. -/
structure Triangulated (α : Type) where
  /-- How many break-lines were refused because they cross accepted ones. -/
  refused : Nat
  /-- The mesh, or what is wrong with the terrain. -/
  result : Except (TriangulationFault α) (Mesh α)

/-- What there is to report of a triangulation. -/
def Triangulated.events {α : Type} (t : Triangulated α) : List (Event α) :=
  List.replicate t.refused .breaklineSkipped ++
    match t.result with
    | .ok m => [.triangulated m.points.length m.faces.length]
    | .error _ => []

/-- A way to triangulate points and break-lines. -/
class Triangulates (α : Type) where
  /-- What comes of some points and break-lines. -/
  triangulate : List (Point3 α) → List (Point3 α × Point3 α) → Triangulated α

end SiteSection
