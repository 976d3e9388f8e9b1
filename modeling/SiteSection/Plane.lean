import SiteSection.Point

/-! # Planes

  A plane of space, `a x + b y + c z = d`, and the elevation it has over a plan location.
-/

namespace SiteSection

/-- The plane of the points whose scalar product with `normal` is `offset`. -/
structure Plane (α : Type) where
  /-- A vector perpendicular to the plane. -/
  normal : Point3 α
  /-- The scalar product of the normal with any point of the plane. -/
  offset : α
  deriving Repr

namespace Plane

variable {α : Type} [Scalar α]

/-- The plane through `p` perpendicular to `normal`. -/
def ofNormal (p normal : Point3 α) : Plane α :=
  ⟨normal, Coordinates.dot normal p⟩

/-- The plane through three points. -/
def through (p q r : Point3 α) : Plane α :=
  let back := Coordinates.scale p (-1)
  ofNormal p ((q + back).cross (r + back))

/-- A vertical plane has no elevation of its own. -/
def isVertical (s : Plane α) : Bool := s.normal.z == 0

/-- The elevation of the plane over a plan location; undefined for a vertical plane. -/
def elevation (s : Plane α) (p : Point2 α) : α :=
  if s.isVertical then Scalar.nan
  else (s.offset - s.normal.x * p.x - s.normal.y * p.y) / s.normal.z

end Plane

end SiteSection
