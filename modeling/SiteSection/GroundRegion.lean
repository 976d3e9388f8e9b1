import SiteSection.Boundary
import SiteSection.Polygon

/-! # Ground regions

  Polygons that share a ground coefficient.
-/

namespace SiteSection

/-- One or more polygons of one ground coefficient. -/
structure GroundRegion (α : Type) where
  /-- The polygons. -/
  polygons : List (Polygon α)
  /-- Their ground coefficient. -/
  coefficient : α
  deriving BEq, DecidableEq, Repr, Inhabited

namespace GroundRegion

variable {α : Type} [Scalar α]

/-- The region of some polygons. -/
def ofPolygons? (polygons : List (Polygon α)) (coefficient : α) :
    Except (GeometryFault α) (GroundRegion α) :=
  if polygons.isEmpty then .error .noPolygon
  else if Scalar.isFinite coefficient then .ok ⟨polygons, coefficient⟩
  else .error (.coefficientNotFinite coefficient)

/-- The border of the region, for region number `i`. It has no elevation of its own. -/
def border (g : GroundRegion α) (i : Nat) : List (Boundary α) :=
  g.polygons.flatMap fun p => p.edges.map fun e =>
    ⟨e.1.atZ Scalar.nan, e.2.atZ Scalar.nan, true, true, .region i⟩

/-- Does some polygon of the region cover a location? -/
def covers (g : GroundRegion α) (p : Point2 α) : Bool := g.polygons.any (·.covers p)

end GroundRegion

end SiteSection
