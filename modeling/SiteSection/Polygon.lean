import SiteSection.Ring
import SiteSection.Fault

/-! # Polygons

  A plan polygon is a ring whose closing corner is left out. `Polygon.ofRing?` tidies a ring
  that may repeat corners or close itself, and refuses what has fewer than three corners left.
-/

namespace SiteSection

/-- A plan polygon, by its open ring of corners. -/
structure Polygon (α : Type) where
  /-- The corners in order; the first is not repeated. -/
  ring : List (Point2 α)
  deriving BEq, DecidableEq, Repr, Inhabited

namespace Polygon

variable {α : Type} [Scalar α]

/-- The ring without a last corner that closes it. -/
def openRing (ring : List (Point2 α)) : List (Point2 α) :=
  if 1 < ring.length && ring.head? == ring.getLast? then ring.dropLast else ring

/-- The polygon of a ring: repeated corners and a closing corner are dropped. -/
def ofRing? (ring : List (Point2 α)) : Except (GeometryFault α) (Polygon α) :=
  let ring := openRing (dropRepeats (· == ·) ring)
  if ring.length < 3 then .error .tooFewCorners
  else if ring.any Coordinates.hasNaN then .error .undefinedCorner
  else .ok ⟨ring⟩

/-- The axis-parallel rectangle between two corners. -/
def rectangle? (lower upper : Point2 α) : Except (GeometryFault α) (Polygon α) :=
  ofRing? [⟨lower.x, lower.y⟩, ⟨upper.x, lower.y⟩, ⟨upper.x, upper.y⟩, ⟨lower.x, upper.y⟩]

/-- The edges, the closing one included. -/
def edges (g : Polygon α) : List (Point2 α × Point2 α) := ringEdges g.ring

/-- The box around the polygon. -/
def box (g : Polygon α) : Box2 α := Box.ofPoints g.ring

/-- Is a location inside, by the winding number? -/
def inside (g : Polygon α) (p : Point2 α) : Bool := Ring.inside g.ring p

/-- Is a location inside or on the boundary? -/
def covers (g : Polygon α) (p : Point2 α) : Bool :=
  g.inside p || Ring.onBoundary g.ring p

end Polygon

end SiteSection
