import SiteSection.Decimal

/-! # Faults

  Why geometry is refused, and why a terrain cannot be triangulated. A fault is a cause; its
  wording is in `message` alone.
-/

namespace SiteSection

/-- Why geometry is refused. -/
inductive GeometryFault (α : Type) where
  /-- Fewer than three distinct corners are left of a ring. -/
  | tooFewCorners
  /-- A corner of a ring is undefined. -/
  | undefinedCorner
  /-- The height of a building is negative. -/
  | negativeHeight (height : α)
  /-- A ground region without a polygon. -/
  | noPolygon
  /-- The coefficient of a ground region is undefined or infinite. -/
  | coefficientNotFinite (coefficient : α)
  /-- A wall of fewer than two points. -/
  | wallTooShort
  /-- A plan location of a wall is undefined. -/
  | undefinedWallPoint
  /-- The height of a wall is negative or undefined. -/
  | badWallHeight
  /-- The plan location of a topographic point is undefined or infinite. -/
  | pointNotFinite (x y : α)
  deriving DecidableEq, Repr

/-- What is wrong with a coordinate that cannot be triangulated. -/
inductive CoordinateFault where
  /-- It is undefined. -/
  | undefined
  /-- It is not zero, but too near to it. -/
  | tooSmall
  /-- It is too large. -/
  | tooLarge
  deriving DecidableEq, Repr

/-- Why a terrain cannot be triangulated. -/
inductive TriangulationFault (α : Type) where
  /-- A coordinate of the vertex at `(x, y)` is out of range. -/
  | badCoordinate (fault : CoordinateFault) (x y : α)
  /-- The distinct vertices all lie on one line. -/
  | noTriangle (vertices : Nat)
  deriving DecidableEq, Repr

section
variable {α : Type} [Written α]

/-- The cause in words. -/
def GeometryFault.cause : GeometryFault α → String
  | .tooFewCorners => "polygon requires 3 or more distinct points to be valid"
  | .undefinedCorner => "polygon has NaN coordinates"
  | .negativeHeight h => "building height " ++ written h ++ " is negative"
  | .noPolygon => "ground region has no polygon"
  | .coefficientNotFinite c => "ground coefficient " ++ written c ++ " is not finite"
  | .wallTooShort => "a wall requires 2 or more points"
  | .undefinedWallPoint => "wall has NaN coordinates"
  | .badWallHeight => "wall height must be a non-negative number"
  | .pointNotFinite x y =>
    "topographic point (" ++ written x ++ ", " ++ written y ++ ") is not finite"

/-- The message of a geometry fault. -/
def GeometryFault.message (f : GeometryFault α) : String :=
  "invalid geometry: " ++ f.cause

/-- The name of a coordinate fault. -/
def CoordinateFault.name : CoordinateFault → String
  | .undefined => "NAN"
  | .tooSmall => "TooSmall"
  | .tooLarge => "TooLarge"

/-- The message of a triangulation fault. -/
def TriangulationFault.message : TriangulationFault α → String
  | .badCoordinate f x y =>
    "triangulation failed: " ++ f.name ++ " at (" ++ written x ++ ", " ++ written y ++ ")"
  | .noTriangle n =>
    "triangulation failed: " ++ toString n ++ " vertices do not form a triangle"

end

end SiteSection
