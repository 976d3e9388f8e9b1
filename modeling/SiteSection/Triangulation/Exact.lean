import SiteSection.Double

/-! # Exact plan tests

  Which side of a line a location is on, and whether it is inside a circle, are decided in a
  number type without rounding. A scalar type says how its values are read as such numbers;
  a double is a dyadic fraction, and an ordered field may serve as its own exact type.
-/

namespace SiteSection

/-- Scalars that have exact values. -/
class Exact (α : Type) (β : outParam Type) where
  /-- The exact value of a finite scalar. -/
  exact : α → β

/-- The exact value of a finite double. -/
def Double.dyadic (x : Float) : Dyadic :=
  let p := Double.parts x
  Dyadic.ofIntWithPrec (if p.negative then -(p.m : Int) else p.m) (-p.q)

instance : Exact Float Dyadic := ⟨Double.dyadic⟩

/-! ## Tests on exact locations -/

namespace ExactPlan

variable {β : Type} [Zero β] [Add β] [Sub β] [Mul β] [LT β] [DecidableLT β] [BEq β]

/-- Twice the signed area of the triangle `a b c`: positive if `c` is left of the line from `a`
    to `b`, negative if it is right of it, zero if it is on it. -/
def area (a b c : Point2 β) : β :=
  (b.x - a.x) * (c.y - a.y) - (b.y - a.y) * (c.x - a.x)

/-- `c` is left of the line from `a` to `b`. -/
def leftOf (a b c : Point2 β) : Bool := decide (0 < area a b c)

/-- `c` is right of the line from `a` to `b`. -/
def rightOf (a b c : Point2 β) : Bool := decide (area a b c < 0)

/-- `c` is on the line through `a` and `b`. -/
def onLine (a b c : Point2 β) : Bool := area a b c == 0

/-- `c` and `d` are on different sides of the line through `a` and `b`. -/
def separates (a b c d : Point2 β) : Bool :=
  leftOf a b c && rightOf a b d || rightOf a b c && leftOf a b d

/-- The segments `a b` and `c d` cross at a point inside both. -/
def cross (a b c d : Point2 β) : Bool := separates a b c d && separates c d a b

/-- How far along the line from `a` to `b` a location is, in an unspecified unit. -/
def along (a b c : Point2 β) : β :=
  (c.x - a.x) * (b.x - a.x) + (c.y - a.y) * (b.y - a.y)

/-- `c` is on the segment from `a` to `b` but is neither of its ends. -/
def within (a b c : Point2 β) : Bool :=
  onLine a b c && decide (0 < along a b c) && decide (along a b c < along a b b)

/-- `d` is inside the circle through the counter-clockwise triangle `a b c`. -/
def inCircle (a b c d : Point2 β) : Bool :=
  let ax := a.x - d.x
  let ay := a.y - d.y
  let bx := b.x - d.x
  let by' := b.y - d.y
  let cx := c.x - d.x
  let cy := c.y - d.y
  let det :=
    (ax * ax + ay * ay) * (bx * cy - cx * by') -
    (bx * bx + by' * by') * (ax * cy - cx * ay) +
    (cx * cx + cy * cy) * (ax * by' - bx * ay)
  decide (0 < det)

/-- The order by easting, then northing. -/
def before (a b : Point2 β) : Bool :=
  decide (a.x < b.x) || (a.x == b.x && decide (a.y < b.y))

end ExactPlan

end SiteSection
