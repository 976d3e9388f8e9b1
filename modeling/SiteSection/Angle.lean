import SiteSection.Point

/-! # Angles

  Directions between plan locations, in radians counter-clockwise from the easting axis.
  The circular functions are a class of their own (`Circular`): only the corners of building
  footprints need them, the rest of the geometry is algebraic.
-/

namespace SiteSection

/-- A scalar with circular functions. -/
class Circular (α : Type) extends Scalar α where
  /-- The half turn. -/
  pi : α
  /-- Sine. -/
  sin : α → α
  /-- Cosine. -/
  cos : α → α
  /-- `atan2 y x` is the direction of the vector `(x, y)`, in `(-π, π]`. -/
  atan2 : α → α → α

namespace Point2

variable {α : Type} [Circular α]

/-- The direction from one plan location to another, in `(-π, π]`. -/
def angle (a b : Point2 α) : α :=
  let d := b - a
  Circular.atan2 d.y d.x

/-- The turn at `tail` from the direction of `tip` to the direction of `tip'`, brought into
    `(-π, π]` by a full turn where needed; positive counter-clockwise. -/
def turn (tip tail tip' : Point2 α) : α :=
  let d := angle tail tip' - angle tail tip
  let full : α := Scalar.two * Circular.pi
  if d ≤ -Circular.pi then d + full
  else if Circular.pi < d then d - full
  else d

end Point2

end SiteSection
