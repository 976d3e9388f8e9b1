import SiteSection.Building
import SiteSection.Angle

/-! # Diffraction corners

  Points just outside the corners of a footprint, for paths that bend around a building. The
  footprint is taken counter-clockwise; each corner has an open angle on the outside, from the
  side before it to the side after it.
-/

namespace SiteSection

namespace Building

variable {α : Type} [Circular α]

/-- The open angle at `corner`, from the direction of `before` to that of `after`, in
    `[0, 2π)`. -/
def openAngle (before corner after : Point2 α) : α :=
  let a := Point2.turn before corner after
  if 0 ≤ a then a else Scalar.two * Circular.pi + a

/-- The corners of a closed ring, each between its two neighbours. -/
def cornersOf (ring : List (Point3 α)) : List (Point2 α × Point2 α × Point2 α) :=
  let plan := ring.map Point3.plan
  let corners := plan.dropLast
  match corners.getLast? with
  | none => []
  | some last => (last :: corners).zip (corners.zip plan.tail)

/-- The point beside a corner: at distance `eps` along the bisector of its open angle. -/
def beside (eps z : α) (before corner after : Point2 α) : Point3 α :=
  let mid := Point2.angle corner before + openAngle before corner after / Scalar.two
  ⟨corner.x + Circular.cos mid * eps, corner.y + Circular.sin mid * eps, z⟩

/-- The points beside the corners whose open angle lies strictly between two bounds, `eps`
    above the roof. They run counter-clockwise and are closed by repeating the first. -/
def cornerPoints (b : Building α) (least greatest eps : α) : List (Point3 α) :=
  let ring :=
    if Ring.isCounterClockwise (b.footprint.map Point3.plan) then b.footprint
    else b.footprint.reverse
  let points := (cornersOf ring).filterMap fun (before, corner, after) =>
    let open' := openAngle before corner after
    if least < open' ∧ open' < greatest then
      some (beside eps (b.roofZ + eps) before corner after)
    else none
  points ++ points.head?.toList

end Building

end SiteSection
