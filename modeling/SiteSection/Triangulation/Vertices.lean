import SiteSection.Triangulation.Exact
import SiteSection.Fault

/-! # Vertices of a triangulation

  Points are entered one by one. A plan location that has been entered before keeps its
  number and takes over the new point, elevation included; any other location is a new vertex
  and gets the next number. Coordinates out of range are refused, the easting first.
-/

namespace SiteSection

namespace Triangulation

variable {α : Type} [Scalar α]

/-! ## Range of coordinates -/

/-- What is wrong with a coordinate: it must be defined, zero or at least `2 ^ (-142)` in
    magnitude, and at most `2 ^ 201`. -/
def coordinateFault? (c : α) : Option CoordinateFault :=
  let size := if c < 0 then -c else c
  if Scalar.isNaN c then some .undefined
  else if size < 1 / Scalar.ofNat (Nat.pow 2 142) ∧ (c != 0) = true then some .tooSmall
  else if Scalar.ofNat (Nat.pow 2 201) < size then some .tooLarge
  else none

/-- What is wrong with a plan location. -/
def locationFault? (p : Point2 α) : Option CoordinateFault :=
  (coordinateFault? p.x).or (coordinateFault? p.y)

/-! ## Entering points -/

/-- The number of a plan location among the vertices. -/
def numberOf? (vertices : List (Point3 α)) (p : Point3 α) : Option Nat :=
  vertices.findIdx? fun v => v.samePlan p

/-- The vertices after a point is entered, and its number. -/
def enter (vertices : List (Point3 α)) (p : Point3 α) : List (Point3 α) × Nat :=
  match numberOf? vertices p with
  | some i => (vertices.set i p, i)
  | none => (vertices ++ [p], vertices.length)

/-- Enters a point whose coordinates are in range. -/
def enter? (vertices : List (Point3 α)) (p : Point3 α) :
    Except (TriangulationFault α) (List (Point3 α) × Nat) :=
  match locationFault? p.plan with
  | some fault => .error (.badCoordinate fault p.x p.y)
  | none => .ok (enter vertices p)

/-- The vertices after a list of points is entered, without regard to the range. -/
def enterAll (vertices : List (Point3 α)) (ps : List (Point3 α)) : List (Point3 α) :=
  ps.foldl (fun vs p => (enter vs p).1) vertices

@[simp] theorem enterAll_nil (vertices : List (Point3 α)) : enterAll vertices [] = vertices := rfl

@[simp] theorem enterAll_cons (vertices : List (Point3 α)) (p : Point3 α) (ps : List (Point3 α)) :
    enterAll vertices (p :: ps) = enterAll (enter vertices p).1 ps := rfl

end Triangulation

end SiteSection
