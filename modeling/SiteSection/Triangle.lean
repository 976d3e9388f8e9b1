import SiteSection.Plane
import SiteSection.Box

/-! # Triangles

  Triangles of space and the barycentric coordinates of a plan location in them.
-/

namespace SiteSection

/-- The weights of the three corners of a triangle at a plan location; they add up to one. -/
structure Barycentric (α : Type) where
  /-- The weight of the third corner. -/
  u : α
  /-- The weight of the second corner. -/
  v : α
  /-- The weight of the first corner. -/
  w : α
  deriving Repr

namespace Barycentric

variable {α : Type} [Scalar α]

/-- The weights of `c`, `b` and `a` at `p`; none if the triangle has no plan area. -/
def of? (a b c p : Point2 α) : Option (Barycentric α) :=
  let v0 := c - a
  let v1 := b - a
  let v2 := p - a
  let dot := fun (p q : Point2 α) => p.x * q.x + p.y * q.y
  let dot00 := dot v0 v0
  let dot01 := dot v0 v1
  let dot02 := dot v0 v2
  let dot11 := dot v1 v1
  let dot12 := dot v1 v2
  let denom := dot00 * dot11 - dot01 * dot01
  if denom == 0 then none
  else
    let inv := 1 / denom
    let u := (dot11 * dot02 - dot01 * dot12) * inv
    let v := (dot00 * dot12 - dot01 * dot02) * inv
    some ⟨u, v, 1 - u - v⟩

/-- The location is inside or on the border. -/
def inside (g : Barycentric α) : Bool :=
  decide (0 ≤ g.u) && decide (0 ≤ g.v) && decide (0 ≤ g.w)

/-- How far outside the location is: the magnitude of the negative weights, zero inside. -/
def excess (g : Barycentric α) : α :=
  Scalar.sum (([g.u, g.v, g.w].filter fun x => decide (x < 0)).map fun x => -x)

end Barycentric

/-- A triangle of space. -/
structure Triangle (α : Type) where
  /-- The first corner. -/
  a : Point3 α
  /-- The second corner. -/
  b : Point3 α
  /-- The third corner. -/
  c : Point3 α
  deriving BEq, DecidableEq, Repr

namespace Triangle

variable {α : Type}

/-- The corners in order. -/
def corners (t : Triangle α) : List (Point3 α) := [t.a, t.b, t.c]

/-- The sides, from each corner to the next. -/
def sides (t : Triangle α) : List (Point3 α × Point3 α) :=
  [(t.a, t.b), (t.b, t.c), (t.c, t.a)]

variable [Scalar α]

/-- The barycentric coordinates of a plan location. -/
def barycentric? (t : Triangle α) (p : Point2 α) : Option (Barycentric α) :=
  Barycentric.of? t.a.plan t.b.plan t.c.plan p

/-- The box around the triangle. -/
def box (t : Triangle α) : Box3 α := Box.ofPoints t.corners

/-- The plane of the triangle. -/
def plane (t : Triangle α) : Plane α := Plane.through t.a t.b t.c

end Triangle

end SiteSection
