import SiteSection.Point

/-! # Boxes

  Axis-parallel boxes in plan (`Box2`) and in space (`Box3`), stored as a lower corner and a
  size. The upper corner is `origin + size` as computed, so on machine numbers it may differ
  from the greatest corner that the box was made from.
-/

namespace SiteSection

/-- An axis-parallel box. -/
structure Box (P : Type → Type) (α : Type) where
  /-- The lower corner. -/
  origin : P α
  /-- The extent along each axis. -/
  size : P α

/-- A box in plan. -/
abbrev Box2 (α : Type) := Box Point2 α

/-- A box in space. -/
abbrev Box3 (α : Type) := Box Point3 α

namespace Box

variable {P : Type → Type} [Coordinates P] {α : Type} [Scalar α]

/-! ## Making boxes -/

/-- The box at the origin with no extent. -/
def zero : Box P α := ⟨Coordinates.fill 0, Coordinates.fill 0⟩

/-- The box of a single point. -/
def ofPoint (p : P α) : Box P α := ⟨p, Coordinates.fill 0⟩

/-- The box between a lower and an upper corner. -/
def ofCorners (lower upper : P α) : Box P α := ⟨lower, Coordinates.sub upper lower⟩

/-- The smallest box around some points; `zero` around none. -/
def ofPoints : List (P α) → Box P α
  | [] => zero
  | p :: ps =>
    let corners := ps.foldl
      (fun c q => (Coordinates.least c.1 q, Coordinates.greatest c.2 q)) (p, p)
    ofCorners corners.1 corners.2

@[simp] theorem ofPoint_origin (p : P α) : (ofPoint p).origin = p := rfl

/-! ## Asking a box -/

/-- The upper corner. -/
def upper (b : Box P α) : P α := Coordinates.add b.origin b.size

/-- Do two boxes share a point, borders included? -/
def intersects (b c : Box P α) : Bool :=
  let below := fun (p q : P α) =>
    ((Coordinates.toList p).zip (Coordinates.toList q)).any fun e => decide (e.1 < e.2)
  !(below b.upper c.origin || below c.upper b.origin)

/-! ## Changing a box -/

/-- The box moved outwards by `amount` on every side. A negative amount shrinks it, to `zero`
    where nothing is left; an amount that is not finite leaves it as it is. -/
def expand (b : Box P α) (amount : α) : Box P α :=
  if Scalar.isFinite amount then
    let step : P α := Coordinates.fill amount
    let size := Coordinates.add b.size (Coordinates.scale step Scalar.two)
    if (Coordinates.toList size).any fun s => decide (s < 0) then zero
    else ⟨Coordinates.sub b.origin step, size⟩
  else b

/-- The box expanded by `amount` if some side of it is shorter than `limit`. -/
def thicken (b : Box P α) (limit amount : α) : Box P α :=
  if (Coordinates.toList b.size).any fun s => decide (s < limit) then b.expand amount else b

end Box

/-! ## Plan boxes -/

/-- The plan of a box of space. -/
def Box3.plan {α : Type} (b : Box3 α) : Box2 α := ⟨b.origin.plan, b.size.plan⟩

/-- Does a plan box hold a location, borders included? -/
def Box2.contains {α : Type} [Scalar α] (b : Box2 α) (p : Point2 α) : Bool :=
  if p.x < b.origin.x ∨ p.y < b.origin.y then false
  else decide (p.x ≤ b.upper.x) && decide (p.y ≤ b.upper.y)

end SiteSection
