import SiteSection.Section.Point

/-! # Boundaries

  Oriented segments that bound something: a building, a free-standing wall, a ground region,
  or a triangle of the terrain.
-/

namespace SiteSection

/-- What a boundary bounds. -/
inductive Role (α : Type) where
  /-- A side of a building, with its absorption. -/
  | side (building : Nat) (absorption : List α)
  /-- A segment of a free-standing wall, with its height, absorption and outside name. -/
  | freestanding (wall : Nat) (height : α) (absorption : List α) (name : Int)
  /-- A segment of the border of a ground region. -/
  | region (region : Nat)
  /-- An edge of a terrain triangle. -/
  | terrain (triangle : Nat)
  deriving BEq, DecidableEq, Repr, Inhabited

/-- An oriented segment and what it bounds. -/
structure Boundary (α : Type) where
  /-- The first end. -/
  p0 : Point3 α
  /-- The second end. -/
  p1 : Point3 α
  /-- The first end continues the segment before it. -/
  joined0 : Bool
  /-- The second end is continued by the segment after it. -/
  joined1 : Bool
  /-- What is bounded. -/
  role : Role α
  deriving BEq, DecidableEq, Repr, Inhabited

namespace Boundary

variable {α : Type}

/-- The segment. -/
def segment (b : Boundary α) : Segment α := ⟨b.p0, b.p1⟩

/-- The kind of section point where a section meets the boundary. -/
def kind (b : Boundary α) : PointKind :=
  match b.role with
  | .side .. => .building
  | .freestanding .. => .wall
  | .region .. => .ground
  | .terrain .. => .terrain

/-- The number of the building, wall, region or triangle. -/
def owner (b : Boundary α) : Nat :=
  match b.role with
  | .side i _ => i
  | .freestanding i _ _ _ => i
  | .region i => i
  | .terrain i => i

/-- The absorption of a building side or wall. -/
def absorption? (b : Boundary α) : Option (List α) :=
  match b.role with
  | .side _ a => some a
  | .freestanding _ _ a _ => some a
  | _ => none

/-- The height of a free-standing wall. -/
def height? (b : Boundary α) : Option α :=
  match b.role with
  | .freestanding _ h _ _ => some h
  | _ => none

/-- The outside name of a free-standing wall. -/
def name? (b : Boundary α) : Option Int :=
  match b.role with
  | .freestanding _ _ _ n => some n
  | _ => none

variable [Scalar α]

/-- The plan box. -/
def box (b : Boundary α) : Box2 α := b.segment.box

/-- Is a plan location exactly one of the two ends? -/
def hasEnd (b : Boundary α) (p : Point2 α) : Bool := p == b.p0.plan || p == b.p1.plan

end Boundary

end SiteSection
