import SiteSection.Segment

/-! # Section points

  What a section meets on its way: the source, terrain samples, sides of buildings, walls,
  borders of ground regions, and the receiver.
-/

namespace SiteSection

/-- What a section point marks. -/
inductive PointKind where
  | building
  | wall
  | terrain
  | ground
  | source
  | receiver
  deriving DecidableEq, Repr, Inhabited

/-- A place along a section, with what is met there. -/
structure SectionPoint (α : Type) where
  /-- Where it is. -/
  position : Point3 α
  /-- What it marks. -/
  kind : PointKind
  /-- The number of the building, wall or ground region met. -/
  owner : Option Nat
  /-- The ground coefficient in effect. -/
  ground : α
  /-- The absorption of the wall or building side met. -/
  absorption : Option (List α)
  /-- The place is exactly an end of the wall or building side met. -/
  atEnd : Bool
  deriving BEq, DecidableEq, Repr

namespace SectionPoint

variable {α : Type}

/-- A point of a kind, with a ground coefficient and nothing else. -/
def plain (position : Point3 α) (kind : PointKind) (ground : α) : SectionPoint α :=
  ⟨position, kind, none, ground, none, false⟩

@[simp] theorem plain_position (p : Point3 α) (k : PointKind) (g : α) :
    (plain p k g).position = p := rfl

@[simp] theorem plain_kind (p : Point3 α) (k : PointKind) (g : α) : (plain p k g).kind = k := rfl

@[simp] theorem plain_ground (p : Point3 α) (k : PointKind) (g : α) :
    (plain p k g).ground = g := rfl

@[simp] theorem plain_owner (p : Point3 α) (k : PointKind) (g : α) :
    (plain p k g).owner = none := rfl

/-- Does the point mark a building? -/
def isBuilding (c : SectionPoint α) : Bool := c.kind == .building

variable [Scalar α]

/-- The same kind at the same plan location. -/
def samePlace (a b : SectionPoint α) : Bool :=
  a.kind == b.kind && a.position.samePlan b.position

/-- The same kind at the same plan location with the same ground. -/
def sameEvent (a b : SectionPoint α) : Bool := a.samePlace b && a.ground == b.ground

/-- The same kind at the same plan location with different grounds; buildings never conflict. -/
def conflicts (a b : SectionPoint α) : Bool :=
  !a.isBuilding && a.samePlace b && a.ground != b.ground

end SectionPoint

end SiteSection
