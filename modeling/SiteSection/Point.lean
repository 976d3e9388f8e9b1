import SiteSection.Scalar

/-! # Points

  Points of the plan (`Point2`) and of space (`Point3`), with the vector operations that the
  rest of the library measures by. What both dimensions share is stated once over
  `Coordinates`; a point of space reaches the plan through `Point3.plan`.
-/

namespace SiteSection

/-- A point of the plan. -/
structure Point2 (α : Type) where
  /-- Easting. -/
  x : α
  /-- Northing. -/
  y : α
  deriving BEq, DecidableEq, Repr, Inhabited

/-- A point of space. -/
structure Point3 (α : Type) where
  /-- Easting. -/
  x : α
  /-- Northing. -/
  y : α
  /-- Elevation. -/
  z : α
  deriving BEq, DecidableEq, Repr, Inhabited

/-! ## What both dimensions share -/

/-- A type of points: a fixed number of coordinates. -/
class Coordinates (P : Type → Type) where
  /-- All coordinates equal. -/
  fill {α : Type} : α → P α
  /-- A function applied to each coordinate. -/
  map {α β : Type} : (α → β) → P α → P β
  /-- A function applied to each pair of coordinates. -/
  zipWith {α β γ : Type} : (α → β → γ) → P α → P β → P γ
  /-- The coordinates in order. -/
  toList {α : Type} : P α → List α

instance : Coordinates Point2 where
  fill v := ⟨v, v⟩
  map f p := ⟨f p.x, f p.y⟩
  zipWith f p q := ⟨f p.x q.x, f p.y q.y⟩
  toList p := [p.x, p.y]

instance : Coordinates Point3 where
  fill v := ⟨v, v, v⟩
  map f p := ⟨f p.x, f p.y, f p.z⟩
  zipWith f p q := ⟨f p.x q.x, f p.y q.y, f p.z q.z⟩
  toList p := [p.x, p.y, p.z]

namespace Coordinates

variable {P : Type → Type} [Coordinates P] {α : Type} [Scalar α]

/-- Coordinatewise sum. -/
def add (a b : P α) : P α := zipWith (· + ·) a b

/-- Coordinatewise difference. -/
def sub (a b : P α) : P α := zipWith (· - ·) a b

/-- Every coordinate multiplied by `t`. -/
def scale (a : P α) (t : α) : P α := map (· * t) a

/-- The least coordinates of two points. -/
def least (a b : P α) : P α := zipWith Scalar.min a b

/-- The greatest coordinates of two points. -/
def greatest (a b : P α) : P α := zipWith Scalar.max a b

/-- The length of a vector. -/
def norm (a : P α) : α := Scalar.sqrt (Scalar.sum ((toList a).map fun c => c * c))

/-- The scalar product. -/
def dot (a b : P α) : α := Scalar.sum (toList (zipWith (· * ·) a b))

/-- The point at parameter `t` from `a` (at `0`) to `b` (at `1`). -/
def lerp (a b : P α) (t : α) : P α := add a (scale (sub b a) t)

/-- Is some coordinate undefined? -/
def hasNaN (a : P α) : Bool := (toList a).any Scalar.isNaN

/-- Lexicographic comparison, each coordinate in the total order of scalars. -/
def compare (a b : P α) : Ordering :=
  ((toList a).zip (toList b)).foldl (fun o c => o.then (Scalar.totalCmp c.1 c.2)) .eq

end Coordinates

section
variable {α : Type}

instance [Add α] : Add (Point2 α) := ⟨fun a b => ⟨a.x + b.x, a.y + b.y⟩⟩
instance [Sub α] : Sub (Point2 α) := ⟨fun a b => ⟨a.x - b.x, a.y - b.y⟩⟩
instance [Add α] : Add (Point3 α) := ⟨fun a b => ⟨a.x + b.x, a.y + b.y, a.z + b.z⟩⟩
instance [Sub α] : Sub (Point3 α) := ⟨fun a b => ⟨a.x - b.x, a.y - b.y, a.z - b.z⟩⟩

@[simp] theorem Point2.add_x [Add α] (a b : Point2 α) : (a + b).x = a.x + b.x := rfl
@[simp] theorem Point2.add_y [Add α] (a b : Point2 α) : (a + b).y = a.y + b.y := rfl
@[simp] theorem Point2.sub_x [Sub α] (a b : Point2 α) : (a - b).x = a.x - b.x := rfl
@[simp] theorem Point2.sub_y [Sub α] (a b : Point2 α) : (a - b).y = a.y - b.y := rfl

end

/-! ## Between plan and space -/

namespace Point3

variable {α : Type}

/-- The plan location under a point. -/
def plan (p : Point3 α) : Point2 α := ⟨p.x, p.y⟩

@[simp] theorem plan_x (p : Point3 α) : p.plan.x = p.x := rfl
@[simp] theorem plan_y (p : Point3 α) : p.plan.y = p.y := rfl

/-- The same plan location at another elevation. -/
def withZ (p : Point3 α) (z : α) : Point3 α := { p with z := z }

@[simp] theorem withZ_plan (p : Point3 α) (z : α) : (p.withZ z).plan = p.plan := rfl
@[simp] theorem withZ_z (p : Point3 α) (z : α) : (p.withZ z).z = z := rfl

variable [Scalar α]

/-- The vector product. -/
def cross (a b : Point3 α) : Point3 α :=
  ⟨a.y * b.z - a.z * b.y, a.z * b.x - a.x * b.z, a.x * b.y - a.y * b.x⟩

/-- Do two points share their plan location? -/
def samePlan (a b : Point3 α) : Bool := a.plan == b.plan

end Point3

namespace Point2

variable {α : Type}

/-- The point of space above a plan location. -/
def atZ (p : Point2 α) (z : α) : Point3 α := ⟨p.x, p.y, z⟩

@[simp] theorem atZ_plan (p : Point2 α) (z : α) : (p.atZ z).plan = p := rfl
@[simp] theorem atZ_z (p : Point2 α) (z : α) : (p.atZ z).z = z := rfl

variable [Scalar α]

/-- The elevation component of the vector product of two plan vectors, positive when `b`
    lies counter-clockwise of `a`. -/
def cross (a b : Point2 α) : α := a.x * b.y - a.y * b.x

/-- The distance between two plan locations. -/
def dist (a b : Point2 α) : α := Coordinates.norm (a - b)

end Point2

end SiteSection
