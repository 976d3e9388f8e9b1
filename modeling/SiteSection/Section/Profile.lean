import SiteSection.Section.Point

/-! # Sections

  The points of a section in order, the source first and the receiver last, and what can be
  asked of them.
-/

namespace SiteSection

/-- The points met between a source and a receiver, in order. -/
structure Profile (α : Type) where
  /-- The points. -/
  points : List (SectionPoint α)
  deriving BEq, DecidableEq, Repr, Inhabited

namespace Profile

variable {α : Type}

/-- The number of points. -/
def length (s : Profile α) : Nat := s.points.length

/-- Are there no points? -/
def isEmpty (s : Profile α) : Bool := s.points.isEmpty

/-- The first point, if it marks the source. -/
def source? (s : Profile α) : Option (SectionPoint α) :=
  s.points.head?.filter (·.kind == .source)

/-- The last point, if it marks the receiver. -/
def receiver? (s : Profile α) : Option (SectionPoint α) :=
  s.points.getLast?.filter (·.kind == .receiver)

/-- No building and no wall stands on the way. -/
def isFreeField (s : Profile α) : Bool :=
  s.points.all fun c => c.kind != .building && c.kind != .wall

/-- The points of one kind. -/
def ofKind (s : Profile α) (k : PointKind) : List (SectionPoint α) :=
  s.points.filter (·.kind == k)

/-- The plan distance from source to receiver, zero if either is missing. -/
def distance [Scalar α] (s : Profile α) : α :=
  match s.source?, s.receiver? with
  | some a, some b => a.position.plan.dist b.position.plan
  | _, _ => 0

/-- The profile with a function applied to its first point, if that marks the source, and one
    to its last, if that marks the receiver. -/
def mapEnds (s : Profile α) (f g : SectionPoint α → SectionPoint α) : Profile α :=
  let points : List (SectionPoint α) := match s.points with
    | a :: rest => if a.kind = .source then f a :: rest else a :: rest
    | [] => []
  match points.getLast? with
  | some b => if b.kind = .receiver then ⟨points.dropLast ++ [g b]⟩ else ⟨points⟩
  | none => ⟨points⟩

end Profile

end SiteSection
