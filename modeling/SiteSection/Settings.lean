import SiteSection.Scalar

/-! # Settings

  What a site is sealed and sectioned with.
-/

namespace SiteSection

/-- Which of two neighbouring section points at one place, of one kind but over different
    ground, is kept. -/
inductive ConflictPolicy where
  /-- The one over the ground that is in effect just past the place. -/
  | groundAhead
  /-- The two in turn, beginning with the one over hard ground. -/
  | alternate
  deriving DecidableEq, Repr, Inhabited

/-- The settings of a site. -/
structure Settings (α : Type) where
  /-- A section is looked up in pieces no longer than this. -/
  pieceLength : α
  /-- The ground coefficient where no region applies. -/
  ground : α
  /-- How far diffraction corners stand off the building and above its roof. -/
  cornerOffset : α
  /-- Terrain samples nearer than this to the line through their neighbours are dropped. -/
  terrainTolerance : α
  /-- How far a terrain edge may be from a line that crosses it. -/
  crossingTolerance : α
  /-- The elevation of topographic points that are given without one. -/
  defaultZ : α
  /-- A footprint that says where its roof is, overrides the height of the building. -/
  absoluteRoofs : Bool
  /-- Buildings are also ground regions, with this coefficient. -/
  buildingGround : Option α
  /-- How conflicting section points are settled. -/
  policy : ConflictPolicy
  deriving BEq, DecidableEq, Repr

namespace Settings

variable {α : Type} [Scalar α]

/-- The settings that apply where nothing else is said. -/
def default : Settings α where
  pieceLength := Scalar.ofNat 60
  ground := 0
  cornerOffset := Scalar.negPowTen 2
  terrainTolerance := Scalar.negPowTen 3
  crossingTolerance := Scalar.negPowTen 5
  defaultZ := 0
  absoluteRoofs := false
  buildingGround := none
  policy := .groundAhead

end Settings

end SiteSection
