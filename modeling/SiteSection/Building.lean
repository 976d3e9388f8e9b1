import SiteSection.Boundary
import SiteSection.Polygon

/-! # Buildings

  A building stands on a footprint and rises to a flat roof. Until it is put on the ground,
  its footprint carries the elevations that it was given with and its ground is undefined;
  an undefined height then means that the footprint itself says where the roof is.
-/

namespace SiteSection

/-- A building. -/
structure Building (α : Type) where
  /-- The ring of corners, closed by repeating the first; once placed, at roof elevation. -/
  footprint : List (Point3 α)
  /-- The plan of the footprint. -/
  plan : Polygon α
  /-- The height above the ground. -/
  height : α
  /-- The absorption of the sides. -/
  absorption : List α
  /-- The outside name. -/
  name : Int
  /-- The elevation of the ground under the building. -/
  groundZ : α
  deriving BEq, DecidableEq, Repr, Inhabited

namespace Building

variable {α : Type} [Scalar α]

/-! ## Making a building -/

/-- The ring closed by its first corner, unless it is closed in plan already. -/
def closeRing (ring : List (Point3 α)) : List (Point3 α) :=
  match ring.head?, ring.getLast? with
  | some a, some b => if a.samePlan b then ring else ring ++ [a]
  | _, _ => ring

/-- The building of a footprint, open or closed. Corners at the location of the corner before
    them are dropped. -/
def ofFootprint? (footprint : List (Point3 α)) (height : α) (absorption : List α) (name : Int) :
    Except (GeometryFault α) (Building α) :=
  let ring := dropRepeats Point3.samePlan footprint
  match Polygon.ofRing? (ring.map Point3.plan) with
  | .error e => .error e
  | .ok plan =>
    if height < 0 then .error (.negativeHeight height)
    else .ok ⟨closeRing ring, plan, height, absorption, name, Scalar.nan⟩

/-! ## Asking a building -/

/-- The elevation of the roof. -/
def roofZ (b : Building α) : α := (b.footprint.head?.map Point3.z).getD Scalar.nan

/-- The plan box. -/
def box (b : Building α) : Box2 α := b.plan.box

/-- The sides, for building number `i`. -/
def sides (b : Building α) (i : Nat) : List (Boundary α) :=
  (pathEdges b.footprint).map fun e => ⟨e.1, e.2, true, true, .side i b.absorption⟩

/-! ## Putting it on the ground -/

/-- Does the footprint say where the roof is? An elevation of zero says nothing. -/
def saysRoof (b : Building α) : Bool := Scalar.isFinite b.roofZ && b.roofZ != 0

/-- The building over ground of a given elevation. The footprint is the roof where it says so
    and either `absolute` is set or there is no height; otherwise the roof is the height above
    the ground. The height then follows from the roof, but is never negative. -/
def place (b : Building α) (ground : α) (absolute : Bool) : Building α :=
  let noHeight := Scalar.isNaN b.height
  let roof :=
    if b.saysRoof && (absolute || noHeight) then b.roofZ
    else if noHeight then ground
    else b.height + ground
  { b with
    footprint := b.footprint.map (·.withZ roof)
    height := if noHeight || absolute && b.saysRoof then Scalar.floorZero (roof - ground)
      else b.height
    groundZ := ground }

end Building

end SiteSection
