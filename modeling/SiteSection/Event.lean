import SiteSection.Fault
import SiteSection.Point

/-! # Events

  What is worth reporting while a site is drafted, sealed and sectioned. Operations return
  their events beside their results; the wording is in `Event.text` alone.
-/

namespace SiteSection

/-- How much an event matters. -/
inductive Level where
  | error
  | warn
  | debug
  deriving DecidableEq, Repr

/-- Something worth reporting. -/
inductive Event (α : Type) where
  /-- A building was refused. -/
  | buildingRejected (name : Int) (fault : GeometryFault α)
  /-- A wall was refused. -/
  | wallRejected (name : Int) (fault : GeometryFault α)
  /-- A ground region was refused. -/
  | regionRejected (fault : GeometryFault α)
  /-- The rectangle of a ground region was refused. -/
  | rectangleRejected (fault : GeometryFault α)
  /-- A topographic point was refused. -/
  | pointRejected (x y : α)
  /-- A break-line was refused. -/
  | breaklineSkipped
  /-- A terrain was triangulated. -/
  | triangulated (vertices faces : Nat)
  /-- There is too little for a terrain. -/
  | noTerrain
  /-- The terrain is left out. -/
  | terrainDropped (fault : TriangulationFault α)
  /-- A site could not be sealed. -/
  | sealingFailed (fault : TriangulationFault α)
  /-- A site was sealed. -/
  | siteSealed (buildings walls regions boundaries faces : Nat)
  /-- A section was cut. -/
  | sectionCut (source receiver : Point3 α) (points : Nat)
  deriving DecidableEq, Repr

namespace Event

variable {α : Type}

/-- How much the event matters. -/
def level : Event α → Level
  | buildingRejected .. | wallRejected .. | regionRejected .. | rectangleRejected ..
  | pointRejected .. | sealingFailed .. => .error
  | breaklineSkipped | terrainDropped .. => .warn
  | triangulated .. | noTerrain | siteSealed .. | sectionCut .. => .debug

variable [Written α]

/-- A plan location in words. -/
def location (x y : α) : String := "(" ++ written x ++ ", " ++ written y ++ ")"

/-- The event in words. -/
def text : Event α → String
  | buildingRejected name f => "building " ++ toString name ++ " rejected: " ++ f.message
  | wallRejected name f => "wall " ++ toString name ++ " rejected: " ++ f.cause
  | regionRejected f => "ground region rejected: " ++ f.message
  | rectangleRejected f => "ground rectangle rejected: " ++ f.message
  | pointRejected x y => "topographic point " ++ location x y ++ " rejected"
  | breaklineSkipped => "break-line crosses another break-line and is skipped"
  | triangulated v t =>
    "triangulated " ++ toString v ++ " vertices into " ++ toString t ++ " triangles"
  | noTerrain => "no terrain: fewer than 2 topographic features"
  | terrainDropped f => "continuing without terrain: " ++ f.message
  | sealingFailed f => "sealing failed: " ++ f.message
  | siteSealed b w g p t =>
    "sealed scene: " ++ toString b ++ " buildings, " ++ toString w ++ " walls, " ++ toString g ++
      " ground regions, " ++ toString p ++ " processed walls, " ++ toString t ++
      " terrain triangles"
  | sectionCut s r n =>
    "profile " ++ location s.x s.y ++ " -> " ++ location r.x r.y ++ ": " ++ toString n ++ " points"

end Event

/-- The name of a level. -/
def Level.name : Level → String
  | .error => "ERROR"
  | .warn => "WARN"
  | .debug => "DEBUG"

/-- The line that reports an event. -/
def Event.line {α : Type} [Written α] (e : Event α) : String := e.level.name ++ ": " ++ e.text

/-- A result with the events on the way to it, the earliest first. -/
structure Reported (α β : Type) where
  /-- The events. -/
  events : List (Event α)
  /-- The result. -/
  result : β

end SiteSection
