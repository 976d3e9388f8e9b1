import SiteSection.Triangulation.Vertices
import SiteSection.Ring

/-! # Break-lines

  Lines that the triangulation must follow. A break-line is accepted unless it crosses an
  accepted one between vertices: meeting at a vertex, or overlapping, is no crossing. In the
  end an accepted break-line is cut at all vertices that lie on it.
-/

namespace SiteSection

namespace Triangulation

variable {α β : Type} [Scalar α] [Exact α β]
  [Zero β] [Add β] [Sub β] [Mul β] [LT β] [DecidableLT β] [BEq β]

/-- The exact plan location of a point. -/
def exactPlan (p : Point3 α) : Point2 β := ⟨Exact.exact p.x, Exact.exact p.y⟩

/-- Do the lines between two pairs of vertices cross at a place where there is no vertex? -/
def clash (at' : Array (Point2 β)) (l m : Nat × Nat) : Bool :=
  match at'[l.1]?, at'[l.2]?, at'[m.1]?, at'[m.2]? with
  | some a, some b, some c, some d =>
    ExactPlan.cross a b c d &&
      !at'.any fun v => ExactPlan.onLine a b v && ExactPlan.onLine c d v
  | _, _, _, _ => false

/-- The vertices and break-lines of a triangulation to be. -/
structure Outline (α : Type) where
  /-- The distinct plan locations with their points. -/
  vertices : List (Point3 α)
  /-- The accepted break-lines, by their end vertices. -/
  breaklines : List (Nat × Nat)
  /-- How many break-lines were refused. -/
  refused : Nat

namespace Outline

/-- No vertices. -/
def empty : Outline α := ⟨[], [], 0⟩

/-- Enters a point. -/
def addPoint (o : Outline α) (p : Point3 α) : Except (TriangulationFault α) (Outline α × Nat) :=
  (enter? o.vertices p).map fun e => ({ o with vertices := e.1 }, e.2)

/-- Accepts or refuses the break-line between two vertices. A line between one vertex and
    itself is left out. -/
def addBreakline (o : Outline α) (i j : Nat) : Outline α :=
  if i = j then o
  else
    let plan := (o.vertices.map fun v => (exactPlan v : Point2 β)).toArray
    if o.breaklines.any (clash plan (i, j)) then { o with refused := o.refused + 1 }
    else { o with breaklines := o.breaklines ++ [(i, j)] }

/-- Enters the ends of a line, then the line. -/
def addLine (o : Outline α) (l : Point3 α × Point3 α) :
    Except (TriangulationFault α) (Outline α) :=
  match o.addPoint l.1 with
  | .error e => .error e
  | .ok (o1, i) => match o1.addPoint l.2 with
    | .error e => .error e
    | .ok (o2, j) => .ok (o2.addBreakline i j)

/-- Enters points and lines until one is at fault; the outline so far is kept. -/
def addAll {ι : Type} (add : Outline α → ι → Except (TriangulationFault α) (Outline α)) :
    Outline α → List ι → Outline α × Option (TriangulationFault α)
  | o, [] => (o, none)
  | o, i :: rest =>
    match add o i with
    | .error e => (o, some e)
    | .ok o' => addAll add o' rest

/-- The outline of some points and then some lines, and the fault that stopped it. -/
def ofLists (points : List (Point3 α)) (lines : List (Point3 α × Point3 α)) :
    Outline α × Option (TriangulationFault α) :=
  match addAll (fun o p => (o.addPoint p).map (·.1)) empty points with
  | (o, some e) => (o, some e)
  | (o, none) => addAll addLine o lines

end Outline

/-- The parts into which vertices on it cut the line between two vertices. -/
def breaklineParts (plan : Array (Point2 β)) (l : Nat × Nat) : List (Nat × Nat) :=
  match plan[l.1]?, plan[l.2]? with
  | some a, some b =>
    let inner := plan.toList.zipIdx.filter fun v => ExactPlan.within a b v.1
    let sorted := inner.mergeSort fun v w =>
      !decide (ExactPlan.along a b w.1 < ExactPlan.along a b v.1)
    pathEdges (l.1 :: sorted.map (·.2) ++ [l.2])
  | _, _ => []

end Triangulation

end SiteSection
