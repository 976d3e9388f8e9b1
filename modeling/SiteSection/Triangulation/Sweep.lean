import SiteSection.Triangulation.Exact
import SiteSection.Mesh

/-! # A first triangulation by sweeping

  Vertices are taken from west to east, south first. Each is joined to the border edges that
  it sees; being beyond all earlier ones, it always lies outside what has been covered. While
  all vertices are on one line, the border goes along the line and back.
-/

namespace SiteSection

namespace Triangulation

variable {β : Type} [Zero β] [Add β] [Sub β] [Mul β] [LT β] [DecidableLT β] [BEq β]

/-- What the sweep has covered so far. -/
structure Swept where
  /-- The faces, counter-clockwise. -/
  faces : List Face
  /-- The directed border edges, with the covered part on their left. -/
  border : List (Nat × Nat)
  /-- The vertex taken last. -/
  last : Option Nat

namespace Swept

/-- Nothing covered. -/
def empty : Swept := ⟨[], [], none⟩

/-- Takes vertex `i`. -/
def take (plan : Array (Point2 β)) (s : Swept) (i : Nat) : Swept :=
  let sees := fun (e : Nat × Nat) =>
    match plan[e.1]?, plan[e.2]?, plan[i]? with
    | some a, some b, some p => ExactPlan.rightOf a b p
    | _, _, _ => false
  let seen := s.border.filter sees
  if seen.isEmpty then
    match s.last with
    | none => { s with last := some i }
    | some j => { s with border := s.border ++ [(j, i), (i, j)], last := some i }
  else
    let starts := seen.map (·.1)
    let ends := seen.map (·.2)
    { faces := s.faces ++ seen.map fun e => ⟨e.2, e.1, i⟩
      border := s.border.filter (!sees ·) ++
        (starts.filter (!ends.contains ·)).map (·, i) ++
        (ends.filter (!starts.contains ·)).map (i, ·)
      last := some i }

end Swept

/-- A triangulation of all vertices that follows no break-line. -/
def sweep (plan : Array (Point2 β)) : List Face :=
  let order := plan.toList.zipIdx.mergeSort fun v w => !ExactPlan.before w.1 v.1
  ((order.map (·.2)).foldl (Swept.take plan) Swept.empty).faces

end Triangulation

end SiteSection
