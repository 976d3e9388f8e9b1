import Std.Data.HashMap
import SiteSection.Triangulation.Exact
import SiteSection.Mesh

/-! # Flipping edges

  A triangulation as a table from directed edges to the corner opposite them on their left.
  An edge with a face on both sides is the diagonal of a quadrangle, and a flip exchanges it
  for the other diagonal.

  Two rounds of flips turn a triangulation into the one wanted: first every break-line part
  is made an edge (`force`), then every other edge whose circles are not empty is flipped
  away (`legalise`).
-/

namespace SiteSection

namespace Triangulation

/-- A triangulation: the left corner opposite each directed edge. -/
abbrev Wings := Std.HashMap (Nat × Nat) Nat

namespace Wings

/-! ## Faces and edges -/

/-- The table with a face. -/
def addFace (w : Wings) (f : Face) : Wings :=
  ((w.insert (f.a, f.b) f.c).insert (f.b, f.c) f.a).insert (f.c, f.a) f.b

/-- The table of some faces. -/
def ofFaces (faces : List Face) : Wings := faces.foldl addFace ∅

/-- The faces, each from its lowest corner, in increasing order. -/
def faces (w : Wings) : List Face :=
  let found := w.toList.filterMap fun e =>
    if e.1.1 < e.1.2 ∧ e.1.1 < e.2 then some (⟨e.1.1, e.1.2, e.2⟩ : Face) else none
  found.mergeSort fun f g =>
    ((compare f.a g.a).then ((compare f.b g.b).then (compare f.c g.c))).isLE

/-- The edges with a face on both sides, each once, with the corners of the quadrangle: the
    edge from `a` to `b`, `c` on its left and `d` on its right. -/
def inner (w : Wings) : List (Nat × Nat × Nat × Nat) :=
  w.toList.filterMap fun e =>
    if e.1.1 < e.1.2 then (w[(e.1.2, e.1.1)]?).map fun d => (e.1.1, e.1.2, e.2, d) else none

/-- The edge from `a` to `b` exchanged for the one between the corners opposite it. -/
def flip (w : Wings) (a b c d : Nat) : Wings :=
  addFace (addFace ((w.erase (a, b)).erase (b, a)) ⟨a, d, c⟩) ⟨d, b, c⟩

variable {β : Type} [Zero β] [Add β] [Sub β] [Mul β] [LT β] [DecidableLT β] [BEq β]
  (plan : Array (Point2 β))

/-- A relation between the locations of four vertices. -/
def holdsAt (f : Point2 β → Point2 β → Point2 β → Point2 β → Bool) (a b c d : Nat) : Bool :=
  match plan[a]?, plan[b]?, plan[c]?, plan[d]? with
  | some pa, some pb, some pc, some pd => f pa pb pc pd
  | _, _, _, _ => false

/-! ## Making a line an edge -/

/-- The distance of a location from the line between `p` and `q`, in an unspecified unit. -/
def height (p q r : Point2 β) : β :=
  let h := ExactPlan.area p q r
  if h < 0 then 0 - h else h

/-- A flip that brings the edges across the line from `u` to `v` nearer to it or off it. There
    is one as long as any edge crosses the line: at the crossing edge between the vertices
    farthest from the line on either side. -/
def nearing? (w : Wings) (u v : Nat) : Option (Nat × Nat × Nat × Nat) :=
  let crossing := w.inner.filter fun e => holdsAt plan ExactPlan.cross u v e.1 e.2.1
  crossing.find? fun (a, b, c, d) =>
    holdsAt plan ExactPlan.cross a b c d &&
      (!holdsAt plan ExactPlan.cross u v c d ||
        match plan[u]?, plan[v]? with
        | some p, some q =>
          holdsAt plan (fun pa pb pc pd =>
            decide (height p q pc + height p q pd < height p q pa + height p q pb)) a b c d
        | _, _ => false)

/-- Flips edges until none crosses the line from `u` to `v`. The first argument bounds the
    number of flips. -/
def force (u v : Nat) : Nat → Wings → Wings
  | 0, w => w
  | bound + 1, w =>
    match nearing? plan w u v with
    | none => w
    | some (a, b, c, d) => force u v bound (w.flip a b c d)

/-! ## Emptying the circles -/

/-- Flips edges of the work list, other than fixed ones, whose circle on one side holds the
    corner on the other; the sides of a flipped quadrangle are looked at again. The first
    argument bounds the number of edges looked at. -/
def legalise (fixed : Nat × Nat → Bool) : Nat → List (Nat × Nat) → Wings → Wings
  | 0, _, w => w
  | _, [], w => w
  | bound + 1, (a, b) :: work, w =>
    match w[(a, b)]?, w[(b, a)]? with
    | some c, some d =>
      if !fixed (a, b) && holdsAt plan ExactPlan.inCircle a b c d then
        legalise fixed bound ((a, d) :: (d, b) :: (b, c) :: (c, a) :: work) (w.flip a b c d)
      else legalise fixed bound work w
    | _, _ => legalise fixed bound work w

end Wings

end Triangulation

end SiteSection
