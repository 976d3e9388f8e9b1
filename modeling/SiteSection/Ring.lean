import SiteSection.Segment

/-! # Rings

  Closed plan rings, given by their corners in order. The last corner is joined to the first
  whether or not it repeats it.

  A location is inside a ring by its winding number: every edge that crosses the height of
  the location to its right counts one, upwards positive and downwards negative.
-/

namespace SiteSection

/-! ## Edges and repeats of a list -/

/-- The pairs of neighbours in a list, in order. -/
def pathEdges {ι : Type} (l : List ι) : List (ι × ι) := l.zip l.tail

@[simp] theorem pathEdges_nil {ι : Type} : pathEdges ([] : List ι) = [] := rfl

@[simp] theorem pathEdges_singleton {ι : Type} (i : ι) : pathEdges [i] = [] := rfl

@[simp] theorem pathEdges_cons_cons {ι : Type} (i j : ι) (l : List ι) :
    pathEdges (i :: j :: l) = (i, j) :: pathEdges (j :: l) := rfl

/-- The pairs of neighbours of a closed list: the last is followed by the first. -/
def ringEdges {ι : Type} : List ι → List (ι × ι)
  | [] => []
  | i :: l => pathEdges (i :: l ++ [i])

/-- The list without the elements that are the same as the last one kept. -/
def dropRepeats {ι : Type} (same : ι → ι → Bool) : List ι → List ι
  | [] => []
  | i :: l => i :: go i l
where
  /-- What is kept after `last`. -/
  go (last : ι) : List ι → List ι
    | [] => []
    | j :: l => if same j last then go last l else j :: go j l

@[simp] theorem dropRepeats_nil {ι : Type} (same : ι → ι → Bool) :
    dropRepeats same [] = [] := rfl

namespace Ring

variable {α : Type} [Scalar α]

/-! ## Area -/

/-- The area inside the ring, positive for counter-clockwise rings. -/
def signedArea (ring : List (Point2 α)) : α :=
  Scalar.sum ((ringEdges ring).map fun e => e.1.cross e.2) * Scalar.half

/-- Does the ring run counter-clockwise? -/
def isCounterClockwise (ring : List (Point2 α)) : Bool := decide (0 < signedArea ring)

/-! ## Inside and boundary -/

/-- How far `p` lies to the left of the line from `a` to `b`; negative to the right. -/
def side (a b p : Point2 α) : α := (b - a).cross (p - a)

/-- What an edge adds to the winding number around `p`. -/
def windingOf (p : Point2 α) (edge : Point2 α × Point2 α) : Int :=
  if edge.1.y ≤ p.y then
    if p.y < edge.2.y ∧ 0 < side edge.1 edge.2 p then 1 else 0
  else
    if edge.2.y ≤ p.y ∧ side edge.1 edge.2 p < 0 then -1 else 0

/-- How often the ring winds around `p`. -/
def winding (ring : List (Point2 α)) (p : Point2 α) : Int :=
  (ringEdges ring).foldr (fun e n => windingOf p e + n) 0

/-- Is `p` inside the ring? Fewer than three corners hold nothing. -/
def inside (ring : List (Point2 α)) (p : Point2 α) : Bool :=
  decide (3 ≤ ring.length) && winding ring p != 0

/-- The distance from an edge up to which a location counts as on it. -/
def boundaryTolerance : α := Scalar.negPowTen 9

/-- Is `p` on an edge of the ring, up to the tolerance? -/
def onBoundary (ring : List (Point2 α)) (p : Point2 α) : Bool :=
  (ringEdges ring).any fun e =>
    decide ((Segment.flat e.1 e.2).distTo p ≤ boundaryTolerance)

end Ring

end SiteSection
