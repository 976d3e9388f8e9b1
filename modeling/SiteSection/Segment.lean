import SiteSection.Box

/-! # Segments

  Line segments of space whose questions are asked in plan: where a location projects to,
  which point is nearest, where two segments meet. Elevations are carried along and
  interpolated, they decide nothing.

  A segment is parametrised from `0` at its first end to `1` at its second.
-/

namespace SiteSection

/-- The segment from `p0` to `p1`. -/
structure Segment (α : Type) where
  /-- The end at parameter `0`. -/
  p0 : Point3 α
  /-- The end at parameter `1`. -/
  p1 : Point3 α
  deriving BEq, DecidableEq, Repr, Inhabited

namespace Segment

variable {α : Type} [Scalar α]

/-- The segment between two plan locations, without elevation. -/
def flat (a b : Point2 α) : Segment α := ⟨a.atZ Scalar.nan, b.atZ Scalar.nan⟩

/-! ## Measures -/

/-- The plan direction. -/
def dir (s : Segment α) : Point2 α := s.p1.plan - s.p0.plan

/-- The length in plan. -/
def planLength (s : Segment α) : α := s.p0.plan.dist s.p1.plan

/-- The length in space. -/
def length (s : Segment α) : α := Coordinates.norm (s.p1 - s.p0)

/-- The plan box around the segment. -/
def box (s : Segment α) : Box2 α := Box.ofPoints [s.p0.plan, s.p1.plan]

/-- The point at a parameter. -/
def pointAt (s : Segment α) (t : α) : Point3 α := Coordinates.lerp s.p0 s.p1 t

/-! ## Projection and distance -/

/-- The square of the plan length. -/
def sqLength (s : Segment α) : α := s.dir.x * s.dir.x + s.dir.y * s.dir.y

/-- The parameter at which a plan location projects onto the line of the segment; zero if
    the segment has no plan length. -/
def project (s : Segment α) (p : Point2 α) : α :=
  if s.sqLength == 0 then 0
  else
    let v := p - s.p0.plan
    (v.x * s.dir.x + v.y * s.dir.y) / s.sqLength

/-- The point of the segment nearest to a plan location. -/
def nearest (s : Segment α) (p : Point2 α) : Point3 α :=
  s.pointAt (Scalar.clampUnit (s.project p))

/-- The plan distance from a location to the segment. -/
def distTo (s : Segment α) (p : Point2 α) : α := (s.nearest p).plan.dist p

/-- The distance in space from a point to the segment. -/
def distTo3 (s : Segment α) (p : Point3 α) : α :=
  let d := s.p1 - s.p0
  let sq := Coordinates.dot d d
  let t := if sq == 0 then 0 else Scalar.clampUnit (Coordinates.dot (p - s.p0) d / sq)
  Coordinates.norm (s.pointAt t - p)

/-- The elevation of the segment at a plan location, by the share of the plan length that
    lies between the first end and the location. Ends of one elevation give that elevation. -/
def elevation (s : Segment α) (p : Point2 α) : α :=
  if s.p0.z == s.p1.z then s.p0.z
  else
    let l := s.planLength
    if l == 0 then s.p0.z
    else s.p0.z + (s.p1.z - s.p0.z) * s.p0.plan.dist p / l

/-! ## Meeting another segment -/

/-- The first point of the overlap of two segments that lie on one line, along the first. -/
def overlap? (s o : Segment α) : Option (Point3 α) :=
  let t0 := s.project o.p0.plan
  let t1 := s.project o.p1.plan
  let lo := Scalar.min t0 t1
  let hi := Scalar.max t0 t1
  if hi < 0 ∨ 1 < lo then none else some (s.pointAt (Scalar.floorZero lo))

/-- The plan point where two segments meet, ends included, with its elevation along the
    first. Of an overlap it is the first point along the first segment. -/
def intersect? (s o : Segment α) : Option (Point3 α) :=
  let r := s.dir
  let d := o.dir
  let gap := o.p0.plan - s.p0.plan
  let denom := r.cross d
  if denom == 0 then
    if gap.cross r != 0 then none
    else if s.sqLength == 0 then
      if o.distTo s.p0.plan == 0 then some s.p0 else none
    else s.overlap? o
  else
    let t := gap.cross d / denom
    let u := gap.cross r / denom
    if Scalar.inUnit t && Scalar.inUnit u then some (s.pointAt t) else none

/-- A closest pair of plan points of two segments, the first on the first. Segments that
    meet give the meeting point; otherwise an end of one of them is involved. -/
def closestPoints (s o : Segment α) : Point3 α × Point3 α :=
  match s.intersect? o with
  | some x => (x, o.nearest x.plan)
  | none =>
    let candidates :=
      [(s.p0, o.nearest s.p0.plan), (s.p1, o.nearest s.p1.plan),
       (s.nearest o.p0.plan, o.p0), (s.nearest o.p1.plan, o.p1)]
    let apart := fun (c : Point3 α × Point3 α) => c.1.plan.dist c.2.plan
    (leastBy? (fun a b => Scalar.totalCmp (apart a) (apart b)) candidates).getD (s.p0, o.p0)

/-! ## Splitting

  The pieces of a segment are counted before there are any, and the count may be beyond all
  numbers: a segment may be of any length, and a limit may be as small as numbers get. They make
  a list only where there is room for it. How much there is, is up to the machine; pieces of six
  doubles take 48 bytes each, and no memory holds more than `2 ^ 63 - 1`. -/

/-- How many pieces no longer than `limit` the segment is split into: one, unless the limit
    is positive and the segment reaches it. -/
def pieceCount (s : Segment α) (limit : α) : Nat :=
  if 0 < limit ∧ limit ≤ s.planLength then Scalar.ceil (s.planLength / limit) else 1

/-- A segment is cut at a positive limit that it reaches, unless there would be more pieces than
    can be counted. -/
def IsCutAt (s : Segment α) (limit : α) : Prop :=
  (0 < limit ∧ limit ≤ s.planLength) ∧
    ¬ Scalar.ofNat Scalar.greatestCount < s.planLength / limit

instance (s : Segment α) (limit : α) : Decidable (s.IsCutAt limit) :=
  inferInstanceAs (Decidable (_ ∧ _))

/-- Consecutive pieces of the segment, none longer in plan than `limit`. A segment that is not
    cut is whole. -/
def split (s : Segment α) (limit : α) : List (Segment α) :=
  if s.IsCutAt limit then
    let share := limit / s.planLength
    (List.range (s.pieceCount limit)).map fun i =>
      ⟨s.pointAt (Scalar.ofNat i * share),
       s.pointAt (Scalar.capOne (Scalar.ofNat (i + 1) * share))⟩
  else [s]

/-- The pieces, if there is room for a list of them. -/
def split? (s : Segment α) (limit : α) (room : Nat) : Option (List (Segment α)) :=
  if 0 < limit ∧ limit ≤ s.planLength ∧ room < s.pieceCount limit then none
  else some (s.split limit)

variable {s : Segment α} {limit : α}

theorem split_of_not_isCutAt (h : ¬ s.IsCutAt limit) : s.split limit = [s] := if_neg h

/-- A limit that the segment does not reach leaves it whole. -/
theorem split_of_lt (h : ¬(0 < limit ∧ limit ≤ s.planLength)) : s.split limit = [s] :=
  split_of_not_isCutAt fun hcut => h hcut.1

/-- There is no list exactly if there is no room for the pieces that are counted. -/
theorem split?_eq_none_iff {room : Nat} :
    s.split? limit room = none ↔
      0 < limit ∧ limit ≤ s.planLength ∧ room < Scalar.ceil (s.planLength / limit) := by
  have hcount : 0 < limit ∧ limit ≤ s.planLength →
      s.pieceCount limit = Scalar.ceil (s.planLength / limit) := fun h => if_pos h
  rw [split?]
  split
  · next h => simpa [hcount ⟨h.1, h.2.1⟩] using h
  · next h =>
    simp only [reduceCtorEq, false_iff]
    exact fun hroom => h ⟨hroom.1, hroom.2.1, hcount ⟨hroom.1, hroom.2.1⟩ ▸ hroom.2.2⟩

end Segment

end SiteSection
