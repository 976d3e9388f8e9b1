import SiteSection.Section.Point
import SiteSection.Settings

/-! # Cleaning up a section

  What is done to the points of a section once they are in order: the source is brought to the
  front and the receiver to the end, repeated points are capped at two, and neighbours at one
  place that disagree about the ground are settled to one of them.
-/

namespace SiteSection

namespace SectionPoint

variable {α : Type}

/-! ## Ends -/

/-- Do the points run from a source to a receiver? -/
def isAnchored (points : List (SectionPoint α)) : Bool :=
  (points.head?.any (·.kind == .source)) && (points.getLast?.any (·.kind == .receiver))

/-- The first point of a kind, and the points without it. -/
def takeKind (k : PointKind) (points : List (SectionPoint α)) :
    List (SectionPoint α) × List (SectionPoint α) :=
  ((points.find? (·.kind == k)).toList, points.eraseP (·.kind == k))

/-- The points with the source first and the receiver last. Points that run from a receiver to
    a source are reversed; otherwise the first source and receiver are moved. -/
def anchor (points : List (SectionPoint α)) : List (SectionPoint α) :=
  if isAnchored points then points
  else if isAnchored points.reverse then points.reverse
  else
    let (source, others) := takeKind .source points
    let (receiver, others) := takeKind .receiver others
    source ++ others ++ receiver

@[simp] theorem anchor_nil : anchor ([] : List (SectionPoint α)) = [] := rfl

/-- Anchored points stay as they are. -/
theorem anchor_of_isAnchored {points : List (SectionPoint α)} (h : isAnchored points = true) :
    anchor points = points := by simp [anchor, h]

variable [Scalar α]

/-! ## Repeats -/

/-- Is `c` the same event as both of the last two points, which are given the latest first? -/
def repeatsBoth (latest : List (SectionPoint α)) (c : SectionPoint α) : Bool :=
  match latest with
  | b :: a :: _ => b.sameEvent c && a.sameEvent c
  | _ => false

/-- The points after `latest`, without those that repeat the last two kept; building points
    always stay. -/
def capAfter (latest : List (SectionPoint α)) : List (SectionPoint α) → List (SectionPoint α)
  | [] => []
  | c :: rest =>
    if !c.isBuilding && repeatsBoth latest c then capAfter latest rest
    else c :: capAfter (c :: latest.take 1) rest

/-- What is kept after some points is a part of the points after them. -/
theorem capAfter_sublist (latest points : List (SectionPoint α)) :
    (capAfter latest points).Sublist points := by
  fun_induction capAfter latest points with
  | case1 => exact List.Sublist.refl _
  | case2 latest c rest _ ih => exact ih.cons c
  | case3 latest c rest _ ih => exact ih.cons_cons c

/-- The points with every run of the same event cut to two, building points excepted. -/
def capRuns (points : List (SectionPoint α)) : List (SectionPoint α) := capAfter [] points

@[simp] theorem capRuns_nil : capRuns ([] : List (SectionPoint α)) = [] := rfl

/-- Capping drops points and changes nothing else. -/
theorem capRuns_sublist (points : List (SectionPoint α)) : (capRuns points).Sublist points :=
  capAfter_sublist [] points

/-! ## Conflicts -/

/-- Of two neighbours in conflict the one is kept that has the ground ahead of the place, as
    `ahead` gives it; if both or neither have it, the later. The one kept may be in conflict
    with the next point. -/
def settleAhead (ahead : Point2 α → α) : List (SectionPoint α) → List (SectionPoint α)
  | a :: b :: rest =>
    if a.conflicts b then
      let ground := ahead a.position.plan
      if a.ground == ground && b.ground != ground then settleAhead ahead (a :: rest)
      else settleAhead ahead (b :: rest)
    else a :: settleAhead ahead (b :: rest)
  | points => points
termination_by points => points.length

/-- Conflicts settled in turn, after `k` earlier ones: where `k` is even the neighbour over
    hard ground is kept, where it is odd the other. The last point takes no part. -/
def settleInTurn : Nat → List (SectionPoint α) → List (SectionPoint α)
  | k, a :: b :: c :: rest =>
    if a.conflicts b then
      if (k % 2 == 0) == (a.ground == 0) then settleInTurn (k + 1) (a :: c :: rest)
      else b :: settleInTurn (k + 1) (c :: rest)
    else a :: settleInTurn k (b :: c :: rest)
  | _, points => points
termination_by _ points => points.length

/-- Settling by the ground ahead drops points and changes nothing else. -/
theorem settleAhead_sublist (ahead : Point2 α → α) (points : List (SectionPoint α)) :
    (settleAhead ahead points).Sublist points := by
  fun_induction settleAhead ahead points with
  | case1 a b rest _ _ _ ih => exact ih.trans ((List.Sublist.refl rest).cons b |>.cons_cons a)
  | case2 a b rest _ _ _ ih => exact ih.cons a
  | case3 a b rest _ ih => exact ih.cons_cons a
  | case4 => exact List.Sublist.refl _

/-- Settling in turn drops points and changes nothing else. -/
theorem settleInTurn_sublist (k : Nat) (points : List (SectionPoint α)) :
    (settleInTurn k points).Sublist points := by
  fun_induction settleInTurn k points with
  | case1 k a b c rest _ _ ih =>
    exact ih.trans ((List.Sublist.refl (c :: rest)).cons b |>.cons_cons a)
  | case2 k a b c rest _ _ ih => exact (ih.cons_cons b).cons a
  | case3 k a b c rest _ ih => exact ih.cons_cons a
  | case4 => exact List.Sublist.refl _

/-- Conflicts settled by a policy. -/
def settle (policy : ConflictPolicy) (ahead : Point2 α → α) (points : List (SectionPoint α)) :
    List (SectionPoint α) :=
  match policy with
  | .groundAhead => settleAhead ahead points
  | .alternate => settleInTurn 0 points

/-- Settling drops points and changes nothing else. -/
theorem settle_sublist (policy : ConflictPolicy) (ahead : Point2 α → α)
    (points : List (SectionPoint α)) : (settle policy ahead points).Sublist points := by
  cases policy with
  | groundAhead => exact settleAhead_sublist ahead points
  | alternate => exact settleInTurn_sublist 0 points

end SectionPoint

end SiteSection
