import SiteSection.Proofs.Plan.Redrawing
import SiteSection.Proofs.Plan.Turning
import SiteSection.Proofs.Site.Footprints

/-! # Diffraction corners

  A footprint is closed, and is run through counter-clockwise: backwards from its first corner
  if it has a negative area. Each of its corners is looked at between its neighbours, of which
  the first and the last corner have one over the seam. So the corners are those of the plan,
  counter-clockwise and around, and the points beside them are in the same order.

  Over the real numbers the open angle tells how the ring turns at a corner. Angles from a half
  turn to a full one are those of the left turns, which stand out of the building, and angles up
  to a half turn those of the right turns.
-/

namespace SiteSection

/-! ## Corners around a ring -/

section
variable {ι : Type}

/-- The elements of a ring, each with the one before it and the one after it. -/
def ringTriples (ring : List ι) : List (ι × ι × ι) :=
  (ring.rotate (ring.length - 1)).zip (ring.zip (ring.rotate 1))

/-- The ring run through the other way round, from the same element. -/
def turnedBack : List ι → List ι
  | [] => []
  | i :: l => i :: l.reverse

/-- Elements without a partner are left out. -/
theorem zip_append_of_length_eq {κ : Type} {l : List ι} {m : List κ} (h : l.length = m.length)
    (l' : List ι) : (l ++ l').zip m = l.zip m := by
  have hzip : (l ++ l').zip (m ++ []) = l.zip m ++ l'.zip [] := List.zip_append h
  rwa [List.append_nil, List.zip_nil_right, List.append_nil] at hzip

theorem zip_rotate_one (i : ι) (l : List ι) : (i :: l).rotate 1 = l ++ [i] := by
  rw [List.rotate_cons_succ, List.rotate_zero]

theorem zip_rotate {κ : Type} {l : List ι} {m : List κ} (h : l.length = m.length) (n : Nat) :
    (l.zip m).rotate n = (l.rotate n).zip (m.rotate n) :=
  List.zipWith_rotate_distrib Prod.mk l m n h

theorem zip_reverse {κ : Type} {l : List ι} {m : List κ} (h : l.length = m.length) :
    (l.zip m).reverse = l.reverse.zip m.reverse :=
  List.reverse_zipWith h

/-- The edges of a ring pair every element with the next one. -/
theorem ringEdges_eq_zip (ring : List ι) : ringEdges ring = ring.zip (ring.rotate 1) := by
  cases ring with
  | nil => rfl
  | cons i l =>
    rw [zip_rotate_one, ringEdges_cons, pathEdges, List.tail_cons]
    exact zip_append_of_length_eq (l := i :: l) (by simp) [i]

/-- A ring has as many edges as elements. -/
theorem length_ringEdges (ring : List ι) : (ringEdges ring).length = ring.length := by
  rw [ringEdges_eq_zip, List.length_zip, List.length_rotate, Nat.min_self]

/-- The ways to and from an element are edges of the ring. -/
theorem edges_of_mem_ringTriples {ring : List ι} {t : ι × ι × ι} (ht : t ∈ ringTriples ring) :
    (t.1, t.2.1) ∈ ringEdges ring ∧ (t.2.1, t.2.2) ∈ ringEdges ring := by
  obtain ⟨i, hi⟩ := List.mem_iff_getElem?.mp ht
  obtain ⟨hbefore, hrest⟩ := List.getElem?_zip_eq_some.mp hi
  obtain ⟨hat, hafter⟩ := List.getElem?_zip_eq_some.mp hrest
  constructor
  · -- The edge to an element comes before that from it, so it is one of the ring put on.
    cases hring : ring with
    | nil =>
      rw [hring] at hat
      cases hat
    | cons j l =>
      rw [← hring, ringEdges_eq_zip, ← List.mem_rotate (n := ring.length - 1),
        zip_rotate (List.length_rotate ring 1).symm, List.rotate_rotate, Nat.add_comm,
        Nat.sub_add_cancel (by simp [hring]), List.rotate_length]
      exact List.mem_of_getElem? (List.getElem?_zip_eq_some.mpr ⟨hbefore, hat⟩)
  · rw [ringEdges_eq_zip]
    exact List.mem_of_getElem? hrest

/-- From another element, a ring has the same triples, begun with that one. -/
theorem ringTriples_rotate (ring : List ι) (n : Nat) :
    ringTriples (ring.rotate n) = (ringTriples ring).rotate n := by
  rw [ringTriples, ringTriples, zip_rotate (by simp), zip_rotate (by simp), List.length_rotate,
    List.rotate_rotate, List.rotate_rotate, List.rotate_rotate, List.rotate_rotate,
    Nat.add_comm n, Nat.add_comm n]

/-- The other way round, the element before the first one is the second. -/
theorem rotate_reverse_pred (ring : List ι) :
    ring.reverse.rotate (ring.length - 1) = (ring.rotate 1).reverse := by
  cases ring with
  | nil => rfl
  | cons i l =>
    have hlength : (i :: l).length - 1 = l.reverse.length := by simp
    rw [zip_rotate_one, List.reverse_cons, hlength, List.rotate_append_length_eq,
      List.reverse_append, List.reverse_singleton]

theorem zip_zip_swap (l m n : List ι) :
    l.zip (m.zip n) = (n.zip (m.zip l)).map fun t => (t.2.2, t.2.1, t.1) := by
  induction l generalizing m n with
  | nil => simp
  | cons i l ih =>
    match m, n with
    | [], _ | _ :: _, [] => simp
    | j :: m, k :: n => simp only [List.zip_cons_cons, List.map_cons, ih m n]

/-- The other way round, what was before an element is after it. -/
theorem ringTriples_reverse (ring : List ι) :
    ringTriples ring.reverse =
      ((ringTriples ring).map fun t => (t.2.2, t.2.1, t.1)).reverse := by
  have hnext : ring.reverse.rotate 1 = (ring.rotate (ring.length - 1)).reverse := by
    have h := rotate_reverse_pred ring.reverse
    rw [List.reverse_reverse, List.length_reverse] at h
    rw [h, List.reverse_reverse]
  rw [ringTriples, ringTriples, List.length_reverse, rotate_reverse_pred, hnext,
    zip_zip_swap (ring.rotate _), List.map_map, ← zip_reverse (by simp), ← zip_reverse (by simp)]
  simp [Function.comp_def]

/-- Run through the other way round, a ring is reversed and put on by one. -/
theorem turnedBack_eq (ring : List ι) :
    turnedBack ring = ring.reverse.rotate (ring.length - 1) := by
  rw [rotate_reverse_pred]
  cases ring with
  | nil => rfl
  | cons i l =>
    rw [zip_rotate_one, List.reverse_append]
    rfl

/-- The other way round, a ring has the same elements. -/
theorem turnedBack_perm (ring : List ι) : (turnedBack ring).Perm ring := by
  cases ring with
  | nil => exact .rfl
  | cons i l => exact (List.reverse_perm l).cons i

/-- The other way round, a ring has its edges from their other ends, in the opposite order. -/
theorem ringEdges_turnedBack (ring : List ι) :
    ringEdges (turnedBack ring) = ((ringEdges ring).map Prod.swap).reverse := by
  cases ring with
  | nil => rfl
  | cons i l => exact ringEdges_cons_reverse i l

theorem mem_ringTriples_turnedBack {ring : List ι} {t : ι × ι × ι} :
    t ∈ ringTriples (turnedBack ring) ↔ (t.2.2, t.2.1, t.1) ∈ ringTriples ring := by
  rw [turnedBack_eq, ringTriples_rotate, List.mem_rotate, ringTriples_reverse, List.mem_reverse,
    List.mem_map]
  constructor
  · rintro ⟨u, hu, rfl⟩
    exact hu
  · exact fun h => ⟨_, h, rfl⟩

/-- Every element is in the middle of one triple. -/
theorem map_ringTriples (ring : List ι) : (ringTriples ring).map (fun t => t.2.1) = ring := by
  have hsplit : (fun t : ι × ι × ι => t.2.1) = Prod.fst ∘ Prod.snd := rfl
  rw [hsplit, ← List.map_map, ringTriples, List.map_snd_zip (by simp), List.map_fst_zip (by simp)]

end

/-! ## Counter-clockwise rings -/

namespace Ring

variable {K : Type} [ExactScalar K] {ring : List (Point2 K)}

/-- The ring run through counter-clockwise, from its first corner. -/
def counterClockwise (ring : List (Point2 K)) : List (Point2 K) :=
  if isCounterClockwise ring then ring else turnedBack ring

theorem signedArea_turnedBack (ring : List (Point2 K)) :
    signedArea (turnedBack ring) = -signedArea ring := by
  cases ring with
  | nil => simp [turnedBack, signedArea_eq_sum, ringEdges]
  | cons v l =>
    rw [← signedArea_reverse, List.reverse_cons]
    exact signedArea_append_comm l.reverse [v]

/-- A ring that has an area has a positive one counter-clockwise. -/
theorem signedArea_counterClockwise_pos (h : signedArea ring ≠ 0) :
    0 < signedArea (counterClockwise ring) := by
  rw [counterClockwise, isCounterClockwise]
  by_cases hpos : 0 < signedArea ring
  · rwa [if_pos (decide_eq_true hpos)]
  · rw [if_neg (by simpa using hpos), signedArea_turnedBack, neg_pos]
    exact lt_of_le_of_ne (not_lt.mp hpos) h

/-- The corners at which the way around a ring turns left. -/
def leftTurns (ring : List (Point2 K)) : List (Point2 K) :=
  ((ringTriples ring).filter fun t => decide (0 < side t.1 t.2.1 t.2.2)).map fun t => t.2.1

/-- The corners at which the way around a ring turns right. -/
def rightTurns (ring : List (Point2 K)) : List (Point2 K) :=
  ((ringTriples ring).filter fun t => decide (side t.1 t.2.1 t.2.2 < 0)).map fun t => t.2.1

/-- Counter-clockwise a ring has the same corners, with their neighbours exchanged or not. -/
theorem mem_ringTriples_counterClockwise {t : Point2 K × Point2 K × Point2 K}
    (ht : t ∈ ringTriples (counterClockwise ring)) :
    t ∈ ringTriples ring ∨ (t.2.2, t.2.1, t.1) ∈ ringTriples ring := by
  rw [counterClockwise] at ht
  split at ht
  · exact .inl ht
  · exact .inr (mem_ringTriples_turnedBack.mp ht)

end Ring

namespace Building

/-! ## The corners of a footprint -/

/-- A building was made of a footprint, and maybe placed on the ground since. -/
inductive IsMade {α : Type} [Scalar α] : Building α → Prop where
  | made {footprint : List (Point3 α)} {height : α} {absorption : List α} {name : Int}
      {b : Building α} (h : ofFootprint? footprint height absorption name = .ok b) : IsMade b
  | placed {b : Building α} (h : IsMade b) (ground : α) (absolute : Bool) :
      IsMade (b.place ground absolute)

section
variable {K : Type} [ExactScalar K] {b : Building K}

theorem IsMade.isTidy (h : b.IsMade) : Polygon.IsTidy b.plan.ring := by
  induction h with
  | made h => exact Polygon.isTidy_of_ofRing? (plan_of_ofFootprint? h).1
  | placed _ ground absolute ih => exact ih

/-- The footprint is the ring of the plan, closed by its first corner. -/
theorem IsMade.map_plan (h : b.IsMade) :
    b.footprint.map Point3.plan = b.plan.ring ++ b.plan.ring.head?.toList := by
  induction h with
  | made h => exact map_plan_footprint h
  | placed _ ground absolute ih => rwa [map_plan_place]

/-- A footprint over a tidy ring makes a building with that plan. -/
theorem exists_ofFootprint? {footprint : List (Point3 K)} {height : K}
    (h : Polygon.IsTidy (footprint.map Point3.plan)) (hheight : ¬height < 0) (absorption : List K)
    (name : Int) : ∃ b, ofFootprint? footprint height absorption name = .ok b ∧
      b.plan.ring = footprint.map Point3.plan := by
  obtain ⟨b, hb⟩ : ∃ b, ofFootprint? footprint height absorption name = .ok b :=
    (exists_ofFootprint?_iff hheight).mpr
      ⟨_, Polygon.IsTidy.ofRing?_eq (g := ⟨footprint.map Point3.plan⟩) h⟩
  exact ⟨b, hb, (Polygon.ofRing?_eq_ok_iff.mp (plan_of_ofFootprint? hb).1).1.trans h.tidied_eq⟩

/-- Every tidy ring is the plan of a building. -/
theorem exists_isMade {ring : List (Point2 K)} (h : Polygon.IsTidy ring) :
    ∃ b : Building K, b.IsMade ∧ b.plan.ring = ring := by
  have hmap : (ring.map (·.atZ 0)).map Point3.plan = ring := by simp [Function.comp_def]
  obtain ⟨b, hb, hplan⟩ := exists_ofFootprint? (hmap.symm ▸ h) (lt_irrefl 0) [] 0
  exact ⟨b, .made hb, hplan.trans hmap⟩

end

/-- The corners of a closed ring are those around the open one. -/
theorem cornersOf_closed {α : Type} {ring : List (Point3 α)} {v : Point2 α} {l : List (Point2 α)}
    (h : ring.map Point3.plan = v :: l ++ [v]) : cornersOf ring = ringTriples (v :: l) := by
  obtain ⟨m, last, hlast⟩ : ∃ m last, v :: l = m ++ [last] :=
    ⟨_, _, (List.dropLast_append_getLast (List.cons_ne_nil v l)).symm⟩
  have hfront : (v :: l).rotate ((v :: l).length - 1) = last :: m := by
    rw [hlast, List.length_append, List.length_singleton, Nat.add_sub_cancel,
      List.rotate_append_length_eq, List.singleton_append]
  have hzip : (last :: (v :: l)).zip ((v :: l).zip (l ++ [v])) =
      (last :: m).zip ((v :: l).zip (l ++ [v])) := by
    have hlength : (last :: m).length = ((v :: l).zip (l ++ [v])).length := by
      have hsize := congrArg List.length hlast
      simp at hsize ⊢
      omega
    rw [← zip_append_of_length_eq hlength [last], List.cons_append, ← hlast]
  simp only [cornersOf, h, List.dropLast_concat]
  rw [hlast, List.getLast?_concat, ← hlast, ringTriples, hfront, zip_rotate_one]
  exact hzip

section
variable {K : Type} [ExactCircular K] {b : Building K}

/-- The corners that are looked at are those of the plan, counter-clockwise. -/
theorem cornersOf_counterClockwise (h : b.IsMade) :
    cornersOf (if Ring.isCounterClockwise (b.footprint.map Point3.plan) then b.footprint
      else b.footprint.reverse) = ringTriples (Ring.counterClockwise b.plan.ring) := by
  have hmap := h.map_plan
  obtain ⟨v, l, hring⟩ : ∃ v l, b.plan.ring = v :: l := by
    refine List.exists_cons_of_ne_nil fun hnil => ?_
    have hthree := h.isTidy.three_le
    simp [hnil] at hthree
  rw [hring, List.head?_cons, Option.toList_some] at hmap
  rw [hmap, hring, Ring.counterClockwise, Ring.isCounterClockwise, Ring.isCounterClockwise,
    Ring.signedArea_closed]
  split
  · exact cornersOf_closed hmap
  · refine cornersOf_closed ?_
    rw [List.map_reverse, hmap]
    simp

/-- The points beside the corners of a ring that are open as far as asked for. -/
def pointsAround (ring : List (Point2 K)) (z least greatest eps : K) : List (Point3 K) :=
  ((ringTriples ring).filter fun t =>
      decide (least < openAngle t.1 t.2.1 t.2.2 ∧ openAngle t.1 t.2.1 t.2.2 < greatest)).map
    fun t => beside eps z t.1 t.2.1 t.2.2

/-- The points beside the corners of a building are those around its plan, and the first of them
    again. -/
theorem cornerPoints_eq (h : b.IsMade) (least greatest eps : K) :
    let ring := Ring.counterClockwise b.plan.ring
    let points := pointsAround ring (b.roofZ + eps) least greatest eps
    b.cornerPoints least greatest eps = points ++ points.head?.toList := by
  intro ring points
  have hpoints : (ringTriples ring).filterMap
      (fun t =>
        if least < openAngle t.1 t.2.1 t.2.2 ∧ openAngle t.1 t.2.1 t.2.2 < greatest then
          some (beside eps (b.roofZ + eps) t.1 t.2.1 t.2.2)
        else none) = points := by
    unfold points pointsAround
    rw [← List.filterMap_eq_map, List.filterMap_filter]
    simp
  rw [cornerPoints, cornersOf_counterClockwise h]
  exact congrArg (fun points => points ++ points.head?.toList) hpoints

end

/-! ## Which corners have points beside them -/

section
variable {b : Building ℝ} {before corner after : Point2 ℝ}

/-- The points are beside the corners, one beside each in their order and the first one again:
    as far from it as the offset says, and as far above the roof. -/
def PointsBeside (b : Building ℝ) (eps : ℝ) (corners : List (Point2 ℝ))
    (points : List (Point3 ℝ)) : Prop :=
  ∃ row, points = row ++ row.head?.toList ∧
    List.Forall₂ (fun corner p => p.plan.dist corner = |eps| ∧ p.z = b.roofZ + eps) corners row

theorem FoldsBack.symm (h : FoldsBack after corner before) : FoldsBack before corner after := by
  obtain ⟨hside, hback⟩ := h
  rw [Ring.side_eq] at hside
  refine ⟨?_, by linarith⟩
  rw [Ring.side_eq]
  linarith

/-- The points beside the corners that are chosen by their open angles are beside those corners. -/
theorem pointsBeside_cornerPoints (hmade : b.IsMade) (least greatest eps : ℝ)
    {chosen : Point2 ℝ × Point2 ℝ × Point2 ℝ → Bool}
    (h : ∀ t ∈ ringTriples (Ring.counterClockwise b.plan.ring),
      (least < openAngle t.1 t.2.1 t.2.2 ∧ openAngle t.1 t.2.1 t.2.2 < greatest) ↔
        chosen t = true) :
    b.PointsBeside eps
      (((ringTriples (Ring.counterClockwise b.plan.ring)).filter chosen).map fun t => t.2.1)
      (b.cornerPoints least greatest eps) := by
  have hchosen : ∀ t ∈ ringTriples (Ring.counterClockwise b.plan.ring),
      decide (least < openAngle t.1 t.2.1 t.2.2 ∧ openAngle t.1 t.2.1 t.2.2 < greatest) =
        chosen t := fun t ht => Bool.eq_iff_iff.mpr (decide_eq_true_iff.trans (h t ht))
  refine ⟨_, cornerPoints_eq hmade least greatest eps, ?_⟩
  rw [pointsAround, List.filter_congr hchosen, List.forall₂_map_left_iff,
    List.forall₂_map_right_iff, List.forall₂_same]
  intro t ht
  exact ⟨dist_beside eps _ t.1 t.2.1 t.2.2, beside_z eps _ t.1 t.2.1 t.2.2⟩

/-- No two neighbours of a footprint are at one place, and if it folds back nowhere then it does
    not do so counter-clockwise. -/
theorem IsMade.corner_of_mem (hmade : b.IsMade)
    (hfold : ∀ t ∈ ringTriples b.plan.ring, ¬ FoldsBack t.1 t.2.1 t.2.2)
    {t : Point2 ℝ × Point2 ℝ × Point2 ℝ}
    (ht : t ∈ ringTriples (Ring.counterClockwise b.plan.ring)) :
    t.1 ≠ t.2.1 ∧ t.2.1 ≠ t.2.2 ∧ ¬ FoldsBack t.1 t.2.1 t.2.2 := by
  have hapart : ∀ e ∈ ringEdges b.plan.ring, e.1 ≠ e.2 := fun e he =>
    ne_of_beq_false (hmade.isTidy.apart e he)
  rcases Ring.mem_ringTriples_counterClockwise ht with hforth | hback
  · obtain ⟨hto, hfrom⟩ := edges_of_mem_ringTriples hforth
    exact ⟨hapart _ hto, hapart _ hfrom, hfold t hforth⟩
  · obtain ⟨hto, hfrom⟩ := edges_of_mem_ringTriples hback
    exact ⟨(hapart _ hfrom).symm, (hapart _ hto).symm, fun h => hfold _ hback h.symm⟩

/-- **Corner points.** For a footprint that has an area and folds back nowhere, run through
    counter-clockwise: the open angles up to a full turn are those of all corners, those of more
    than a half turn are those of the left turns, and those of less than a half turn are those of
    the right turns. -/
theorem cornerPoints_beside_turns (hmade : b.IsMade) (harea : Ring.signedArea b.plan.ring ≠ 0)
    (hfold : ∀ t ∈ ringTriples b.plan.ring, ¬ FoldsBack t.1 t.2.1 t.2.2) (eps : ℝ) :
    let ring := Ring.counterClockwise b.plan.ring
    ((ring = b.plan.ring ∨ ring = turnedBack b.plan.ring) ∧ 0 < Ring.signedArea ring) ∧
      b.PointsBeside eps ring (b.cornerPoints 0 (2 * Real.pi) eps) ∧
      b.PointsBeside eps (Ring.leftTurns ring) (b.cornerPoints Real.pi (2 * Real.pi) eps) ∧
      b.PointsBeside eps (Ring.rightTurns ring) (b.cornerPoints 0 Real.pi eps) := by
  intro ring
  have hfull := fun t : Point2 ℝ × Point2 ℝ × Point2 ℝ => (openAngle_spec t.1 t.2.1 t.2.2).2.1
  refine ⟨⟨?_, Ring.signedArea_counterClockwise_pos harea⟩, ?_, ?_, ?_⟩
  · exact ite_eq_or_eq _ _ _
  · have hall : b.PointsBeside eps (((ringTriples ring).filter fun _ => true).map fun t => t.2.1)
        (b.cornerPoints 0 (2 * Real.pi) eps) := by
      refine pointsBeside_cornerPoints hmade 0 (2 * Real.pi) eps fun t ht => ?_
      obtain ⟨hbefore, hafter, hnot⟩ := hmade.corner_of_mem hfold ht
      exact iff_of_true ⟨openAngle_pos hbefore hafter hnot, hfull t⟩ rfl
    rwa [List.filter_true, map_ringTriples] at hall
  · refine pointsBeside_cornerPoints hmade Real.pi (2 * Real.pi) eps fun t ht => ?_
    obtain ⟨hbefore, hafter, hnot⟩ := hmade.corner_of_mem hfold ht
    rw [decide_eq_true_iff, ← pi_lt_openAngle_iff hbefore hafter hnot]
    exact and_iff_left (hfull t)
  · refine pointsBeside_cornerPoints hmade 0 Real.pi eps fun t ht => ?_
    obtain ⟨hbefore, hafter, hnot⟩ := hmade.corner_of_mem hfold ht
    rw [decide_eq_true_iff, ← openAngle_lt_pi_iff hbefore hafter hnot]
    exact and_iff_right (openAngle_pos hbefore hafter hnot)

/-- An L-shaped footprint that was given clockwise, with a corner amidst its southern side. There
    is a point beside that corner only if angles of a half turn are asked for. -/
theorem cornerPoints_beside_turns_clockwise : ∃ b : Building ℝ, b.IsMade ∧
    b.plan.ring = [⟨0, 0⟩, ⟨0, 4⟩, ⟨2, 4⟩, ⟨2, 2⟩, ⟨4, 2⟩, ⟨4, 0⟩, ⟨2, 0⟩] ∧
    Ring.signedArea b.plan.ring ≠ 0 ∧
    (∀ t ∈ ringTriples b.plan.ring, ¬ FoldsBack t.1 t.2.1 t.2.2) ∧
    b.PointsBeside 1 [⟨0, 0⟩, ⟨2, 0⟩, ⟨4, 0⟩, ⟨4, 2⟩, ⟨2, 2⟩, ⟨2, 4⟩, ⟨0, 4⟩]
      (b.cornerPoints 0 (2 * Real.pi) 1) ∧
    b.PointsBeside 1 [⟨0, 0⟩, ⟨4, 0⟩, ⟨4, 2⟩, ⟨2, 4⟩, ⟨0, 4⟩]
      (b.cornerPoints Real.pi (2 * Real.pi) 1) ∧
    b.PointsBeside 1 [⟨2, 2⟩] (b.cornerPoints 0 Real.pi 1) := by
  set ring : List (Point2 ℝ) := [⟨0, 0⟩, ⟨0, 4⟩, ⟨2, 4⟩, ⟨2, 2⟩, ⟨4, 2⟩, ⟨4, 0⟩, ⟨2, 0⟩]
  have htidy : Polygon.IsTidy ring := by
    refine ⟨by simp [ring], ?_, by simp [ring, ringEdges, pathEdges]⟩
    simp [ring, Coordinates.hasNaN, Coordinates.toList]
  obtain ⟨b, hmade, hplan⟩ := exists_isMade htidy
  have harea : Ring.signedArea ring < 0 := by
    norm_num [ring, Ring.signedArea_eq_sum, ringEdges, pathEdges, Point2.cross, Scalar.half]
  have hfold : ∀ t ∈ ringTriples ring, ¬ FoldsBack t.1 t.2.1 t.2.2 := by
    norm_num [ring, ringTriples, FoldsBack, Ring.side_eq, List.rotate]
  have hback : Ring.counterClockwise ring =
      [⟨0, 0⟩, ⟨2, 0⟩, ⟨4, 0⟩, ⟨4, 2⟩, ⟨2, 2⟩, ⟨2, 4⟩, ⟨0, 4⟩] := by
    rw [Ring.counterClockwise, Ring.isCounterClockwise, if_neg (by simpa using harea.le)]
    rfl
  rw [← hplan] at harea hfold hback
  obtain ⟨-, hall, hleft, hright⟩ := cornerPoints_beside_turns hmade harea.ne hfold 1
  rw [hback] at hall hleft hright
  refine ⟨b, hmade, hplan, harea.ne, hfold, hall, ?_, ?_⟩
  · convert hleft using 1
    norm_num [Ring.leftTurns, ringTriples, Ring.side_eq, List.rotate, List.filter_cons]
  · convert hright using 1
    norm_num [Ring.rightTurns, ringTriples, Ring.side_eq, List.rotate, List.filter_cons]

end

end Building

end SiteSection
