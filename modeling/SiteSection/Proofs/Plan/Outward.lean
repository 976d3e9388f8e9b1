import SiteSection.Proofs.Plan.Convex
import SiteSection.Proofs.Plan.Corners

/-! # Corner points are outside

  The point beside a corner is on the bisector of the open angle there. So seen from the way in
  which the ring comes to the corner it is half an open angle off, which is less than a half turn:
  the point is to the right of the edge that leads to the corner, however wide the angle is.

  A strictly convex ring that is run through counter-clockwise lies to the left of each of its
  edges. It has nothing inside that is to the right of one, so none of the points is inside.
-/

namespace SiteSection

section
variable {ι : Type} {ring : List ι}

/-- The other way round, a ring has its edges from their other ends. -/
theorem mem_ringEdges_turnedBack {e : ι × ι} :
    e ∈ ringEdges (turnedBack ring) ↔ e.swap ∈ ringEdges ring := by
  rw [ringEdges_turnedBack, List.mem_reverse, List.mem_map]
  constructor
  · rintro ⟨d, hd, rfl⟩
    rwa [Prod.swap_swap]
  · exact fun h => ⟨e.swap, h, e.swap_swap⟩

end

/-! ## Strictly convex rings -/

namespace Ring

section
variable {K : Type} [ExactScalar K] {ring : List (Point2 K)} {σ : K}

/-- A ring has all its corners strictly on one hand of each of its edges, but for the ends of the
    edge: on the left if `σ` is positive, and on the right if it is negative. -/
def OnHand (ring : List (Point2 K)) (σ : K) : Prop :=
  ∀ e ∈ ringEdges ring, ∀ v ∈ ring, v ≠ e.1 → v ≠ e.2 → 0 < σ * side e.1 e.2 v

/-- A ring is strictly convex if it is in no place twice, and is on one hand of its edges. It may
    run in either direction. -/
structure IsStrictlyConvex (ring : List (Point2 K)) : Prop where
  /-- There are no two corners at one place. -/
  nodup : ring.Nodup
  /-- The ring is on one hand of its edges. -/
  onHand : ∃ σ : K, OnHand ring σ

/-- The ends of an edge are on its line, and all other corners on the hand of the ring. -/
theorem OnHand.nonneg (h : OnHand ring σ) {e : Point2 K × Point2 K} (he : e ∈ ringEdges ring)
    {v : Point2 K} (hv : v ∈ ring) : 0 ≤ σ * side e.1 e.2 v := by
  by_cases hfirst : v = e.1
  · rw [hfirst, side_first, mul_zero]
  by_cases hlast : v = e.2
  · rw [hlast, side_last, mul_zero]
  exact (h e he v hv hfirst hlast).le

/-- Amidst three different corners is a location that is on the hand of the ring from all its
    edges. -/
theorem OnHand.exists_amidst (h : OnHand ring σ) (hnodup : ring.Nodup) (hthree : 3 ≤ ring.length) :
    ∃ p, ∀ e ∈ ringEdges ring, 0 < σ * side e.1 e.2 p := by
  match ring, hthree with
  | a :: b :: c :: l, _ =>
    refine ⟨⟨(a.x + b.x + c.x) / 3, (a.y + b.y + c.y) / 3⟩, fun e he => ?_⟩
    have hmean : σ * side e.1 e.2 ⟨(a.x + b.x + c.x) / 3, (a.y + b.y + c.y) / 3⟩ =
        (σ * side e.1 e.2 a + σ * side e.1 e.2 b + σ * side e.1 e.2 c) / 3 := by
      simp only [side_eq]
      ring
    have ha := h.nonneg he (v := a) (by simp)
    have hb := h.nonneg he (v := b) (by simp)
    have hc := h.nonneg he (v := c) (by simp)
    rw [hmean]
    refine div_pos (lt_of_le_of_ne (by linarith) fun hzero => ?_) (by norm_num)
    -- An edge has two ends, so one of the three is none of them.
    have hend : ∀ v ∈ a :: b :: c :: l, σ * side e.1 e.2 v = 0 → v = e.1 ∨ v = e.2 := by
      intro v hv hflat
      by_contra hnone
      rw [not_or] at hnone
      exact (h e he v hv hnone.1 hnone.2).ne' hflat
    have hab : a ≠ b := fun heq => (List.nodup_cons.mp hnodup).1 (heq ▸ by simp)
    have hac : a ≠ c := fun heq => (List.nodup_cons.mp hnodup).1 (heq ▸ by simp)
    have hbc : b ≠ c := fun heq => (List.nodup_cons.mp hnodup.of_cons).1 (heq ▸ by simp)
    rcases hend a (by simp) (by linarith) with ha' | ha' <;>
      rcases hend b (by simp) (by linarith) with hb' | hb' <;>
        rcases hend c (by simp) (by linarith) with hc' | hc'
    all_goals grind

/-- The hand is the left one if, and only if, the area is positive. -/
theorem OnHand.mul_signedArea_pos (h : OnHand ring σ) (hnodup : ring.Nodup)
    (hthree : 3 ≤ ring.length) : 0 < σ * signedArea ring := by
  obtain ⟨p, hp⟩ := h.exists_amidst hnodup hthree
  have hne : ringEdges ring ≠ [] := by
    rw [← List.length_pos_iff_ne_nil, length_ringEdges]
    omega
  have hsum := mul_sum_side_pos hne hp
  rw [sum_side] at hsum
  linarith

/-- The other way round, a ring is on the other hand. -/
theorem OnHand.turnedBack (h : OnHand ring σ) : OnHand (turnedBack ring) (-σ) := by
  intro e he v hv hfirst hlast
  have hback := h e.swap (mem_ringEdges_turnedBack.mp he) v
    ((turnedBack_perm ring).mem_iff.mp hv) hlast hfirst
  rwa [Prod.fst_swap, Prod.snd_swap, side_swap, mul_neg, ← neg_mul] at hback

/-- Run through counter-clockwise, a strictly convex ring is one still, and is to the left of its
    edges. -/
theorem IsStrictlyConvex.exists_left (h : IsStrictlyConvex ring) (hthree : 3 ≤ ring.length) :
    (counterClockwise ring).Nodup ∧ 3 ≤ (counterClockwise ring).length ∧
      ∃ σ : K, 0 < σ ∧ OnHand (counterClockwise ring) σ := by
  obtain ⟨σ, hσ⟩ := h.onHand
  have harea := hσ.mul_signedArea_pos h.nodup hthree
  rw [counterClockwise, isCounterClockwise]
  by_cases hpos : 0 < signedArea ring
  · rw [if_pos (decide_eq_true hpos)]
    exact ⟨h.nodup, hthree, σ, pos_of_mul_pos_left harea hpos.le, hσ⟩
  · rw [if_neg (by simpa using hpos), (turnedBack_perm ring).nodup_iff,
      (turnedBack_perm ring).length_eq]
    have hneg : σ < 0 := neg_of_mul_pos_left harea (not_lt.mp hpos)
    exact ⟨h.nodup, hthree, -σ, neg_pos.mpr hneg, hσ.turnedBack⟩

/-- What is inside does not change if a ring is run through counter-clockwise. -/
theorem inside_counterClockwise (ring : List (Point2 K)) (p : Point2 K) :
    inside (counterClockwise ring) p = inside ring p := by
  rw [counterClockwise]
  split
  · rfl
  · rw [Bool.eq_iff_iff, inside_iff, inside_iff, turnedBack_eq, winding_rotate, winding_reverse,
      neg_ne_zero]

end

end Ring

namespace Building

open Point2

/-! ## The bisector -/

/-- A point beside a corner is to the right of the edge that leads there by the sine of half the
    open angle. -/
theorem side_beside (eps z : ℝ) (before corner after : Point2 ℝ) :
    Ring.side before corner (beside eps z before corner after).plan =
      -(eps * ‖way corner before‖ * Real.sin (openAngle before corner after / 2)) := by
  set mid := angle corner before + openAngle before corner after / 2 with hmid
  have hhalf : openAngle before corner after / 2 = mid - angle corner before := by
    rw [hmid, add_sub_cancel_left]
  have hx : (beside eps z before corner after).plan.x = corner.x + Real.cos mid * eps := by
    rw [hmid, ← two_eq]
    rfl
  have hy : (beside eps z before corner after).plan.y = corner.y + Real.sin mid * eps := by
    rw [hmid, ← two_eq]
    rfl
  rw [Ring.side_eq, hx, hy, hhalf, Real.sin_sub]
  linear_combination
    eps * Real.sin mid * norm_mul_cos_angle corner before -
      eps * Real.cos mid * norm_mul_sin_angle corner before

/-- Wherever there is an open angle, the point beside a corner is to the right of the edge that
    leads there. -/
theorem side_beside_neg {eps : ℝ} (heps : 0 < eps) (z : ℝ) {before corner after : Point2 ℝ}
    (hne : before ≠ corner) (hopen : 0 < openAngle before corner after) :
    Ring.side before corner (beside eps z before corner after).plan < 0 := by
  have hfull := (openAngle_spec before corner after).2.1
  have hsin : 0 < Real.sin (openAngle before corner after / 2) :=
    Real.sin_pos_of_pos_of_lt_pi (by linarith) (by linarith)
  have hnorm : 0 < ‖way corner before‖ := norm_pos_iff.mpr (way_ne_zero hne.symm)
  rw [side_beside, neg_lt_zero]
  exact mul_pos (mul_pos heps hnorm) hsin

/-! ## Outside -/

/-- On the hand of the ring there is an open angle at every corner. -/
theorem openAngle_pos_of_onHand {ring : List (Point2 ℝ)} {σ : ℝ} (h : Ring.OnHand ring σ)
    {p : Point2 ℝ} (hp : ∀ e ∈ ringEdges ring, 0 < σ * Ring.side e.1 e.2 p)
    {t : Point2 ℝ × Point2 ℝ × Point2 ℝ} (ht : t ∈ ringTriples ring) :
    t.1 ≠ t.2.1 ∧ 0 < openAngle t.1 t.2.1 t.2.2 := by
  obtain ⟨before, corner, after⟩ := t
  obtain ⟨hto, hfrom⟩ := edges_of_mem_ringTriples ht
  have hside := fun e he => right_ne_zero_of_mul (hp e he).ne'
  have hbefore : before ≠ corner := by
    rintro rfl
    exact hside _ hto (Ring.side_self before p)
  have hafter : corner ≠ after := by
    rintro rfl
    exact hside _ hfrom (Ring.side_self corner p)
  -- Back and forth the ring would be on both hands of an edge.
  have hback : after ≠ before := by
    rintro rfl
    have hforth := hp _ hto
    have hagain := hp _ hfrom
    rw [Ring.side_swap, mul_neg] at hforth
    linarith
  have hturn := h _ hto after (mem_of_mem_ringEdges hfrom).2 hback hafter.symm
  exact ⟨hbefore, openAngle_pos hbefore hafter fun hfold => by simp [hfold.1] at hturn⟩

/-- Of a ring to the left of its edges nothing is inside that is beside a corner. -/
theorem inside_beside {ring : List (Point2 ℝ)} {σ : ℝ} (hσ : 0 < σ) (h : Ring.OnHand ring σ)
    (hnodup : ring.Nodup) (hthree : 3 ≤ ring.length) {eps : ℝ} (heps : 0 < eps) (z : ℝ)
    {t : Point2 ℝ × Point2 ℝ × Point2 ℝ} (ht : t ∈ ringTriples ring) :
    Ring.inside ring (beside eps z t.1 t.2.1 t.2.2).plan = false := by
  obtain ⟨p, hp⟩ := h.exists_amidst hnodup hthree
  obtain ⟨hne, hopen⟩ := openAngle_pos_of_onHand h hp ht
  have hright := side_beside_neg heps z hne hopen
  exact Ring.inside_eq_false_of_beyond (fun v hv => h.nonneg (edges_of_mem_ringTriples ht).1 hv)
    (mul_neg_of_pos_of_neg hσ hright)

/-- The plan and the closed footprint have the same inside. -/
theorem IsMade.inside_footprint {K : Type} [ExactScalar K] {b : Building K} (h : b.IsMade)
    (p : Point2 K) : Ring.inside (b.footprint.map Point3.plan) p = b.plan.inside p := by
  rw [h.map_plan, Polygon.inside]
  cases b.plan.ring with
  | nil => rfl
  | cons v l => exact Ring.inside_eq_of_winding (Ring.winding_closed v l p)

/-- **Corner points are outside.** If the footprint of a building is strictly convex, whichever
    way round it was given and from whichever corner, then none of the points beside its corners
    is inside, neither of the plan nor of the closed footprint. -/
theorem cornerPoints_outside {b : Building ℝ} (hmade : b.IsMade)
    (hconvex : Ring.IsStrictlyConvex b.plan.ring) {eps : ℝ} (heps : 0 < eps)
    (least greatest : ℝ) : ∀ p ∈ b.cornerPoints least greatest eps,
      b.plan.inside p.plan = false ∧
        Ring.inside (b.footprint.map Point3.plan) p.plan = false := by
  intro p hp
  rw [hmade.inside_footprint, and_self, Polygon.inside, ← Ring.inside_counterClockwise]
  obtain ⟨hnodup, hthree, σ, hσ, hleft⟩ := hconvex.exists_left hmade.isTidy.three_le
  rw [cornerPoints_eq hmade] at hp
  -- The point that closes the list is one of the others.
  have hrow := (List.mem_append.mp hp).elim id fun h =>
    List.mem_of_mem_head? (Option.mem_toList.mp h)
  obtain ⟨t, ht, rfl⟩ := List.mem_map.mp hrow
  exact inside_beside hσ hleft hnodup hthree heps _ (List.mem_of_mem_filter ht)

/-- A footprint with four corners, given clockwise. -/
theorem cornerPoints_outside_clockwise : ∃ b : Building ℝ, b.IsMade ∧
    b.plan.ring = [⟨0, 0⟩, ⟨0, 4⟩, ⟨3, 3⟩, ⟨4, 0⟩] ∧ Ring.IsStrictlyConvex b.plan.ring ∧
    ∀ p ∈ b.cornerPoints 0 (2 * Real.pi) 1, b.plan.inside p.plan = false := by
  have htidy : Polygon.IsTidy ([⟨0, 0⟩, ⟨0, 4⟩, ⟨3, 3⟩, ⟨4, 0⟩] : List (Point2 ℝ)) := by
    exact ⟨by simp, fun p _ => p.hasNaN_eq_false, by simp [ringEdges, pathEdges]⟩
  obtain ⟨b, hmade, hplan⟩ := exists_isMade htidy
  have hconvex : Ring.IsStrictlyConvex b.plan.ring := by
    rw [hplan]
    refine ⟨by simp, -1, ?_⟩
    norm_num [Ring.OnHand, ringEdges, pathEdges, Ring.side_eq]
  refine ⟨b, hmade, hplan, hconvex, fun p hp => ?_⟩
  exact (cornerPoints_outside hmade hconvex one_pos 0 (2 * Real.pi) p hp).1

end Building

end SiteSection
