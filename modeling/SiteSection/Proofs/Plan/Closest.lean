import SiteSection.Proofs.Plan.Meeting

/-! # The closest places of two segments

  Along a segment the square of the distance from a location is quadratic in the parameter, so
  the clamped projection is the nearest place.

  Segments without a common place have an end in a closest pair. Take any pair of places, and a
  pair of places of the two lines that are no further apart, one of them beyond its segment:
  where the lines cross it is the crossing, and on parallel lines the pair moved alongside. From
  the first pair to the second the distance is nowhere greater than at the start, and on the way
  one of the two places comes to an end of its segment while the other is still on its own.
-/

namespace SiteSection

variable {K : Type} [ExactScalar K]

/-- Distances are compared by their squares. -/
theorem Point2.dist_le_dist_iff {p q p' q' : Point2 K} :
    p.dist q ≤ p'.dist q' ↔ (p - q).normSq ≤ (p' - q').normSq := by
  unfold dist
  rw [← norm_mul_self (p - q), ← norm_mul_self (p' - q')]
  exact mul_self_le_mul_self_iff (norm_nonneg _) (norm_nonneg _)

namespace Segment

variable (s o : Segment K) {p q : Point2 K} {t u t' u' v : K}

/-! ## The nearest place -/

theorem sqLength_nonneg : 0 ≤ s.sqLength := s.dir.normSq_nonneg

/-- Along the segment the square of the distance to a location is a quadratic function. -/
theorem sqDist_pointAt (h : s.sqLength ≠ 0) (p : Point2 K) (t c : K) :
    ((s.pointAt t).plan - p).normSq = ((s.pointAt c).plan - p).normSq +
      (t - c) * (t + c - 2 * s.project p) * s.sqLength := by
  have hproject := s.project_eq h p
  rw [eq_div_iff h] at hproject
  simp only [sqLength, dir_x, dir_y] at hproject ⊢
  simp only [Point2.normSq, Point2.sub_x, Point2.sub_y, Point3.plan_x, Point3.plan_y, pointAt_x,
    pointAt_y]
  linear_combination (2 * (t - c)) * hproject

/-- No place of a segment is nearer than the nearest. -/
theorem nearest_le (hq : s.On q) : (s.nearest p).plan.dist p ≤ q.dist p := by
  obtain ⟨t, ht, ht', rfl⟩ := hq
  unfold nearest
  rw [Point2.dist_le_dist_iff]
  by_cases h : s.sqLength = 0
  · rw [s.pointAt_plan_of_sqLength_eq_zero h, s.pointAt_plan_of_sqLength_eq_zero h]
  · rw [s.sqDist_pointAt h p t (Scalar.clampUnit (s.project p))]
    have hmore := Scalar.sub_clampUnit_mul_nonneg (c := s.project p) ht ht'
    exact le_add_of_nonneg_right (mul_nonneg hmore s.sqLength_nonneg)

/-! ## Moving until an end is reached -/

/-- A parameter that moves from `[0, 1]` at a constant rate stays there until it stops, at an
    end or where it was to go. -/
theorem exists_stop (ht : 0 ≤ t) (ht' : t ≤ 1) (t' : K) :
    ∃ v, (0 ≤ v ∧ v ≤ 1) ∧
      (∀ w, 0 ≤ w → w ≤ v → 0 ≤ t + (t' - t) * w ∧ t + (t' - t) * w ≤ 1) ∧
      (t + (t' - t) * v = 0 ∨ t + (t' - t) * v = 1 ∨ v = 1) := by
  by_cases hlow : t' < 0
  · have hpos : 0 < t - t' := by linarith
    have hstop : t + (t' - t) * (t / (t - t')) = 0 := by
      field_simp
      ring
    refine ⟨t / (t - t'), ⟨div_nonneg ht hpos.le, (div_le_one hpos).mpr (by linarith)⟩, ?_,
      .inl hstop⟩
    intro w hw hwv
    have hback := mul_le_mul_of_nonneg_left hwv hpos.le
    have hsome := mul_nonneg hpos.le hw
    constructor
    · linarith
    · linarith
  · by_cases hhigh : 1 < t'
    · have hpos : 0 < t' - t := by linarith
      have hstop : t + (t' - t) * ((1 - t) / (t' - t)) = 1 := by
        field_simp
        ring
      refine ⟨(1 - t) / (t' - t), ⟨div_nonneg (by linarith) hpos.le,
        (div_le_one hpos).mpr (by linarith)⟩, ?_, .inr (.inl hstop)⟩
      intro w hw hwv
      have hon := mul_le_mul_of_nonneg_left hwv hpos.le
      have hsome := mul_nonneg hpos.le hw
      constructor
      · linarith
      · linarith
    · refine ⟨1, ⟨zero_le_one, le_refl 1⟩, ?_, .inr (.inr rfl)⟩
      intro w hw hw'
      -- A mean of two numbers of `[0, 1]`.
      have hmean : t + (t' - t) * w = t * (1 - w) + t' * w := by ring
      have hrest : 0 ≤ 1 - w := sub_nonneg.mpr hw'
      rw [hmean]
      constructor
      · exact add_nonneg (mul_nonneg ht hrest) (mul_nonneg (not_lt.mp hlow) hw)
      · have h := mul_le_mul_of_nonneg_right ht' hrest
        have h' := mul_le_mul_of_nonneg_right (not_lt.mp hhigh) hw
        linarith

/-- Of two parameters that move from `[0, 1]`, and not both to a place there, one is at an end
    at a time when both are still in `[0, 1]`. -/
theorem exists_first_stop (ht : 0 ≤ t ∧ t ≤ 1) (hu : 0 ≤ u ∧ u ≤ 1)
    (hout : ¬ ((0 ≤ t' ∧ t' ≤ 1) ∧ 0 ≤ u' ∧ u' ≤ 1)) :
    ∃ v, (0 ≤ v ∧ v ≤ 1) ∧ (0 ≤ t + (t' - t) * v ∧ t + (t' - t) * v ≤ 1) ∧
      (0 ≤ u + (u' - u) * v ∧ u + (u' - u) * v ≤ 1) ∧
      ((t + (t' - t) * v = 0 ∨ t + (t' - t) * v = 1) ∨
        u + (u' - u) * v = 0 ∨ u + (u' - u) * v = 1) := by
  obtain ⟨v, hv, hstay, hstop⟩ := exists_stop ht.1 ht.2 t'
  obtain ⟨w, hw, hstay', hstop'⟩ := exists_stop hu.1 hu.2 u'
  have harrive : ¬ (v = 1 ∧ w = 1) := by
    intro ⟨hv1, hw1⟩
    have h := hstay 1 zero_le_one hv1.ge
    have h' := hstay' 1 zero_le_one hw1.ge
    rw [mul_one, add_sub_cancel] at h h'
    exact hout ⟨h, h'⟩
  -- The one that stops first is at an end, or both would have arrived.
  rcases le_total v w with hvw | hwv
  · refine ⟨v, hv, hstay v hv.1 le_rfl, hstay' v hv.1 hvw, ?_⟩
    rcases hstop with h | h | h
    · exact .inl (.inl h)
    · exact .inl (.inr h)
    · exact absurd ⟨h, le_antisymm hw.2 (h ▸ hvw)⟩ harrive
  · refine ⟨w, hw, hstay w hw.1 hwv, hstay' w hw.1 le_rfl, ?_⟩
    rcases hstop' with h | h | h
    · exact .inr (.inl h)
    · exact .inr (.inr h)
    · exact absurd ⟨le_antisymm hv.2 (h ▸ hwv), h⟩ harrive

/-- From a place of the second line to one of the first. -/
def span (t u : K) : Point2 K := (s.pointAt t).plan - (o.pointAt u).plan

/-- Between two pairs of places the distance is nowhere greater than at the further pair. -/
theorem span_normSq_le (hv : 0 ≤ v) (hv' : v ≤ 1)
    (h : (s.span o t' u').normSq ≤ (s.span o t u).normSq) :
    (s.span o (t + (t' - t) * v) (u + (u' - u) * v)).normSq ≤ (s.span o t u).normSq := by
  have hbetween : (s.span o (t + (t' - t) * v) (u + (u' - u) * v)).normSq =
      (s.span o t u).normSq - v * ((s.span o t u).normSq - (s.span o t' u').normSq) -
        v * (1 - v) * (s.span o t' u' - s.span o t u).normSq := by
    simp only [span, Point2.normSq, Point2.sub_x, Point2.sub_y, Point3.plan_x, Point3.plan_y,
      pointAt_x, pointAt_y]
    ring
  have hcloser := mul_nonneg hv (sub_nonneg.mpr h)
  have hconvex := mul_nonneg (mul_nonneg hv (sub_nonneg.mpr hv'))
    (s.span o t' u' - s.span o t u).normSq_nonneg
  rw [hbetween]
  linarith

/-- Segments apart leave to every pair of places another one on their lines, no further apart,
    that is not on both. -/
theorem exists_span_beyond (h : s.Apart o) (t u : K) :
    ∃ t' u', ¬ ((0 ≤ t' ∧ t' ≤ 1) ∧ 0 ≤ u' ∧ u' ≤ 1) ∧
      (s.span o t' u').normSq ≤ (s.span o t u).normSq := by
  by_cases hcross : s.dir.cross o.dir = 0
  · by_cases hs : s.sqLength = 0
    · -- The first segment is a single place.
      refine ⟨2, u, fun hin => ?_, le_of_eq ?_⟩
      · linarith [hin.1.2]
      · unfold span
        rw [s.pointAt_plan_of_sqLength_eq_zero hs, s.pointAt_plan_of_sqLength_eq_zero hs]
    · -- On parallel lines the pair is moved alongside, as far as the second segment goes twice.
      let k := (o.dir.x * s.dir.x + o.dir.y * s.dir.y) / s.sqLength
      have hk : k * s.sqLength = o.dir.x * s.dir.x + o.dir.y * s.dir.y := div_mul_cancel₀ _ hs
      have hx : o.dir.x = k * s.dir.x := by
        refine mul_right_cancel₀ hs ?_
        simp only [Point2.cross, sqLength] at hcross hk ⊢
        linear_combination (-s.dir.x) * hk - s.dir.y * hcross
      have hy : o.dir.y = k * s.dir.y := by
        refine mul_right_cancel₀ hs ?_
        simp only [Point2.cross, sqLength] at hcross hk ⊢
        linear_combination (-s.dir.y) * hk + s.dir.x * hcross
      refine ⟨t + k * (2 - u), 2, fun hin => ?_, le_of_eq (congrArg Point2.normSq ?_)⟩
      · linarith [hin.2.2]
      · simp only [dir_x, dir_y] at hx hy
        ext
        · simp only [span, Point2.sub_x, Point3.plan_x, pointAt_x]
          linear_combination (u - 2) * hx
        · simp only [span, Point2.sub_y, Point3.plan_y, pointAt_y]
          linear_combination (u - 2) * hy
  · -- Where the lines cross is not on both segments.
    have hmeet := (s.pointAt_eq_pointAt_iff o hcross).mpr ⟨rfl, rfl⟩
    refine ⟨_, _, fun hin => h.ne _ hin.1 hin.2 hmeet, ?_⟩
    have hzero : ∀ {x y : Point2 K}, x = y → (x - y).normSq = 0 := by
      intro x y hxy
      simp [hxy, Point2.normSq]
    unfold span
    rw [hzero hmeet]
    exact Point2.normSq_nonneg _

/-! ## The closest places -/

/-- From an end of the first segment, the nearest place is no further than any other. -/
theorem exists_endPair_of_first (hp : s.p0.plan = p ∨ s.p1.plan = p) (hq : o.On q) :
    ∃ c ∈ s.endPairs o, c.1.plan.dist c.2.plan ≤ p.dist q := by
  rcases hp with hp | hp
  · subst hp
    refine ⟨(s.p0, o.nearest s.p0.plan), by simp [endPairs], ?_⟩
    rw [Point2.dist_comm s.p0.plan q, Point2.dist_comm]
    exact o.nearest_le hq
  · subst hp
    refine ⟨(s.p1, o.nearest s.p1.plan), by simp [endPairs], ?_⟩
    rw [Point2.dist_comm s.p1.plan q, Point2.dist_comm]
    exact o.nearest_le hq

/-- To an end of the second segment, the nearest place is no further than any other. -/
theorem exists_endPair_of_second (hp : s.On p) (hq : o.p0.plan = q ∨ o.p1.plan = q) :
    ∃ c ∈ s.endPairs o, c.1.plan.dist c.2.plan ≤ p.dist q := by
  rcases hq with hq | hq
  · subst hq
    exact ⟨(s.nearest o.p0.plan, o.p0), by simp [endPairs], s.nearest_le hp⟩
  · subst hq
    exact ⟨(s.nearest o.p1.plan, o.p1), by simp [endPairs], s.nearest_le hp⟩

/-- Some pair with an end is no further apart than any two places of segments apart. -/
theorem exists_endPair_le (h : s.Apart o) (hp : s.On p) (hq : o.On q) :
    ∃ c ∈ s.endPairs o, c.1.plan.dist c.2.plan ≤ p.dist q := by
  obtain ⟨t, ht, ht', rfl⟩ := hp
  obtain ⟨u, hu, hu', rfl⟩ := hq
  obtain ⟨t', u', hout, hle⟩ := s.exists_span_beyond o h t u
  obtain ⟨v, hv, hT, hU, hend⟩ := exists_first_stop ⟨ht, ht'⟩ ⟨hu, hu'⟩ hout
  have hmoved := Point2.dist_le_dist_iff.mpr (s.span_normSq_le o hv.1 hv.2 hle)
  have hfirst := s.on_pointAt hT.1 hT.2
  have hsecond := o.on_pointAt hU.1 hU.2
  set T := t + (t' - t) * v
  set U := u + (u' - u) * v
  have hpair : ∃ c ∈ s.endPairs o,
      c.1.plan.dist c.2.plan ≤ (s.pointAt T).plan.dist (o.pointAt U).plan := by
    rcases hend with (hend | hend) | hend | hend
    · exact s.exists_endPair_of_first o (.inl (by rw [hend, pointAt_zero])) hsecond
    · exact s.exists_endPair_of_first o (.inr (by rw [hend, pointAt_one])) hsecond
    · exact s.exists_endPair_of_second o hfirst (.inl (by rw [hend, pointAt_zero]))
    · exact s.exists_endPair_of_second o hfirst (.inr (by rw [hend, pointAt_one]))
  obtain ⟨c, hc, hle⟩ := hpair
  exact ⟨c, hc, hle.trans hmoved⟩

/-- The closest places of two segments have no distance exactly if the segments meet. -/
theorem dist_closestPoints_eq_zero :
    (s.closestPoints o).1.plan.dist (s.closestPoints o).2.plan = 0 ↔ ∃ p, s.On p ∧ o.On p := by
  constructor
  · intro hzero
    obtain ⟨hfirst, hsecond⟩ := s.on_closestPoints o
    exact ⟨_, hfirst, (Point2.dist_eq_zero.mp hzero) ▸ hsecond⟩
  · intro ⟨p, hp, hp'⟩
    obtain ⟨x, hx⟩ := s.exists_intersect? o hp hp'
    obtain ⟨hfirst, hsecond⟩ := s.closestPoints_of_intersect? o hx
    rw [hfirst, hsecond]
    exact Point2.dist_eq_zero.mpr rfl

/-- No two places of two segments are closer than the closest. -/
theorem dist_closestPoints_le (hp : s.On p) (hq : o.On q) :
    (s.closestPoints o).1.plan.dist (s.closestPoints o).2.plan ≤ p.dist q := by
  by_cases hmeet : ∃ y, s.On y ∧ o.On y
  · rw [(s.dist_closestPoints_eq_zero o).mpr hmeet]
    exact Point2.norm_nonneg (p - q)
  · have hapart : s.Apart o := fun y hy hy' => hmeet ⟨y, hy, hy'⟩
    have hnone : s.intersect? o = none := by
      rw [← Option.not_isSome_iff_eq_none, isSome_intersect?_iff]
      exact hmeet
    obtain ⟨c, hc, hle⟩ := s.exists_endPair_le o hapart hp hq
    exact ((s.closestPoints_of_not_meet o hnone).2 c hc).trans hle

/-- **Closest places.** The closest places of two segments are a point of each of them, no two
    places of the segments are closer, and their distance is zero exactly if the segments meet.
    The nearest place to a location is one of the segment, and none of it is nearer. -/
theorem closestPoints_closest :
    (∃ t u, (0 ≤ t ∧ t ≤ 1) ∧ (0 ≤ u ∧ u ≤ 1) ∧
      s.closestPoints o = (s.pointAt t, o.pointAt u)) ∧
    (∀ p q, s.On p → o.On q →
      (s.closestPoints o).1.plan.dist (s.closestPoints o).2.plan ≤ p.dist q) ∧
    (∀ p, s.On (s.nearest p).plan ∧ ∀ q, s.On q → (s.nearest p).plan.dist p ≤ q.dist p) ∧
    ((s.closestPoints o).1.plan.dist (s.closestPoints o).2.plan = 0 ↔
      ∃ p, s.On p ∧ o.On p) := by
  refine ⟨s.closestPoints_eq_pointAt o, ?_, ?_, s.dist_closestPoints_eq_zero o⟩
  · intro p q hp hq
    exact s.dist_closestPoints_le o hp hq
  · intro p
    exact ⟨s.on_nearest p, fun q hq => s.nearest_le hq⟩

/-- A way that begins to the north of the one to the east. -/
noncomputable def aside : Segment ℝ := ⟨⟨5, 1, 0⟩, ⟨5, 5, 0⟩⟩

/-- Two ways that do not meet have closest places one apart at most, and not at one place. -/
theorem closestPoints_closest_aside :
    eastward.On ⟨5, 0⟩ ∧ aside.On ⟨5, 1⟩ ∧ (∀ p, eastward.On p → ¬ aside.On p) ∧
      (eastward.closestPoints aside).1.plan.dist (eastward.closestPoints aside).2.plan ≤
        (⟨5, 0⟩ : Point2 ℝ).dist ⟨5, 1⟩ ∧
      (eastward.closestPoints aside).1.plan.dist (eastward.closestPoints aside).2.plan ≠ 0 := by
  have heast : eastward.On ⟨5, 0⟩ := by
    refine ⟨1 / 2, by norm_num, by norm_num, ?_⟩
    ext <;> norm_num [eastward]
  have haside : aside.On ⟨5, 1⟩ := aside.on_p0
  have hapart : ∀ p, eastward.On p → ¬ aside.On p := by
    intro p hp hp'
    obtain ⟨t, _, _, ht⟩ := hp
    obtain ⟨u, hu, _, hut⟩ := hp'
    -- The one is at height zero, the other at one and above.
    have hy := congrArg Point2.y (ht.trans hut.symm)
    norm_num [eastward, aside] at hy
    linarith
  obtain ⟨-, hle, -, hzero⟩ := closestPoints_closest eastward aside
  refine ⟨heast, haside, hapart, hle _ _ heast haside, fun h => ?_⟩
  obtain ⟨p, hp, hp'⟩ := hzero.mp h
  exact hapart p hp hp'

end Segment

end SiteSection
