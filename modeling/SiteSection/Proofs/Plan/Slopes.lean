import SiteSection.Proofs.Plan.Closest

/-! # Elevations beside a segment

  The elevation of a segment at a location goes by the distance of the location from the first
  end. On the segment that is how far the place is along it. Beside the segment the distance is
  the longest side of a right triangle: it is more than how far the location projects along the
  segment, by no more than the location is beside it.

  So beside a sloping segment the elevation is not that of the nearest place. A location up to
  some tolerance beside a side of a triangle gets an elevation that is off by the slope of the
  side over that tolerance, or less.
-/

namespace SiteSection

variable {K : Type} [ExactScalar K]

/-- The longest side of a right triangle is between one of the others and their sum. -/
theorem le_longest_side {a b c : K} (ha : 0 ≤ a) (hb : 0 ≤ b) (hc : 0 ≤ c)
    (h : c * c = a * a + b * b) : a ≤ c ∧ c ≤ a + b := by
  constructor
  · rw [mul_self_le_mul_self_iff ha hc, h]
    exact le_add_of_nonneg_right (mul_self_nonneg b)
  · rw [mul_self_le_mul_self_iff hc (add_nonneg ha hb), h]
    linarith [mul_nonneg ha hb]

namespace Segment

variable {s : Segment K} {p : Point2 K}

/-- What projects onto the segment is nearest to the place that it projects to. -/
theorem nearest_of_project_mem (h0 : 0 ≤ s.project p) (h1 : s.project p ≤ 1) :
    s.nearest p = s.pointAt (s.project p) := by
  rw [nearest, Scalar.clampUnit_of_mem h0 h1]

section
variable (hlength : 0 < s.planLength)
include hlength

theorem sqLength_ne_zero_of_planLength : s.sqLength ≠ 0 := by
  intro hzero
  have hnone : s.planLength = 0 := s.planLength_eq.trans (Point2.norm_eq_zero.mpr hzero)
  exact hlength.ne' hnone

/-- The way along the segment and the way beside it make a right triangle. -/
theorem dist_p0_mul_self (p : Point2 K) :
    s.p0.plan.dist p * s.p0.plan.dist p =
      s.project p * s.planLength * (s.project p * s.planLength) +
        (s.pointAt (s.project p)).plan.dist p * (s.pointAt (s.project p)).plan.dist p := by
  have hsq := s.sqDist_pointAt (sqLength_ne_zero_of_planLength hlength) p 0 (s.project p)
  have hnorm : s.planLength * s.planLength = s.sqLength := by
    rw [planLength_eq]
    exact s.dir.norm_mul_self
  rw [pointAt_plan_zero] at hsq
  simp only [Point2.dist, Point2.norm_mul_self]
  linear_combination hsq - s.project p * s.project p * hnorm

variable (h0 : 0 ≤ s.project p) (h1 : s.project p ≤ 1)
include h0 h1

/-- A location is further from the first end than the place that it projects to, by no more than
    it is beside the segment, and as far only if it is that place. -/
theorem dist_p0_bounds : s.project p * s.planLength ≤ s.p0.plan.dist p ∧
    s.p0.plan.dist p ≤ s.project p * s.planLength + s.distTo p ∧
      (s.p0.plan.dist p = s.project p * s.planLength ↔ s.On p) := by
  have htriangle := dist_p0_mul_self hlength p
  rw [← nearest_of_project_mem h0 h1, ← distTo] at htriangle
  have hbeside : 0 ≤ s.distTo p := Point2.norm_nonneg _
  obtain ⟨hlow, hhigh⟩ := le_longest_side (mul_nonneg h0 hlength.le) hbeside
    (Point2.norm_nonneg (s.p0.plan - p)) htriangle
  refine ⟨hlow, hhigh, ?_⟩
  rw [← s.distTo_eq_zero]
  constructor
  · intro heq
    rw [heq] at htriangle
    exact mul_self_eq_zero.mp (by linarith)
  · intro hzero
    rw [hzero, add_zero] at hhigh
    exact le_antisymm hhigh hlow

/-- How far the elevation is above that of the nearest place. -/
theorem elevation_sub_nearest : s.elevation p - (s.nearest p).z =
    (s.p1.z - s.p0.z) * ((s.p0.plan.dist p - s.project p * s.planLength) / s.planLength) := by
  rw [planLength_eq] at hlength ⊢
  rw [s.elevation_eq hlength, nearest_of_project_mem h0 h1, pointAt_z]
  field_simp
  ring

/-- **Elevations beside a segment.** Where a location projects onto a segment with a length, the
    nearest place is the one that it projects to. The elevation is that of the nearest place if,
    and only if, the segment is level or the location is on it; else it is off by the slope over
    the distance from the segment, or less. -/
theorem elevation_beside : s.nearest p = s.pointAt (s.project p) ∧
    (s.elevation p = (s.nearest p).z ↔ s.p0.z = s.p1.z ∨ s.On p) ∧
      |s.elevation p - (s.nearest p).z| ≤ |s.p1.z - s.p0.z| * (s.distTo p / s.planLength) := by
  obtain ⟨hlow, hhigh, hon⟩ := dist_p0_bounds hlength h0 h1
  have hoff := elevation_sub_nearest hlength h0 h1
  refine ⟨nearest_of_project_mem h0 h1, ?_, ?_⟩
  · rw [← sub_eq_zero, hoff, mul_eq_zero, div_eq_zero_iff, or_iff_left hlength.ne', sub_eq_zero,
      sub_eq_zero, hon, eq_comm]
  · have hnonneg : 0 ≤ (s.p0.plan.dist p - s.project p * s.planLength) / s.planLength :=
      div_nonneg (sub_nonneg.mpr hlow) hlength.le
    rw [hoff, abs_mul, abs_of_nonneg hnonneg]
    gcongr
    linarith

end

/-- A segment that rises by ten over a length of ten. Three beside the place at four the distance
    from the first end is five, and so is the elevation. -/
theorem elevation_beside_rising : ∃ s : Segment ℝ, s = ⟨⟨0, 0, 0⟩, ⟨10, 0, 10⟩⟩ ∧
    0 < s.planLength ∧ 0 ≤ s.project ⟨4, 3⟩ ∧ s.project ⟨4, 3⟩ ≤ 1 ∧
    s.nearest ⟨4, 3⟩ = ⟨4, 0, 4⟩ ∧ s.elevation ⟨4, 3⟩ ≠ (s.nearest ⟨4, 3⟩).z := by
  set s : Segment ℝ := ⟨⟨0, 0, 0⟩, ⟨10, 0, 10⟩⟩ with hs
  have hlength : s.planLength = 10 :=
    s.planLength_eq_of_mul_self (by norm_num) (by norm_num [Point2.normSq, hs])
  have hpos : 0 < s.planLength := by
    rw [hlength]
    norm_num
  have hproject : s.project ⟨4, 3⟩ = 2 / 5 := by
    rw [project_eq s (sqLength_ne_zero_of_planLength hpos)]
    norm_num [hs, sqLength]
  have h0 : 0 ≤ s.project ⟨4, 3⟩ := by
    rw [hproject]
    norm_num
  have h1 : s.project ⟨4, 3⟩ ≤ 1 := by
    rw [hproject]
    norm_num
  obtain ⟨hnearest, helevation, -⟩ := elevation_beside hpos h0 h1
  refine ⟨s, rfl, hpos, h0, h1, ?_, ?_⟩
  · rw [hnearest, hproject]
    ext
    · norm_num [hs]
    · norm_num [hs]
    · norm_num [hs, pointAt_z]
  · rw [Ne, helevation]
    rintro (hlevel | ⟨t, -, -, hplace⟩)
    · norm_num [hs] at hlevel
    · have hy := congrArg Point2.y hplace
      norm_num [hs] at hy

end Segment

end SiteSection
