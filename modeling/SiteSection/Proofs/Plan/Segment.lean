import Mathlib.Tactic.FieldSimp
import Mathlib.Tactic.LinearCombination
import Mathlib.Tactic.Positivity
import SiteSection.Proofs.Numbers.ExactScalar
import SiteSection.Segment

/-! # Segments in exact arithmetic

  The plan points of a segment, the parameter at which each of them stands, and distances
  along the segment.
-/

namespace SiteSection

attribute [ext] Point2 Point3

variable {K : Type} [ExactScalar K]

/-! ## Points -/

theorem Point2.beq_eq_true {p q : Point2 K} : (p == q) = true ↔ p = q := by
  have h : (p == q) = (p.x == q.x && p.y == q.y) := rfl
  rw [h, Bool.and_eq_true, beq_iff_eq, beq_iff_eq, Point2.ext_iff]

instance : LawfulBEq (Point2 K) where
  eq_of_beq := fun h => Point2.beq_eq_true.mp h
  rfl := Point2.beq_eq_true.mpr rfl

/-- Every corner is defined. -/
theorem Point2.hasNaN_eq_false (p : Point2 K) : Coordinates.hasNaN p = false := by
  simp [Coordinates.hasNaN, Coordinates.toList]

theorem Point3.dot_eq (v w : Point3 K) :
    Coordinates.dot v w = v.x * w.x + v.y * w.y + v.z * w.z := by
  simp [Coordinates.dot, Coordinates.toList, Coordinates.zipWith, Scalar.sum]

namespace Point2

/-- The square of the length of a plan vector. -/
def normSq (v : Point2 K) : K := v.x * v.x + v.y * v.y

theorem normSq_nonneg (v : Point2 K) : 0 ≤ v.normSq :=
  add_nonneg (mul_self_nonneg v.x) (mul_self_nonneg v.y)

theorem normSq_eq_zero {v : Point2 K} : v.normSq = 0 ↔ v.x = 0 ∧ v.y = 0 :=
  mul_self_add_mul_self_eq_zero

theorem norm_eq_sqrt (v : Point2 K) : Coordinates.norm v = Scalar.sqrt v.normSq := by
  simp [Coordinates.norm, Coordinates.toList, Scalar.sum, normSq]

theorem norm_nonneg (v : Point2 K) : 0 ≤ Coordinates.norm v := by
  rw [norm_eq_sqrt]
  exact ExactScalar.sqrt_nonneg _

theorem norm_mul_self (v : Point2 K) : Coordinates.norm v * Coordinates.norm v = v.normSq := by
  rw [norm_eq_sqrt]
  exact ExactScalar.sqrt_mul_self _ v.normSq_nonneg

theorem norm_eq_zero {v : Point2 K} : Coordinates.norm v = 0 ↔ v.normSq = 0 := by
  rw [norm_eq_sqrt]
  exact Scalar.sqrt_eq_zero v.normSq_nonneg

/-- A length is known by its square. -/
theorem norm_eq_of_mul_self {v : Point2 K} {l : K} (h : 0 ≤ l) (hl : v.normSq = l * l) :
    Coordinates.norm v = l :=
  (mul_self_inj v.norm_nonneg h).mp (v.norm_mul_self.trans hl)

theorem dist_comm (p q : Point2 K) : p.dist q = q.dist p := by
  have hsq : (p - q).normSq = (q - p).normSq := by
    simp only [normSq, sub_x, sub_y]
    ring
  rw [dist, dist, norm_eq_sqrt, norm_eq_sqrt, hsq]

/-- Distances are not less than differences of coordinates. -/
theorem abs_sub_le_dist (p q : Point2 K) : |p.x - q.x| ≤ p.dist q ∧ |p.y - q.y| ≤ p.dist q := by
  have hsq : p.dist q * p.dist q = (p.x - q.x) * (p.x - q.x) + (p.y - q.y) * (p.y - q.y) :=
    norm_mul_self (p - q)
  have hnonneg : 0 ≤ p.dist q := norm_nonneg (p - q)
  constructor
  · rw [← abs_of_nonneg hnonneg, abs_le_iff_mul_self_le, hsq]
    exact le_add_of_nonneg_right (mul_self_nonneg _)
  · rw [← abs_of_nonneg hnonneg, abs_le_iff_mul_self_le, hsq]
    exact le_add_of_nonneg_left (mul_self_nonneg _)

theorem dist_eq_zero {p q : Point2 K} : p.dist q = 0 ↔ p = q := by
  rw [dist, norm_eq_zero, normSq_eq_zero, Point2.ext_iff, sub_x, sub_y, sub_eq_zero, sub_eq_zero]

end Point2

namespace Segment

variable (s : Segment K) {p q y : Point2 K} {t u : K}

/-! ## Places on a segment -/

@[simp] theorem dir_x : s.dir.x = s.p1.x - s.p0.x := rfl
@[simp] theorem dir_y : s.dir.y = s.p1.y - s.p0.y := rfl

@[simp] theorem pointAt_x (t : K) : (s.pointAt t).x = s.p0.x + (s.p1.x - s.p0.x) * t := rfl
@[simp] theorem pointAt_y (t : K) : (s.pointAt t).y = s.p0.y + (s.p1.y - s.p0.y) * t := rfl

theorem pointAt_z (t : K) : (s.pointAt t).z = s.p0.z + (s.p1.z - s.p0.z) * t := rfl

theorem pointAt_zero : s.pointAt 0 = s.p0 := by
  ext <;> simp [pointAt_z]

theorem pointAt_one : s.pointAt 1 = s.p1 := by
  ext <;> simp [pointAt_z]

@[simp] theorem pointAt_plan_zero : (s.pointAt 0).plan = s.p0.plan := by
  rw [pointAt_zero]

@[simp] theorem pointAt_plan_one : (s.pointAt 1).plan = s.p1.plan := by
  rw [pointAt_one]

/-- Is a plan location on the segment, ends included? -/
def On (p : Point2 K) : Prop := ∃ t, 0 ≤ t ∧ t ≤ 1 ∧ (s.pointAt t).plan = p

theorem on_pointAt (h : 0 ≤ t) (h' : t ≤ 1) : s.On (s.pointAt t).plan := ⟨t, h, h', rfl⟩

theorem on_p0 : s.On s.p0.plan := ⟨0, le_refl 0, zero_le_one, s.pointAt_plan_zero⟩

theorem on_p1 : s.On s.p1.plan := ⟨1, zero_le_one, le_refl 1, s.pointAt_plan_one⟩

theorem on_nearest (p : Point2 K) : s.On (s.nearest p).plan :=
  s.on_pointAt (Scalar.clampUnit_mem _).1 (Scalar.clampUnit_mem _).2

/-- The segments have no common place. -/
def Apart (o : Segment K) : Prop := ∀ y, s.On y → ¬ o.On y

theorem Apart.symm {o : Segment K} (h : s.Apart o) : o.Apart s := fun y hy hy' => h y hy' hy

/-- Places of one location would be common. -/
theorem Apart.ne {o : Segment K} (h : s.Apart o) (ht : 0 ≤ t ∧ t ≤ 1) (hu : 0 ≤ u ∧ u ≤ 1) :
    (s.pointAt t).plan ≠ (o.pointAt u).plan := fun heq =>
  h _ (s.on_pointAt ht.1 ht.2) (heq ▸ o.on_pointAt hu.1 hu.2)

/-! ## Projection -/

/-- A segment without plan length is a single plan location. -/
theorem pointAt_plan_of_sqLength_eq_zero (h : s.sqLength = 0) (t : K) :
    (s.pointAt t).plan = s.p0.plan := by
  have hdir : s.p1.x - s.p0.x = 0 ∧ s.p1.y - s.p0.y = 0 := Point2.normSq_eq_zero.mp h
  ext
  · simp [hdir.1]
  · simp [hdir.2]

theorem project_of_sqLength_eq_zero (h : s.sqLength = 0) (p : Point2 K) : s.project p = 0 := by
  simp [project, h]

theorem project_eq (h : s.sqLength ≠ 0) (p : Point2 K) :
    s.project p = ((p.x - s.p0.x) * s.dir.x + (p.y - s.p0.y) * s.dir.y) / s.sqLength := by
  simp [project, h]

/-- The place at a parameter projects to that parameter. -/
theorem project_pointAt (h : s.sqLength ≠ 0) (t : K) : s.project (s.pointAt t).plan = t := by
  rw [project_eq s h, div_eq_iff h]
  simp only [Point3.plan_x, Point3.plan_y, pointAt_x, pointAt_y, sqLength, dir_x, dir_y]
  ring

/-- Projection is affine. -/
theorem project_pointAt_of (o : Segment K) (u : K) :
    s.project (o.pointAt u).plan =
      s.project o.p0.plan + (s.project o.p1.plan - s.project o.p0.plan) * u := by
  by_cases h : s.sqLength = 0
  · simp [project_of_sqLength_eq_zero s h]
  · simp only [project_eq s h, Point3.plan_x, Point3.plan_y, pointAt_x, pointAt_y]
    field_simp
    ring

/-- A location on the line of a segment is where it projects to. -/
theorem pointAt_project_of_side (h : s.sqLength ≠ 0)
    (hp : (p - s.p0.plan).cross s.dir = 0) : (s.pointAt (s.project p)).plan = p := by
  simp only [Point2.cross, Point2.sub_x, Point2.sub_y, Point3.plan_x, Point3.plan_y, dir_x,
    dir_y] at hp
  -- `hproject` fixes the part of `p` along the segment, `hp` the part across it.
  have hproject := project_eq s h p
  rw [eq_div_iff h] at hproject
  simp only [sqLength, dir_x, dir_y] at h hproject
  ext
  · refine mul_right_cancel₀ h ?_
    simp only [Point3.plan_x, pointAt_x]
    linear_combination (s.p1.x - s.p0.x) * hproject - (s.p1.y - s.p0.y) * hp
  · refine mul_right_cancel₀ h ?_
    simp only [Point3.plan_y, pointAt_y]
    linear_combination (s.p1.y - s.p0.y) * hproject + (s.p1.x - s.p0.x) * hp

/-- A place on the segment is where it projects to. -/
theorem pointAt_project (h : s.On p) : (s.pointAt (s.project p)).plan = p := by
  obtain ⟨t, _, _, rfl⟩ := h
  by_cases hs : s.sqLength = 0
  · rw [pointAt_plan_of_sqLength_eq_zero s hs, pointAt_plan_of_sqLength_eq_zero s hs]
  · rw [project_pointAt s hs]

/-- A place on the segment projects to a parameter of the segment. -/
theorem project_mem (h : s.On p) : 0 ≤ s.project p ∧ s.project p ≤ 1 := by
  obtain ⟨t, ht, ht', rfl⟩ := h
  by_cases hs : s.sqLength = 0
  · rw [project_of_sqLength_eq_zero s hs]
    exact ⟨le_refl 0, zero_le_one⟩
  · rw [project_pointAt s hs]
    exact ⟨ht, ht'⟩

theorem project_p0 : s.project s.p0.plan = 0 := by
  by_cases hs : s.sqLength = 0
  · exact project_of_sqLength_eq_zero s hs _
  · simpa using project_pointAt s hs 0

/-- No place of the segment projects before its first. -/
theorem project_p0_le (h : s.On p) : s.project s.p0.plan ≤ s.project p := by
  rw [project_p0]
  exact (s.project_mem h).1

/-- No place of the segment projects beyond its last. -/
theorem project_le_p1 (h : s.On p) : s.project p ≤ s.project s.p1.plan := by
  by_cases hs : s.sqLength = 0
  · rw [project_of_sqLength_eq_zero s hs, project_of_sqLength_eq_zero s hs]
  · have hone : s.project s.p1.plan = 1 := by simpa using project_pointAt s hs 1
    rw [hone]
    exact (s.project_mem h).2

/-- A place of the segment is nearest to itself. -/
theorem nearest_plan (h : s.On p) : (s.nearest p).plan = p := by
  rw [nearest, Scalar.clampUnit_of_mem (s.project_mem h).1 (s.project_mem h).2,
    s.pointAt_project h]

/-- The locations on a segment are those at distance zero. -/
theorem distTo_eq_zero : s.distTo p = 0 ↔ s.On p := by
  rw [distTo, Point2.dist_eq_zero]
  constructor
  · intro h
    exact h ▸ s.on_nearest p
  · exact s.nearest_plan

/-! ## Turning around -/

section
variable {α : Type}

/-- The segment from its second end to its first. -/
def turned (s : Segment α) : Segment α := ⟨s.p1, s.p0⟩

@[simp] theorem turned_turned (s : Segment α) : s.turned.turned = s := rfl

end

theorem pointAt_turned (t : K) : (s.turned.pointAt t).plan = (s.pointAt (1 - t)).plan := by
  ext
  · simp only [Point3.plan_x, pointAt_x, turned]
    ring
  · simp only [Point3.plan_y, pointAt_y, turned]
    ring

variable {s} in
/-- The places of a segment depend on the plan of its ends. -/
theorem on_congr {o : Segment K} (h0 : s.p0.plan = o.p0.plan) (h1 : s.p1.plan = o.p1.plan) :
    s.On p ↔ o.On p := by
  have hplace : ∀ t, (s.pointAt t).plan = (o.pointAt t).plan := by
    intro t
    obtain ⟨hx0, hy0⟩ := Point2.ext_iff.mp h0
    obtain ⟨hx1, hy1⟩ := Point2.ext_iff.mp h1
    simp only [Point3.plan_x, Point3.plan_y] at hx0 hy0 hx1 hy1
    ext
    · simp only [Point3.plan_x, pointAt_x, hx0, hx1]
    · simp only [Point3.plan_y, pointAt_y, hy0, hy1]
  simp only [On, hplace]

/-- Turned around, a segment has the same places. -/
theorem on_turned : s.turned.On p ↔ s.On p := by
  have hturn : ∀ s : Segment K, s.On p → s.turned.On p := by
    intro s ⟨t, ht, ht', hp⟩
    refine ⟨1 - t, sub_nonneg.mpr ht', by linarith, ?_⟩
    rw [pointAt_turned, sub_sub_cancel]
    exact hp
  exact ⟨hturn s.turned, hturn s⟩

/-- Turned around, a segment has its places in the opposite order. -/
theorem project_turned_lt_iff : s.turned.project p < s.turned.project q ↔
    s.project q < s.project p := by
  have hsq : s.turned.sqLength = s.sqLength := by
    simp only [sqLength, dir_x, dir_y, turned]
    ring
  by_cases h : s.sqLength = 0
  · have h' : s.turned.sqLength = 0 := hsq.trans h
    simp only [project_of_sqLength_eq_zero _ h, project_of_sqLength_eq_zero _ h']
  · have h' : s.turned.sqLength ≠ 0 := fun h0 => h (hsq.symm.trans h0)
    have hproject : ∀ p, s.turned.project p = 1 - s.project p := by
      intro p
      rw [project_eq _ h', project_eq _ h, hsq, eq_sub_iff_add_eq, ← add_div, div_eq_one_iff_eq h]
      simp only [sqLength, dir_x, dir_y, turned]
      ring
    rw [hproject, hproject]
    constructor
    · intro hlt
      linarith
    · intro hlt
      linarith

/-! ## Parts of a segment -/

/-- What lies between two places of a segment lies on it, between their projections. -/
theorem on_of_on_flat (hp : s.On p) (hq : s.On q) (hpq : s.project p ≤ s.project q)
    (hy : (flat p q).On y) :
    s.On y ∧ s.project p ≤ s.project y ∧ s.project y ≤ s.project q := by
  obtain ⟨u, hu, hu', rfl⟩ := hy
  have hproject : s.project ((flat p q).pointAt u).plan =
      s.project p + (s.project q - s.project p) * u := s.project_pointAt_of (flat p q) u
  have hlow : s.project p ≤ s.project ((flat p q).pointAt u).plan := by
    rw [hproject]
    nlinarith
  have hhigh : s.project ((flat p q).pointAt u).plan ≤ s.project q := by
    rw [hproject]
    nlinarith
  refine ⟨⟨_, (s.project_mem hp).1.trans hlow, hhigh.trans (s.project_mem hq).2, ?_⟩, hlow, hhigh⟩
  -- Both sides are the same affine function of `u`.
  rw [hproject]
  have hp' := Point2.ext_iff.mp (s.pointAt_project hp)
  have hq' := Point2.ext_iff.mp (s.pointAt_project hq)
  simp only [Point3.plan_x, Point3.plan_y, pointAt_x, pointAt_y] at hp' hq'
  ext
  · simp only [Point3.plan_x, pointAt_x, flat, Point2.atZ]
    linear_combination (1 - u) * hp'.1 + u * hq'.1
  · simp only [Point3.plan_y, pointAt_y, flat, Point2.atZ]
    linear_combination (1 - u) * hp'.2 + u * hq'.2

/-- The part of a segment between two parameters has the places between them. -/
theorem on_part {t u v : K} (htu : t ≤ u) (huv : u ≤ v) :
    (⟨s.pointAt t, s.pointAt v⟩ : Segment K).On (s.pointAt u).plan := by
  rcases (htu.trans huv).lt_or_eq with hlt | heq
  · have hpos : 0 < v - t := sub_pos.mpr hlt
    refine ⟨(u - t) / (v - t), div_nonneg (sub_nonneg.mpr htu) hpos.le,
      (div_le_one hpos).mpr (by linarith), ?_⟩
    ext
    · simp only [Point3.plan_x, pointAt_x]
      field_simp
      ring
    · simp only [Point3.plan_y, pointAt_y]
      field_simp
      ring
  · have hut : u = t := le_antisymm (heq ▸ huv) htu
    rw [hut]
    exact on_p0 _

/-- Distances along a segment. -/
theorem dist_pointAt (h : t ≤ u) :
    (s.pointAt t).plan.dist (s.pointAt u).plan = (u - t) * Coordinates.norm s.dir := by
  refine Point2.norm_eq_of_mul_self (mul_nonneg (sub_nonneg.mpr h) s.dir.norm_nonneg) ?_
  have hdir := s.dir.norm_mul_self
  simp only [Point2.normSq, dir_x, dir_y] at hdir
  simp only [Point2.normSq, Point2.sub_x, Point2.sub_y, Point3.plan_x, Point3.plan_y, pointAt_x,
    pointAt_y]
  linear_combination (-(u - t) * (u - t)) * hdir

theorem planLength_eq : s.planLength = Coordinates.norm s.dir := by
  rw [planLength, ← s.pointAt_plan_one, ← s.pointAt_plan_zero, s.dist_pointAt zero_le_one,
    sub_zero, one_mul]

/-- The plan length is known by its square. -/
theorem planLength_eq_of_mul_self {l : K} (h : 0 ≤ l) (hl : s.dir.normSq = l * l) :
    s.planLength = l :=
  s.planLength_eq.trans (Point2.norm_eq_of_mul_self h hl)

/-- Of two places the one that projects further is further from the first end. -/
theorem dist_p0_le (hp : s.On p) (hq : s.On q) (h : s.project p ≤ s.project q) :
    s.p0.plan.dist p ≤ s.p0.plan.dist q := by
  have hdist : ∀ {y}, s.On y → s.p0.plan.dist y = s.project y * Coordinates.norm s.dir := by
    intro y hy
    conv_lhs => rw [← s.pointAt_project hy, ← s.pointAt_plan_zero]
    rw [s.dist_pointAt (s.project_mem hy).1, sub_zero]
  rw [hdist hp, hdist hq]
  exact mul_le_mul_of_nonneg_right h s.dir.norm_nonneg

/-- A segment with a place that is not its last has a positive length. -/
theorem norm_dir_pos (hne : (s.pointAt t).plan ≠ s.p1.plan) : 0 < Coordinates.norm s.dir := by
  refine lt_of_le_of_ne s.dir.norm_nonneg fun hzero => hne ?_
  have hsq : s.sqLength = 0 := Point2.norm_eq_zero.mp hzero.symm
  rw [← s.pointAt_plan_one, s.pointAt_plan_of_sqLength_eq_zero hsq,
    s.pointAt_plan_of_sqLength_eq_zero hsq]

/-! ## Elevations -/

/-- The elevation goes by the distance from the first end. -/
theorem elevation_eq (hlength : 0 < Coordinates.norm s.dir) (p : Point2 K) : s.elevation p =
    s.p0.z + (s.p1.z - s.p0.z) * (s.p0.plan.dist p / Coordinates.norm s.dir) := by
  unfold elevation
  split
  · next hlevel =>
    rw [eq_of_beq hlevel, sub_self, zero_mul, add_zero]
  · dsimp only
    rw [planLength_eq, if_neg (by simpa using hlength.ne'), mul_div_assoc]

/-- Along a segment with a length the elevation is interpolated. -/
theorem elevation_pointAt (hlength : 0 < Coordinates.norm s.dir) (ht : 0 ≤ t) :
    s.elevation (s.pointAt t).plan = s.p0.z + (s.p1.z - s.p0.z) * t := by
  have hshare : s.p0.plan.dist (s.pointAt t).plan = t * Coordinates.norm s.dir := by
    rw [← s.pointAt_plan_zero, s.dist_pointAt ht, sub_zero]
  rw [s.elevation_eq hlength, hshare, mul_div_cancel_right₀ _ hlength.ne']

/-- Over its places a segment has the elevations that its points have. -/
theorem exists_pointAt_elevation (h : s.On p) :
    ∃ t, 0 ≤ t ∧ t ≤ 1 ∧ (s.pointAt t).plan = p ∧ (s.pointAt t).z = s.elevation p := by
  obtain ⟨t, ht, ht', rfl⟩ := h
  rcases s.dir.norm_nonneg.lt_or_eq with hlength | hzero
  · exact ⟨t, ht, ht', rfl, (s.elevation_pointAt hlength ht).symm⟩
  · -- Without a plan length the first end stands for all points.
    have hsq : s.sqLength = 0 := Point2.norm_eq_zero.mp hzero.symm
    have hlength : s.planLength = 0 := s.planLength_eq.trans hzero.symm
    refine ⟨0, le_rfl, zero_le_one, ?_, ?_⟩
    · rw [s.pointAt_plan_of_sqLength_eq_zero hsq, s.pointAt_plan_of_sqLength_eq_zero hsq]
    · simp [elevation, hlength, pointAt_z]

/-- Turned around, a segment has the same elevations. -/
theorem elevation_turned (hlength : 0 < Coordinates.norm s.dir) (hp : s.On p) :
    s.turned.elevation p = s.elevation p := by
  obtain ⟨u, hu, hu', rfl⟩ := hp
  have hdir : s.turned.dir.normSq = s.dir.normSq := by
    simp only [Point2.normSq, dir_x, dir_y, turned]
    ring
  have hlength' : 0 < Coordinates.norm s.turned.dir := by
    rwa [Point2.norm_eq_sqrt, hdir, ← Point2.norm_eq_sqrt]
  have hplace : (s.pointAt u).plan = (s.turned.pointAt (1 - u)).plan := by
    rw [pointAt_turned, sub_sub_cancel]
  rw [s.elevation_pointAt hlength hu, hplace,
    s.turned.elevation_pointAt hlength' (sub_nonneg.mpr hu')]
  simp only [turned]
  ring

end Segment

end SiteSection
