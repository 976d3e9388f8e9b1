import Mathlib.Order.Bounds.Basic
import SiteSection.Proofs.Numbers.Choosing
import SiteSection.Proofs.Plan.Segment

/-! # Where segments meet

  In exact arithmetic the intersection of two segments is their first common place along the
  first of them, and there is none only if they have no common place. The four cases of the
  computation are the four lemmas below: lines that cross, lines that are parallel and apart,
  a first segment that is a single place, and two segments on one line.
-/

namespace SiteSection

variable {K : Type} [ExactScalar K]

namespace Segment

variable (s o : Segment K) {p q : Point2 K} {t u : K}

/-- The parameters at which a segment is on another. -/
def commonParameters : Set K := {t | 0 ≤ t ∧ t ≤ 1 ∧ o.On (s.pointAt t).plan}

/-! ## Lines that cross -/

/-- Lines that cross have one common place, at the parameters that the intersection
    computes. -/
theorem pointAt_eq_pointAt_iff (h : s.dir.cross o.dir ≠ 0) :
    (s.pointAt t).plan = (o.pointAt u).plan ↔
      t = (o.p0.plan - s.p0.plan).cross o.dir / s.dir.cross o.dir ∧
        u = (o.p0.plan - s.p0.plan).cross s.dir / s.dir.cross o.dir := by
  rw [eq_div_iff h, eq_div_iff h, Point2.ext_iff]
  simp only [Point2.cross, Point3.plan_x, Point3.plan_y, pointAt_x, pointAt_y, dir_x, dir_y,
    Point2.sub_x, Point2.sub_y] at h ⊢
  constructor
  · rintro ⟨hx, hy⟩
    constructor
    · linear_combination (o.p1.y - o.p0.y) * hx - (o.p1.x - o.p0.x) * hy
    · linear_combination (s.p1.y - s.p0.y) * hx - (s.p1.x - s.p0.x) * hy
  · rintro ⟨ht, hu⟩
    constructor
    · refine mul_right_cancel₀ h ?_
      linear_combination (s.p1.x - s.p0.x) * ht - (o.p1.x - o.p0.x) * hu
    · refine mul_right_cancel₀ h ?_
      linear_combination (s.p1.y - s.p0.y) * ht - (o.p1.y - o.p0.y) * hu

theorem intersect?_of_cross (h : s.dir.cross o.dir ≠ 0) :
    (∃ t, s.intersect? o = some (s.pointAt t) ∧ s.commonParameters o = {t}) ∨
      (s.intersect? o = none ∧ s.commonParameters o = ∅) := by
  set t := (o.p0.plan - s.p0.plan).cross o.dir / s.dir.cross o.dir with ht
  set u := (o.p0.plan - s.p0.plan).cross s.dir / s.dir.cross o.dir with hu
  have hmeet : ∀ t' u', (s.pointAt t').plan = (o.pointAt u').plan ↔ t' = t ∧ u' = u :=
    fun t' u' => s.pointAt_eq_pointAt_iff o h
  have hcompute : s.intersect? o =
      if Scalar.inUnit t && Scalar.inUnit u then some (s.pointAt t) else none := by
    simp [intersect?, h, ht, hu]
  rw [hcompute]
  by_cases hin : Scalar.inUnit t = true ∧ Scalar.inUnit u = true
  · obtain ⟨htu, huu⟩ := And.imp Scalar.inUnit_iff.mp Scalar.inUnit_iff.mp hin
    refine .inl ⟨t, by simp [hin], Set.ext fun t' => ?_⟩
    constructor
    · rintro ⟨_, _, u', _, _, h'⟩
      exact ((hmeet t' u').mp h'.symm).1
    · rintro rfl
      exact ⟨htu.1, htu.2, u, huu.1, huu.2, ((hmeet t u).mpr ⟨rfl, rfl⟩).symm⟩
  · refine .inr ⟨by simpa using hin, Set.eq_empty_of_forall_notMem ?_⟩
    rintro t' ⟨ht0, ht1, u', hu0, hu1, h'⟩
    obtain ⟨rfl, rfl⟩ := (hmeet t' u').mp h'.symm
    exact hin ⟨Scalar.inUnit_iff.mpr ⟨ht0, ht1⟩, Scalar.inUnit_iff.mpr ⟨hu0, hu1⟩⟩

/-! ## Parallel lines -/

/-- A common place of parallel segments puts the second on the line of the first. -/
theorem gap_cross_of_common (h : s.dir.cross o.dir = 0)
    (hp : (s.pointAt t).plan = (o.pointAt u).plan) :
    (o.p0.plan - s.p0.plan).cross s.dir = 0 := by
  obtain ⟨hx, hy⟩ := Point2.ext_iff.mp hp
  simp only [Point2.cross, Point3.plan_x, Point3.plan_y, pointAt_x, pointAt_y, dir_x, dir_y,
    Point2.sub_x, Point2.sub_y] at h hx hy ⊢
  linear_combination (s.p1.x - s.p0.x) * hy - (s.p1.y - s.p0.y) * hx + u * h

theorem intersect?_of_parallel (h : s.dir.cross o.dir = 0)
    (hgap : (o.p0.plan - s.p0.plan).cross s.dir ≠ 0) :
    s.intersect? o = none ∧ s.commonParameters o = ∅ := by
  refine ⟨by simp [intersect?, h, hgap], Set.eq_empty_of_forall_notMem ?_⟩
  rintro t ⟨_, _, u, _, _, hu⟩
  exact hgap (s.gap_cross_of_common o h hu.symm)

/-! ## A single place -/

theorem intersect?_of_sqLength_eq_zero (h : s.sqLength = 0) :
    (o.On s.p0.plan → s.intersect? o = some s.p0) ∧
      (¬ o.On s.p0.plan → s.intersect? o = none) := by
  have hdir : s.p1.x - s.p0.x = 0 ∧ s.p1.y - s.p0.y = 0 := Point2.normSq_eq_zero.mp h
  have hcross : s.dir.cross o.dir = 0 := by
    simp only [Point2.cross, dir_x, dir_y, hdir.1, hdir.2]
    ring
  have hgap : (o.p0.plan - s.p0.plan).cross s.dir = 0 := by
    simp only [Point2.cross, dir_x, dir_y, hdir.1, hdir.2]
    ring
  constructor
  · intro hon
    simp [intersect?, hcross, hgap, h, distTo_eq_zero, hon]
  · intro hon
    simp [intersect?, hcross, hgap, h, distTo_eq_zero, hon]

/-! ## Two segments on one line -/

/-- A place of a segment on the line of another is where it projects to. -/
theorem pointAt_project_of_collinear (hs : s.sqLength ≠ 0) (h : s.dir.cross o.dir = 0)
    (hgap : (o.p0.plan - s.p0.plan).cross s.dir = 0) (u : K) :
    (s.pointAt (s.project (o.pointAt u).plan)).plan = (o.pointAt u).plan := by
  refine s.pointAt_project_of_side hs ?_
  simp only [Point2.cross, Point3.plan_x, Point3.plan_y, pointAt_x, pointAt_y, dir_x, dir_y,
    Point2.sub_x, Point2.sub_y] at h hgap ⊢
  linear_combination hgap - u * h

/-- On one line, a segment covers what lies between the projections of its ends. -/
theorem on_iff_of_collinear (hs : s.sqLength ≠ 0) (h : s.dir.cross o.dir = 0)
    (hgap : (o.p0.plan - s.p0.plan).cross s.dir = 0) :
    o.On (s.pointAt t).plan ↔
      min (s.project o.p0.plan) (s.project o.p1.plan) ≤ t ∧
        t ≤ max (s.project o.p0.plan) (s.project o.p1.plan) := by
  set t0 := s.project o.p0.plan with ht0
  set t1 := s.project o.p1.plan with ht1
  have hplace : ∀ u, s.project (o.pointAt u).plan = t0 + (t1 - t0) * u :=
    fun u => s.project_pointAt_of o u
  constructor
  · rintro ⟨u, hu, hu', hut⟩
    have ht : t = t0 + (t1 - t0) * u := by
      rw [← hplace, hut, s.project_pointAt hs]
    rcases le_total t0 t1 with hle | hle
    · rw [min_eq_left hle, max_eq_right hle, ht]
      constructor <;> nlinarith
    · rw [min_eq_right hle, max_eq_left hle, ht]
      constructor <;> nlinarith
  · intro ht
    -- The parameter on `o` is the share of the way from `t0` to `t1`.
    obtain ⟨u, hu, hu', hut⟩ : ∃ u, 0 ≤ u ∧ u ≤ 1 ∧ t0 + (t1 - t0) * u = t := by
      rcases lt_trichotomy t0 t1 with hlt | heq | hlt
      · rw [min_eq_left hlt.le, max_eq_right hlt.le] at ht
        have hpos : 0 < t1 - t0 := sub_pos.mpr hlt
        refine ⟨(t - t0) / (t1 - t0), div_nonneg (by linarith) hpos.le,
          (div_le_one hpos).mpr (by linarith), ?_⟩
        field_simp
        ring
      · rw [heq, min_self, max_self] at ht
        exact ⟨0, le_refl 0, zero_le_one, by rw [mul_zero, add_zero, heq]; linarith⟩
      · rw [min_eq_right hlt.le, max_eq_left hlt.le] at ht
        have hpos : 0 < t0 - t1 := sub_pos.mpr hlt
        refine ⟨(t0 - t) / (t0 - t1), div_nonneg (by linarith) hpos.le,
          (div_le_one hpos).mpr (by linarith), ?_⟩
        field_simp
        ring
    refine ⟨u, hu, hu', ?_⟩
    rw [← s.pointAt_project_of_collinear o hs h hgap u, hplace, hut]

theorem intersect?_of_collinear (hs : s.sqLength ≠ 0) (h : s.dir.cross o.dir = 0)
    (hgap : (o.p0.plan - s.p0.plan).cross s.dir = 0) :
    (∃ t, s.intersect? o = some (s.pointAt t) ∧ IsLeast (s.commonParameters o) t) ∨
      (s.intersect? o = none ∧ s.commonParameters o = ∅) := by
  set lo := min (s.project o.p0.plan) (s.project o.p1.plan) with hlo
  set hi := max (s.project o.p0.plan) (s.project o.p1.plan) with hhi
  have hcompute : s.intersect? o =
      if hi < 0 ∨ 1 < lo then none else some (s.pointAt (max lo 0)) := by
    simp [intersect?, overlap?, h, hgap, hs, hlo, hhi, Scalar.floorZero_eq_max]
  have hon : ∀ t, o.On (s.pointAt t).plan ↔ lo ≤ t ∧ t ≤ hi :=
    fun t => s.on_iff_of_collinear o hs h hgap
  rw [hcompute]
  by_cases hout : hi < 0 ∨ 1 < lo
  · refine .inr ⟨if_pos hout, Set.eq_empty_of_forall_notMem ?_⟩
    rintro t ⟨ht, ht', ho⟩
    obtain ⟨hlt, hth⟩ := (hon t).mp ho
    rcases hout with hout | hout <;> linarith
  · refine .inl ⟨max lo 0, if_neg hout, ?_⟩
    simp only [not_or, not_lt] at hout
    have hle : lo ≤ hi := min_le_max
    refine ⟨⟨le_max_right lo 0, max_le hout.2 zero_le_one,
      (hon _).mpr ⟨le_max_left lo 0, max_le hle hout.1⟩⟩, ?_⟩
    rintro t ⟨ht, _, ho⟩
    exact max_le ((hon t).mp ho).1 ht

/-! ## The intersection -/

/-- The intersection of two segments is at the least common parameter of the first, and there
    is none only where there is no common place. -/
theorem intersect?_spec :
    (∃ t, s.intersect? o = some (s.pointAt t) ∧ IsLeast (s.commonParameters o) t) ∨
      (s.intersect? o = none ∧ s.commonParameters o = ∅) := by
  -- A single place is taken first: it has cross product zero with every segment.
  by_cases h : s.dir.cross o.dir = 0
  · by_cases hs : s.sqLength = 0
    · obtain ⟨hsome, hnone⟩ := s.intersect?_of_sqLength_eq_zero o hs
      by_cases hon : o.On s.p0.plan
      · refine .inl ⟨0, by rw [hsome hon, s.pointAt_zero], ⟨le_refl 0, zero_le_one, ?_⟩,
          fun t ht => ht.1⟩
        rwa [s.pointAt_plan_zero]
      · refine .inr ⟨hnone hon, Set.eq_empty_of_forall_notMem ?_⟩
        rintro t ⟨_, _, ho⟩
        exact hon (s.pointAt_plan_of_sqLength_eq_zero hs t ▸ ho)
    · by_cases hgap : (o.p0.plan - s.p0.plan).cross s.dir = 0
      · exact s.intersect?_of_collinear o hs h hgap
      · exact .inr (s.intersect?_of_parallel o h hgap)
  · rcases s.intersect?_of_cross o h with ⟨t, ht, hcommon⟩ | hnone
    · exact .inl ⟨t, ht, hcommon ▸ isLeast_singleton⟩
    · exact .inr hnone

theorem exists_of_intersect?_eq_some {x : Point3 K} (h : s.intersect? o = some x) :
    ∃ t, x = s.pointAt t ∧ IsLeast (s.commonParameters o) t := by
  rcases s.intersect?_spec o with ⟨t, ht, hleast⟩ | ⟨hnone, _⟩
  · exact ⟨t, Option.some.inj (h.symm.trans ht), hleast⟩
  · rw [hnone] at h
    cases h

/-- The intersection is on the first segment. -/
theorem on_left_of_intersect? {x : Point3 K} (h : s.intersect? o = some x) : s.On x.plan := by
  obtain ⟨t, rfl, ht, _⟩ := s.exists_of_intersect?_eq_some o h
  exact s.on_pointAt ht.1 ht.2.1

/-- The intersection is on the second segment. -/
theorem on_right_of_intersect? {x : Point3 K} (h : s.intersect? o = some x) : o.On x.plan := by
  obtain ⟨t, rfl, ht, _⟩ := s.exists_of_intersect?_eq_some o h
  exact ht.2.2

/-- No common place is before the intersection. -/
theorem project_intersect?_le {x : Point3 K} (h : s.intersect? o = some x) (hs : s.On p)
    (ho : o.On p) : s.project x.plan ≤ s.project p := by
  obtain ⟨t, rfl, _, hleast⟩ := s.exists_of_intersect?_eq_some o h
  by_cases hzero : s.sqLength = 0
  · rw [s.project_of_sqLength_eq_zero hzero, s.project_of_sqLength_eq_zero hzero]
  · rw [s.project_pointAt hzero]
    refine hleast ⟨(s.project_mem hs).1, (s.project_mem hs).2, ?_⟩
    rw [s.pointAt_project hs]
    exact ho

/-- Segments with a common place have an intersection. -/
theorem exists_intersect? (hs : s.On p) (ho : o.On p) : ∃ x, s.intersect? o = some x := by
  rcases s.intersect?_spec o with ⟨t, ht, _⟩ | ⟨_, hempty⟩
  · exact ⟨_, ht⟩
  · obtain ⟨t, ht, ht', rfl⟩ := hs
    have hmem : t ∈ s.commonParameters o := ⟨ht, ht', ho⟩
    exact absurd (hempty ▸ hmem) (Set.notMem_empty t)

/-- Segments have an intersection if they have a common place. -/
theorem isSome_intersect?_iff {o : Segment K} :
    (s.intersect? o).isSome = true ↔ ∃ y, s.On y ∧ o.On y := by
  rw [Option.isSome_iff_exists]
  constructor
  · intro ⟨x, hx⟩
    exact ⟨x.plan, s.on_left_of_intersect? o hx, s.on_right_of_intersect? o hx⟩
  · intro ⟨y, hy, hy'⟩
    exact s.exists_intersect? o hy hy'

/-- Of two segments, if the first has a place off the second and holds neither end of it, they
    cross in one place at most, and the intersection finds it. -/
theorem intersect?_of_transversal (hs : s.On p) (ho : o.On p) (h0 : ¬ s.On o.p0.plan)
    (h1 : ¬ s.On o.p1.plan) (hq : s.On q) (hout : ¬ o.On q) :
    ∃ x, s.intersect? o = some x ∧ x.plan = p := by
  obtain ⟨t, ht, ht', rfl⟩ := hs
  obtain ⟨u, hu, hu', hp⟩ := ho
  by_cases h : s.dir.cross o.dir = 0
  · -- Parallel segments with a common place are on one line, where the second would cover the
    -- first: its ends project to either side of the first.
    exfalso
    have hsq : s.sqLength ≠ 0 := by
      intro hsq
      obtain ⟨v, _, _, rfl⟩ := hq
      rw [s.pointAt_plan_of_sqLength_eq_zero hsq] at hp hout
      exact hout ⟨u, hu, hu', hp⟩
    have hgap := s.gap_cross_of_common o h hp.symm
    have hends : ∀ v, ¬ s.On (o.pointAt v).plan → ¬ (0 ≤ s.project (o.pointAt v).plan ∧
        s.project (o.pointAt v).plan ≤ 1) := fun v hv hin =>
      hv ⟨_, hin.1, hin.2, s.pointAt_project_of_collinear o hsq h hgap v⟩
    have he0 := hends 0 (by rwa [pointAt_plan_zero])
    have he1 := hends 1 (by rwa [pointAt_plan_one])
    rw [pointAt_plan_zero] at he0
    rw [pointAt_plan_one] at he1
    have hbetween := (s.on_iff_of_collinear o hsq h hgap).mp ⟨u, hu, hu', hp⟩
    obtain ⟨v, hv, hv', rfl⟩ := hq
    refine hout ((s.on_iff_of_collinear o hsq h hgap).mpr ?_)
    rcases le_total (s.project o.p0.plan) (s.project o.p1.plan) with hle | hle
    · rw [min_eq_left hle, max_eq_right hle] at hbetween ⊢
      have hlow : s.project o.p0.plan ≤ 0 := le_of_not_ge fun hge => he0 ⟨hge, by linarith⟩
      have hhigh : 1 ≤ s.project o.p1.plan := le_of_not_ge fun hge => he1 ⟨by linarith, hge⟩
      exact ⟨hlow.trans hv, hv'.trans hhigh⟩
    · rw [min_eq_right hle, max_eq_left hle] at hbetween ⊢
      have hlow : s.project o.p1.plan ≤ 0 := le_of_not_ge fun hge => he1 ⟨hge, by linarith⟩
      have hhigh : 1 ≤ s.project o.p0.plan := le_of_not_ge fun hge => he0 ⟨by linarith, hge⟩
      exact ⟨hlow.trans hv, hv'.trans hhigh⟩
  · have hmem : t ∈ s.commonParameters o := ⟨ht, ht', u, hu, hu', hp⟩
    rcases s.intersect?_of_cross o h with ⟨t', hsome, hcommon⟩ | ⟨_, hempty⟩
    · rw [hcommon, Set.mem_singleton_iff] at hmem
      exact ⟨_, hsome, by rw [hmem]⟩
    · exact absurd (hempty ▸ hmem) (Set.notMem_empty t)

/-! ## Either way round -/

/-- Segments with one common place at most have one intersection, whichever is the first. -/
theorem map_plan_intersect?_comm
    (h : ∀ p q, s.On p → o.On p → s.On q → o.On q → p = q) :
    (s.intersect? o).map Point3.plan = (o.intersect? s).map Point3.plan := by
  cases hs : s.intersect? o with
  | none =>
    cases ho : o.intersect? s with
    | none => rfl
    | some y =>
      obtain ⟨x, hx⟩ := s.exists_intersect? o (o.on_right_of_intersect? s ho)
        (o.on_left_of_intersect? s ho)
      rw [hs] at hx
      cases hx
  | some x =>
    have hx := s.on_left_of_intersect? o hs
    have hx' := s.on_right_of_intersect? o hs
    obtain ⟨y, hy⟩ := o.exists_intersect? s hx' hx
    rw [hy]
    exact congrArg some
      (h _ _ hx hx' (o.on_right_of_intersect? s hy) (o.on_left_of_intersect? s hy))

/-- Segments on lines that cross have one common place at most, and so has a segment that is a
    single place with any other. -/
theorem eq_of_common
    (h : s.dir.cross o.dir ≠ 0 ∨ s.sqLength = 0 ∨ o.sqLength = 0)
    (hp : s.On p) (hp' : o.On p) (hq : s.On q) (hq' : o.On q) : p = q := by
  obtain ⟨t, _, _, rfl⟩ := hp
  obtain ⟨t', _, _, rfl⟩ := hq
  rcases h with h | h | h
  · obtain ⟨u, _, _, hu⟩ := hp'
    obtain ⟨u', _, _, hu'⟩ := hq'
    have ht := ((s.pointAt_eq_pointAt_iff o h).mp hu.symm).1
    have ht' := ((s.pointAt_eq_pointAt_iff o h).mp hu'.symm).1
    rw [ht, ht']
  · rw [s.pointAt_plan_of_sqLength_eq_zero h, s.pointAt_plan_of_sqLength_eq_zero h]
  · obtain ⟨u, _, _, hu⟩ := hp'
    obtain ⟨u', _, _, hu'⟩ := hq'
    rw [← hu, ← hu', o.pointAt_plan_of_sqLength_eq_zero h, o.pointAt_plan_of_sqLength_eq_zero h]

/-- **Intersection.** Two segments have an intersection exactly if they have a common place. It
    is the common place with the least parameter along the first segment, at the elevation that
    the first segment has there. On lines that cross, and where a segment is a single place, the
    intersection is the same place whichever segment is the first. -/
theorem intersection_least :
    ((s.intersect? o).isSome = true ↔ ∃ p, s.On p ∧ o.On p) ∧
    (∀ x, s.intersect? o = some x → ∃ t, IsLeast {t | 0 ≤ t ∧ t ≤ 1 ∧ o.On (s.pointAt t).plan} t ∧
      x.plan = (s.pointAt t).plan ∧ x.z = s.p0.z + (s.p1.z - s.p0.z) * t) ∧
    (s.dir.cross o.dir ≠ 0 ∨ s.sqLength = 0 ∨ o.sqLength = 0 →
      (s.intersect? o).map Point3.plan = (o.intersect? s).map Point3.plan) := by
  refine ⟨s.isSome_intersect?_iff, ?_, ?_⟩
  · intro x hx
    obtain ⟨t, hxt, hleast⟩ := s.exists_of_intersect?_eq_some o hx
    exact ⟨t, hleast, congrArg Point3.plan hxt, (congrArg Point3.z hxt).trans (s.pointAt_z t)⟩
  · intro h
    exact s.map_plan_intersect?_comm o fun p q hp hp' hq hq' => s.eq_of_common o h hp hp' hq hq'

/-- A way to the east that climbs. -/
noncomputable def eastward : Segment ℝ := ⟨⟨0, 0, 0⟩, ⟨10, 0, 10⟩⟩

/-- A level way to the north, across the one to the east. -/
noncomputable def northward : Segment ℝ := ⟨⟨5, -5, 0⟩, ⟨5, 5, 0⟩⟩

/-- Two ways across each other meet at one place, whichever is the first. -/
theorem intersection_least_crossing :
    eastward.dir.cross northward.dir ≠ 0 ∧
      (∃ p, eastward.On p ∧ northward.On p) ∧ (eastward.intersect? northward).isSome = true ∧
        (eastward.intersect? northward).map Point3.plan =
          (northward.intersect? eastward).map Point3.plan := by
  have hcross : eastward.dir.cross northward.dir ≠ 0 := by
    show ((10 : ℝ) - 0) * (5 - -5) - (0 - 0) * (5 - 5) ≠ 0
    norm_num
  have heast : eastward.On ⟨5, 0⟩ := by
    refine ⟨1 / 2, by norm_num, by norm_num, ?_⟩
    ext <;> norm_num [eastward]
  have hnorth : northward.On ⟨5, 0⟩ := by
    refine ⟨1 / 2, by norm_num, by norm_num, ?_⟩
    ext <;> norm_num [northward]
  obtain ⟨hiff, -, hcomm⟩ := intersection_least eastward northward
  exact ⟨hcross, ⟨_, heast, hnorth⟩, hiff.mpr ⟨_, heast, hnorth⟩, hcomm (.inl hcross)⟩

/-! ## The closest places -/

/-- The pairs of an end of one segment and the place of the other nearest to it. -/
def endPairs : List (Point3 K × Point3 K) :=
  [(s.p0, o.nearest s.p0.plan), (s.p1, o.nearest s.p1.plan),
    (s.nearest o.p0.plan, o.p0), (s.nearest o.p1.plan, o.p1)]

/-- Of segments that do not meet, the closest pair is the closest of those with an end. -/
theorem closestPoints_of_not_meet (h : s.intersect? o = none) :
    s.closestPoints o ∈ s.endPairs o ∧ ∀ c ∈ s.endPairs o,
      (s.closestPoints o).1.plan.dist (s.closestPoints o).2.plan ≤ c.1.plan.dist c.2.plan := by
  let apart := fun c : Point3 K × Point3 K => c.1.plan.dist c.2.plan
  have hclosest : some (s.closestPoints o) =
      leastBy? (fun a b => Scalar.totalCmp (apart a) (apart b)) (s.endPairs o) := by
    rw [closestPoints, h]
    rfl
  refine ⟨mem_of_leastBy?_eq_some hclosest.symm, fun c hc => ?_⟩
  -- No tie is broken: the comparison goes by the distance alone.
  obtain ⟨b, hb, hle⟩ := exists_leastBy?_le apart (fun _ _ => .eq) hc
  simp only [Ordering.then_eq] at hb
  rw [← hclosest, Option.some.injEq] at hb
  rw [hb]
  exact hle

/-- The closest places are places of the segments, in space too. -/
theorem closestPoints_eq_pointAt :
    ∃ t u, (0 ≤ t ∧ t ≤ 1) ∧ (0 ≤ u ∧ u ≤ 1) ∧
      s.closestPoints o = (s.pointAt t, o.pointAt u) := by
  cases hmeet : s.intersect? o with
  | some x =>
    obtain ⟨t, rfl, ht, -⟩ := s.exists_of_intersect?_eq_some o hmeet
    rw [closestPoints, hmeet]
    exact ⟨t, _, ⟨ht.1, ht.2.1⟩, Scalar.clampUnit_mem _, rfl⟩
  | none =>
    have hpair := (s.closestPoints_of_not_meet o hmeet).1
    have hzero : (0 : K) ≤ 0 ∧ (0 : K) ≤ 1 := ⟨le_refl 0, zero_le_one⟩
    have hone : (0 : K) ≤ 1 ∧ (1 : K) ≤ 1 := ⟨zero_le_one, le_refl 1⟩
    simp only [endPairs, List.mem_cons, List.not_mem_nil, or_false] at hpair
    rcases hpair with hc | hc | hc | hc
    · exact ⟨0, _, hzero, Scalar.clampUnit_mem _, by rw [hc, pointAt_zero, nearest]⟩
    · exact ⟨1, _, hone, Scalar.clampUnit_mem _, by rw [hc, pointAt_one, nearest]⟩
    · exact ⟨_, 0, Scalar.clampUnit_mem _, hzero, by rw [hc, pointAt_zero, nearest]⟩
    · exact ⟨_, 1, Scalar.clampUnit_mem _, hone, by rw [hc, pointAt_one, nearest]⟩

/-- Of a closest pair each place is on its segment. -/
theorem on_closestPoints :
    s.On (s.closestPoints o).1.plan ∧ o.On (s.closestPoints o).2.plan := by
  obtain ⟨t, u, ht, hu, hpair⟩ := s.closestPoints_eq_pointAt o
  rw [hpair]
  exact ⟨s.on_pointAt ht.1 ht.2, o.on_pointAt hu.1 hu.2⟩

/-- Segments that meet are closest where they meet. -/
theorem closestPoints_of_intersect? {x : Point3 K} (h : s.intersect? o = some x) :
    (s.closestPoints o).1 = x ∧ (s.closestPoints o).2.plan = x.plan := by
  rw [closestPoints, h]
  exact ⟨rfl, o.nearest_plan (s.on_right_of_intersect? o h)⟩

end Segment

end SiteSection
