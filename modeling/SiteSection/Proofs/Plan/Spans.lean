import SiteSection.Proofs.Plan.Upright

/-! # What a triangle spans

  In plan a triangle with its borders is the set of the means of its corners. Where it has an
  area, these are the locations that the barycentric test takes as inside, whichever way round
  the corners run. Where it has none, all that it spans is on its sides, and the barycentric
  test takes nothing as inside.

  A line that comes to a triangle from elsewhere meets a side of it first.
-/

namespace SiteSection

variable {K : Type} [ExactScalar K]

namespace Triangle

variable {t t' : Triangle K} {e : Point3 K × Point3 K} {p : Point2 K} {line : Segment K} {v : K}

/-- Is a location in the triangle in plan, borders included: is it a mean of the corners? -/
def Spans (t : Triangle K) (p : Point2 K) : Prop :=
  ∃ u v w : K, 0 ≤ u ∧ 0 ≤ v ∧ 0 ≤ w ∧ u + v + w = 1 ∧
    p.x = u * t.a.x + v * t.b.x + w * t.c.x ∧ p.y = u * t.a.y + v * t.b.y + w * t.c.y

theorem spans_of_mem_turns (h : t' ∈ t.turns) : t'.Spans p ↔ t.Spans p := by
  have hturn : ∀ {a b c : Point3 K}, (⟨a, b, c⟩ : Triangle K).Spans p →
      (⟨b, c, a⟩ : Triangle K).Spans p := by
    rintro a b c ⟨u, v, w, hu, hv, hw, hsum, hx, hy⟩
    refine ⟨v, w, u, hv, hw, hu, ?_, ?_, ?_⟩
    · linear_combination hsum
    · linear_combination hx
    · linear_combination hy
  rcases mem_turns.mp h with rfl | rfl | rfl
  · rfl
  · exact ⟨fun h => hturn (hturn h), hturn⟩
  · exact ⟨hturn, fun h => hturn (hturn h)⟩

/-- A triangle spans its sides. -/
theorem spans_of_on (he : e ∈ t.sides) (hp : (⟨e.1, e.2⟩ : Segment K).On p) : t.Spans p := by
  obtain ⟨c, hturn⟩ := exists_mem_turns he
  rw [← spans_of_mem_turns hturn]
  obtain ⟨s, hs, hs', rfl⟩ := hp
  refine ⟨1 - s, s, 0, sub_nonneg.mpr hs', hs, le_rfl, by ring, ?_, ?_⟩
  · simp only [Point3.plan_x, Segment.pointAt_x]
    ring
  · simp only [Point3.plan_y, Segment.pointAt_y]
    ring

/-- A mean is between the bounds of what it is taken of. -/
theorem mean_mem {m n u v w x y z : K} (hu : 0 ≤ u) (hv : 0 ≤ v) (hw : 0 ≤ w)
    (hsum : u + v + w = 1) (hx : m ≤ x ∧ x ≤ n) (hy : m ≤ y ∧ y ≤ n) (hz : m ≤ z ∧ z ≤ n) :
    m ≤ u * x + v * y + w * z ∧ u * x + v * y + w * z ≤ n := by
  have hweigh : ∀ k : K, u * k + v * k + w * k = k := fun k => by
    rw [← add_mul, ← add_mul, hsum, one_mul]
  rw [← hweigh m, ← hweigh n]
  exact ⟨by gcongr <;> tauto, by gcongr <;> tauto⟩

/-- A box that holds the corners holds what they span. -/
theorem contains_of_spans {b : Box2 K} (hcorners : ∀ v ∈ t.corners, b.contains v.plan = true)
    (h : t.Spans p) : b.contains p = true := by
  obtain ⟨u, v, w, hu, hv, hw, hsum, hx, hy⟩ := h
  have hbounds : ∀ v ∈ t.corners, (b.origin.x ≤ v.x ∧ v.x ≤ b.upper.x) ∧
      b.origin.y ≤ v.y ∧ v.y ≤ b.upper.y := fun v hv => Box2.contains_iff.mp (hcorners v hv)
  obtain ⟨hax, hay⟩ := hbounds t.a (by simp [corners])
  obtain ⟨hbx, hby⟩ := hbounds t.b (by simp [corners])
  obtain ⟨hcx, hcy⟩ := hbounds t.c (by simp [corners])
  rw [Box2.contains_iff, hx, hy]
  exact ⟨mean_mem hu hv hw hsum hax hbx hcx, mean_mem hu hv hw hsum hay hby hcy⟩

/-- The box of a triangle holds what the triangle spans. -/
theorem box_contains_of_spans (h : t.Spans p) : t.box.plan.contains p = true := by
  have hbox : t.box.plan = Box.ofPoints [t.a.plan, t.b.plan, t.c.plan] := rfl
  refine contains_of_spans (fun v hv => ?_) h
  rw [hbox]
  exact Box2.contains_ofPoints (List.mem_map_of_mem (f := Point3.plan) hv)

/-! ## Triangles with an area -/

/-- The weight of a corner is the distance from the side across from it. -/
theorem upright_has_iff_sides (hne : t.doubleArea ≠ 0) : t.upright.Has p ↔
    ∀ e ∈ t.sides, 0 ≤ Ring.side e.1.plan e.2.plan p / t.doubleArea := by
  rw [upright_has_iff hne]
  simp [sides]

/-- A triangle with an area spans what it has when upright. -/
theorem spans_iff_upright_has (hne : t.doubleArea ≠ 0) : t.Spans p ↔ t.upright.Has p := by
  rw [upright_has_iff hne]
  constructor
  · rintro ⟨u, v, w, hu, hv, hw, hsum, hx, hy⟩
    have hw' : w = 1 - u - v := by linear_combination hsum
    subst hw'
    have hab : Ring.side t.a.plan t.b.plan p = (1 - u - v) * t.doubleArea := by
      simp only [doubleArea, Ring.side_eq, Point3.plan_x, Point3.plan_y, hx, hy]
      ring
    have hbc : Ring.side t.b.plan t.c.plan p = u * t.doubleArea := by
      simp only [doubleArea, Ring.side_eq, Point3.plan_x, Point3.plan_y, hx, hy]
      ring
    have hca : Ring.side t.c.plan t.a.plan p = v * t.doubleArea := by
      simp only [doubleArea, Ring.side_eq, Point3.plan_x, Point3.plan_y, hx, hy]
      ring
    rw [hab, hbc, hca, mul_div_cancel_right₀ _ hne, mul_div_cancel_right₀ _ hne,
      mul_div_cancel_right₀ _ hne]
    exact ⟨hw, hu, hv⟩
  · rintro ⟨hab, hbc, hca⟩
    obtain ⟨hx, hy⟩ := t.doubleArea_mul p
    refine ⟨_, _, _, hbc, hca, hab, ?_, ?_, ?_⟩
    · rw [← add_div, ← add_div, div_eq_one_iff_eq hne, ← t.side_add_side p]
      ring
    · refine mul_left_cancel₀ hne ?_
      field_simp
      exact hx
    · refine mul_left_cancel₀ hne ?_
      field_simp
      exact hy

/-! ## Triangles without an area -/

/-- What a triangle without an area spans is on its sides. -/
theorem exists_on_of_spans (hzero : t.doubleArea = 0) (h : t.Spans p) :
    ∃ e ∈ t.sides, (⟨e.1, e.2⟩ : Segment K).On p := by
  obtain ⟨u, v, w, hu, hv, hw, hsum, hx, hy⟩ := h
  have hu' : u = 1 - v - w := by linear_combination hsum
  subst hu'
  by_cases hab : t.a.plan = t.b.plan
  · -- The third corner and either of the others span everything.
    obtain ⟨habx, haby⟩ := Point2.ext_iff.mp hab
    simp only [Point3.plan_x, Point3.plan_y] at habx haby
    refine ⟨(t.b, t.c), by simp [sides], w, hw, by linarith, ?_⟩
    ext
    · simp only [Point3.plan_x, Segment.pointAt_x, hx, habx]
      ring
    · simp only [Point3.plan_y, Segment.pointAt_y, hy, haby]
      ring
  obtain ⟨k, hcx, hcy⟩ := Ring.exists_along hab hzero
  -- Along the first side the corners are at zero, one and `k`, and the location is at `v + w * k`.
  set line : Segment K := ⟨t.a, t.b⟩
  have ha : (line.pointAt 0).plan = t.a.plan := line.pointAt_plan_zero
  have hb : (line.pointAt 1).plan = t.b.plan := line.pointAt_plan_one
  have hc : (line.pointAt k).plan = t.c.plan := by
    simp only [Point3.plan_x, Point3.plan_y] at hcx hcy
    ext
    · simp only [Point3.plan_x, Segment.pointAt_x]
      linear_combination -hcx
    · simp only [Point3.plan_y, Segment.pointAt_y]
      linear_combination -hcy
  have hp : (line.pointAt (v + w * k)).plan = p := by
    simp only [Point3.plan_x, Point3.plan_y] at hcx hcy
    ext
    · simp only [Point3.plan_x, Segment.pointAt_x, hx]
      linear_combination -w * hcx
    · simp only [Point3.plan_y, Segment.pointAt_y, hy]
      linear_combination -w * hcy
  rw [← hp]
  rcases lt_or_ge k 0 with hk | hk
  · have hpart := line.on_part (t := k) (u := v + w * k) (v := 1) (by nlinarith) (by nlinarith)
    refine ⟨(t.b, t.c), by simp [sides], ?_⟩
    exact (Segment.on_turned _).mp ((Segment.on_congr hc hb).mp hpart)
  have hlow : 0 ≤ v + w * k := add_nonneg hv (mul_nonneg hw hk)
  rcases le_or_gt k 1 with hk' | hk'
  · have hpart := line.on_part hlow (show v + w * k ≤ 1 by nlinarith)
    exact ⟨(t.a, t.b), by simp [sides], (Segment.on_congr ha hb).mp hpart⟩
  · have hpart := line.on_part hlow (show v + w * k ≤ k by nlinarith)
    refine ⟨(t.c, t.a), by simp [sides], ?_⟩
    exact (Segment.on_turned _).mp ((Segment.on_congr ha hc).mp hpart)

/-! ## The barycentric test -/

/-- A triangle without an area has no barycentric coordinates. -/
theorem doubleArea_ne_zero_of_barycentric? {g : Barycentric K} (hg : t.barycentric? p = some g) :
    t.doubleArea ≠ 0 := by
  intro hzero
  simp only [barycentric?, Barycentric.of?] at hg
  split at hg
  · cases hg
  · next hdenom =>
    refine hdenom ?_
    rw [beq_iff_eq]
    simp only [doubleArea, Ring.side_eq, Point3.plan_x, Point3.plan_y] at hzero
    simp only [Point2.sub_x, Point2.sub_y, Point3.plan_x, Point3.plan_y]
    linear_combination
      ((t.b.x - t.a.x) * (t.c.y - t.a.y) - (t.b.y - t.a.y) * (t.c.x - t.a.x)) * hzero

/-- The barycentric test takes as inside what the triangle spans. -/
theorem inside_iff_spans {g : Barycentric K} (hg : t.barycentric? p = some g) :
    g.inside = true ↔ t.Spans p := by
  have hne := doubleArea_ne_zero_of_barycentric? hg
  obtain ⟨g', hg', hinside⟩ := exists_inside_iff hne p
  rw [hg, Option.some.injEq] at hg'
  rw [hg', hinside, spans_iff_upright_has hne]

/-- A triangle spans the locations that are outside of it by nothing. -/
theorem spans_iff_excess_le {g : Barycentric K} (hg : t.barycentric? p = some g) :
    t.Spans p ↔ g.excess ≤ 0 := by
  rw [← inside_iff_spans hg]
  exact ⟨fun hinside => (Barycentric.excess_of_inside hinside).le, g.excess_nonneg.2⟩

/-- A location that a triangle with an area spans passes the barycentric test. -/
theorem exists_barycentric?_of_spans (hne : t.doubleArea ≠ 0) (h : t.Spans p) :
    ∃ g, t.barycentric? p = some g ∧ g.inside = true := by
  obtain ⟨g, hg, hinside⟩ := exists_inside_iff hne p
  exact ⟨g, hg, hinside.mpr ((spans_iff_upright_has hne).mp h)⟩

/-! ## Lines that come from elsewhere -/

/-- What is positive was not negative shortly before. -/
theorem exists_affine_before {m n v : K} (h : 0 < m + n * v) :
    ∃ u, u < v ∧ ∀ u', u ≤ u' → u' ≤ v → 0 ≤ m + n * u' := by
  have hpos : 0 < |n| + 1 := by positivity
  refine ⟨v - (m + n * v) / (|n| + 1), sub_lt_self _ (div_pos h hpos), fun u' hu hu' => ?_⟩
  have hshort : (v - u') * (|n| + 1) ≤ m + n * v := by
    rw [← le_div_iff₀ hpos]
    linarith
  have hdrop : (v - u') * n ≤ (v - u') * |n| :=
    mul_le_mul_of_nonneg_left (le_abs_self n) (sub_nonneg.mpr hu')
  linarith

/-- Before a line is at a place off all sides it was in the triangle already. -/
theorem exists_upright_has_before (hne : t.doubleArea ≠ 0)
    (h : ∀ e ∈ t.sides, 0 < Ring.side e.1.plan e.2.plan (line.pointAt v).plan / t.doubleArea) :
    ∃ u, u < v ∧ ∀ u', u ≤ u' → u' ≤ v → t.upright.Has (line.pointAt u').plan := by
  have hside : ∀ e ∈ t.sides, ∃ u, u < v ∧ ∀ u', u ≤ u' → u' ≤ v →
      0 ≤ Ring.side e.1.plan e.2.plan (line.pointAt u').plan / t.doubleArea := by
    intro e he
    have hpos := h e he
    simp only [Ring.side_pointAt, add_div, mul_div_right_comm] at hpos ⊢
    exact exists_affine_before hpos
  obtain ⟨u₁, hu₁, h₁⟩ := hside (t.a, t.b) (by simp [sides])
  obtain ⟨u₂, hu₂, h₂⟩ := hside (t.b, t.c) (by simp [sides])
  obtain ⟨u₃, hu₃, h₃⟩ := hside (t.c, t.a) (by simp [sides])
  refine ⟨max u₁ (max u₂ u₃), max_lt hu₁ (max_lt hu₂ hu₃), fun u' hmax hle => ?_⟩
  rw [max_le_iff, max_le_iff] at hmax
  rw [upright_has_iff hne]
  exact ⟨h₁ u' hmax.1 hle, h₂ u' hmax.2.1 hle, h₃ u' hmax.2.2 hle⟩

/-- A line that is in a triangle, but not from the start, comes in over a side. -/
theorem exists_on_of_not_spans_start (hne : t.doubleArea ≠ 0) (hstart : ¬ t.Spans line.p0.plan)
    (h0 : 0 ≤ v) (h1 : v ≤ 1) (h : t.Spans (line.pointAt v).plan) :
    ∃ w, 0 ≤ w ∧ w ≤ v ∧ ∃ e ∈ t.sides, (⟨e.1, e.2⟩ : Segment K).On (line.pointAt w).plan := by
  rw [spans_iff_upright_has hne] at hstart h
  obtain ⟨lo, hi, hwithin⟩ := t.upright.exists_within_eq line
  have hv : v ∈ Set.Icc lo hi := hwithin ▸ ⟨h0, h1, h⟩
  have hlo : lo ∈ t.upright.within line := hwithin ▸ ⟨le_rfl, hv.1.trans hv.2⟩
  have hpos : 0 < lo := by
    refine lt_of_le_of_ne hlo.1 fun hzero => hstart ?_
    rw [← line.pointAt_plan_zero, hzero]
    exact hlo.2.2
  refine ⟨lo, hlo.1, hv.1, ?_⟩
  -- Off all sides the line would have been in the triangle before.
  by_contra hnone
  have hoff : ∀ e ∈ t.sides,
      0 < Ring.side e.1.plan e.2.plan (line.pointAt lo).plan / t.doubleArea := by
    intro e he
    refine lt_of_le_of_ne ((upright_has_iff_sides hne).mp hlo.2.2 e he) fun hzero => ?_
    exact hnone ⟨e, he, on_of_upright_has hne he hlo.2.2
      ((div_eq_zero_iff.mp hzero.symm).resolve_right hne)⟩
  obtain ⟨u, hu, hbefore⟩ := exists_upright_has_before hne hoff
  have hlt : max u 0 < lo := max_lt hu hpos
  have hearlier : max u 0 ∈ t.upright.within line :=
    ⟨le_max_right u 0, hlt.le.trans hlo.2.1, hbefore _ (le_max_left u 0) hlt.le⟩
  rw [hwithin] at hearlier
  exact hlt.not_ge hearlier.1

/-- **First contact.** A line that a triangle with an area does not hold from the start meets a
    side before it is at any place that the triangle spans. -/
theorem exists_contact (hstart : t.doubleArea ≠ 0 → ¬ t.Spans line.p0.plan)
    (h0 : 0 ≤ v) (h1 : v ≤ 1) (h : t.Spans (line.pointAt v).plan) :
    ∃ w, 0 ≤ w ∧ w ≤ v ∧ ∃ e ∈ t.sides, (⟨e.1, e.2⟩ : Segment K).On (line.pointAt w).plan := by
  by_cases hzero : t.doubleArea = 0
  · exact ⟨v, h0, le_rfl, exists_on_of_spans hzero h⟩
  · exact exists_on_of_not_spans_start hzero (hstart hzero) h0 h1 h

end Triangle

end SiteSection
