import Mathlib.Order.Interval.Set.Basic
import SiteSection.Proofs.Plan.Boxes
import SiteSection.Triangle

/-! # Triangles in exact arithmetic

  A triangle with a positive area runs counter-clockwise and has the locations that lie to the
  right of none of its sides. The distances from the sides are its barycentric weights, so
  these are the locations that the barycentric test takes as inside.

  A line is in a triangle along an interval of its parameters.
-/

namespace SiteSection

/-! ## Turning a triangle

  Every side is the first side of a triangle with the same corners in another order. -/

namespace Triangle

variable {α : Type} {t t' : Triangle α} {e : Point3 α × Point3 α} {v : Point3 α}

/-- The same triangle from each of its corners. -/
def turns (t : Triangle α) : List (Triangle α) := [t, ⟨t.b, t.c, t.a⟩, ⟨t.c, t.a, t.b⟩]

theorem mem_turns : t' ∈ t.turns ↔ t' = t ∨ t' = ⟨t.b, t.c, t.a⟩ ∨ t' = ⟨t.c, t.a, t.b⟩ := by
  simp [turns]

theorem exists_mem_turns (h : e ∈ t.sides) : ∃ c, (⟨e.1, e.2, c⟩ : Triangle α) ∈ t.turns := by
  simp only [sides, List.mem_cons, List.not_mem_nil, or_false] at h
  rcases h with rfl | rfl | rfl
  · exact ⟨t.c, mem_turns.mpr (.inl rfl)⟩
  · exact ⟨t.a, mem_turns.mpr (.inr (.inl rfl))⟩
  · exact ⟨t.b, mem_turns.mpr (.inr (.inr rfl))⟩

theorem mem_sides_of_mem_turns (h : t' ∈ t.turns) : e ∈ t'.sides ↔ e ∈ t.sides := by
  rcases mem_turns.mp h with rfl | rfl | rfl
  · rfl
  · simp only [sides, List.mem_cons, List.not_mem_nil, or_false]
    tauto
  · simp only [sides, List.mem_cons, List.not_mem_nil, or_false]
    tauto

theorem mem_corners_of_mem_turns (h : t' ∈ t.turns) : v ∈ t'.corners ↔ v ∈ t.corners := by
  rcases mem_turns.mp h with rfl | rfl | rfl
  · rfl
  · simp only [corners, List.mem_cons, List.not_mem_nil, or_false]
    tauto
  · simp only [corners, List.mem_cons, List.not_mem_nil, or_false]
    tauto

/-- The ends of a side are corners. -/
theorem mem_corners_of_mem_sides (h : e ∈ t.sides) : e.1 ∈ t.corners ∧ e.2 ∈ t.corners := by
  obtain ⟨c, hturn⟩ := exists_mem_turns h
  constructor
  · exact (mem_corners_of_mem_turns hturn).mp (by simp [corners])
  · exact (mem_corners_of_mem_turns hturn).mp (by simp [corners])

end Triangle

variable {K : Type} [ExactScalar K]

namespace Ring

/-- How far a location lies to the left of a line is affine in the location. -/
theorem side_pointAt (a b : Point2 K) (s : Segment K) (t : K) :
    side a b (s.pointAt t).plan =
      side a b s.p0.plan + (side a b s.p1.plan - side a b s.p0.plan) * t := by
  simp only [side_eq, Point3.plan_x, Point3.plan_y, Segment.pointAt_x, Segment.pointAt_y]
  ring

/-- A straight corner and the edge before it give the direction of the edge between the ends. -/
theorem exists_along {a b c : Point2 K} (hab : a ≠ b) (h : side a b c = 0) :
    ∃ k, c.x - a.x = k * (b.x - a.x) ∧ c.y - a.y = k * (b.y - a.y) := by
  rw [side_eq] at h
  by_cases hx : b.x - a.x = 0
  · have hy : b.y - a.y ≠ 0 := fun hy =>
      hab (Point2.ext (sub_eq_zero.mp hx).symm (sub_eq_zero.mp hy).symm)
    have hcx : c.x - a.x = 0 := by
      rw [hx, zero_mul, zero_sub, neg_eq_zero] at h
      exact (mul_eq_zero.mp h).resolve_left hy
    exact ⟨(c.y - a.y) / (b.y - a.y), by rw [hcx, hx, mul_zero], (div_mul_cancel₀ _ hy).symm⟩
  · refine ⟨(c.x - a.x) / (b.x - a.x), (div_mul_cancel₀ _ hx).symm, ?_⟩
    field_simp
    linarith

theorem side_of_on {s : Segment K} {p : Point2 K} (h : s.On p) :
    side s.p0.plan s.p1.plan p = 0 := by
  obtain ⟨t, _, _, rfl⟩ := h
  simp only [side_eq, Point3.plan_x, Point3.plan_y, Segment.pointAt_x, Segment.pointAt_y]
  ring

end Ring

namespace Triangle

variable (t : Triangle K) {t' : Triangle K} {p : Point2 K} {e e' : Point3 K × Point3 K}

/-- Twice the plan area, positive for a triangle that runs counter-clockwise. -/
def doubleArea : K := Ring.side t.a.plan t.b.plan t.c.plan

/-- Is a location in the triangle, borders included: does it lie to the right of no side? -/
def Has (p : Point2 K) : Prop := ∀ e ∈ t.sides, 0 ≤ Ring.side e.1.plan e.2.plan p

/-- Is a location in the triangle and on no border? -/
def Inside (p : Point2 K) : Prop := ∀ e ∈ t.sides, 0 < Ring.side e.1.plan e.2.plan p

theorem has_iff : t.Has p ↔ 0 ≤ Ring.side t.a.plan t.b.plan p ∧
    0 ≤ Ring.side t.b.plan t.c.plan p ∧ 0 ≤ Ring.side t.c.plan t.a.plan p := by
  simp [Has, sides]

theorem inside_iff : t.Inside p ↔ 0 < Ring.side t.a.plan t.b.plan p ∧
    0 < Ring.side t.b.plan t.c.plan p ∧ 0 < Ring.side t.c.plan t.a.plan p := by
  simp [Inside, sides]

/-! ## Weights -/

theorem side_add_side (p : Point2 K) : Ring.side t.a.plan t.b.plan p +
    Ring.side t.b.plan t.c.plan p + Ring.side t.c.plan t.a.plan p = t.doubleArea := by
  simp only [doubleArea, Ring.side_eq]
  ring

/-- A location is the mean of the corners, each weighted by the distance from the side across
    from it. -/
theorem doubleArea_mul (p : Point2 K) :
    t.doubleArea * p.x = Ring.side t.b.plan t.c.plan p * t.a.x +
        Ring.side t.c.plan t.a.plan p * t.b.x + Ring.side t.a.plan t.b.plan p * t.c.x ∧
      t.doubleArea * p.y = Ring.side t.b.plan t.c.plan p * t.a.y +
        Ring.side t.c.plan t.a.plan p * t.b.y + Ring.side t.a.plan t.b.plan p * t.c.y := by
  simp only [doubleArea, Ring.side_eq, Point3.plan_x, Point3.plan_y]
  constructor <;> ring

section
variable {t} (h : t' ∈ t.turns)
include h

theorem has_of_mem_turns : t'.Has p ↔ t.Has p := by
  simp only [Has, mem_sides_of_mem_turns h]

theorem inside_of_mem_turns : t'.Inside p ↔ t.Inside p := by
  simp only [Inside, mem_sides_of_mem_turns h]

theorem doubleArea_of_mem_turns : t'.doubleArea = t.doubleArea := by
  rcases mem_turns.mp h with rfl | rfl | rfl
  · rfl
  · simp only [doubleArea, Ring.side_eq]
    ring
  · simp only [doubleArea, Ring.side_eq]
    ring

end

/-! ## Sides and corners -/

section
variable {t} (hpos : 0 < t.doubleArea)
include hpos

/-- A triangle has the places of its sides. -/
theorem has_of_on (he : e ∈ t.sides) (hp : (⟨e.1, e.2⟩ : Segment K).On p) : t.Has p := by
  obtain ⟨c, hturn⟩ := exists_mem_turns he
  rw [← doubleArea_of_mem_turns hturn] at hpos
  rw [← has_of_mem_turns hturn, has_iff]
  have hzero : Ring.side e.1.plan e.2.plan p = 0 := Ring.side_of_on hp
  obtain ⟨u, hu, hu', rfl⟩ := hp
  refine ⟨hzero.ge, ?_, ?_⟩
  · have hweight : Ring.side e.2.plan c.plan ((⟨e.1, e.2⟩ : Segment K).pointAt u).plan =
        (1 - u) * (⟨e.1, e.2, c⟩ : Triangle K).doubleArea := by
      rw [Ring.side_pointAt]
      simp only [doubleArea, Ring.side_eq]
      ring
    rw [hweight]
    exact mul_nonneg (sub_nonneg.mpr hu') hpos.le
  · have hweight : Ring.side c.plan e.1.plan ((⟨e.1, e.2⟩ : Segment K).pointAt u).plan =
        u * (⟨e.1, e.2, c⟩ : Triangle K).doubleArea := by
      rw [Ring.side_pointAt]
      simp only [doubleArea, Ring.side_eq]
      ring
    rw [hweight]
    exact mul_nonneg hu hpos.le

/-- What a triangle has on the line of a side is on the side. -/
theorem on_of_side_eq_zero (he : e ∈ t.sides) (hp : t.Has p)
    (hside : Ring.side e.1.plan e.2.plan p = 0) : (⟨e.1, e.2⟩ : Segment K).On p := by
  obtain ⟨c, hturn⟩ := exists_mem_turns he
  rw [← has_of_mem_turns hturn] at hp
  rw [← doubleArea_of_mem_turns hturn] at hpos
  set t' : Triangle K := ⟨e.1, e.2, c⟩ with ht'
  obtain ⟨_, hbc, hca⟩ := t'.has_iff.mp hp
  have hsum := t'.side_add_side p
  obtain ⟨hx, hy⟩ := t'.doubleArea_mul p
  rw [hside, zero_add] at hsum
  rw [hside, zero_mul, add_zero] at hx hy
  -- The weight of the far end is the parameter on the side.
  refine ⟨Ring.side t'.c.plan t'.a.plan p / t'.doubleArea, div_nonneg hca hpos.le,
    (div_le_one hpos).mpr (by linarith), ?_⟩
  ext
  · refine mul_left_cancel₀ hpos.ne' ?_
    simp only [Point3.plan_x, Segment.pointAt_x]
    field_simp
    linear_combination -t'.a.x * hsum - hx
  · refine mul_left_cancel₀ hpos.ne' ?_
    simp only [Point3.plan_y, Segment.pointAt_y]
    field_simp
    linear_combination -t'.a.y * hsum - hy

/-- A location to the right and to the left of no side but one is the corner across from it. -/
theorem eq_corner (h0 : Ring.side t.a.plan t.b.plan p = 0)
    (h1 : Ring.side t.b.plan t.c.plan p = 0) : t.b.plan = p := by
  have hsum := t.side_add_side p
  rw [h0, h1, zero_add, zero_add] at hsum
  obtain ⟨hx, hy⟩ := t.doubleArea_mul p
  rw [h0, h1, hsum, zero_mul, zero_mul, zero_add, add_zero] at hx hy
  exact (Point2.ext (mul_left_cancel₀ hpos.ne' hx) (mul_left_cancel₀ hpos.ne' hy)).symm

/-- Two sides have a corner in common and nothing else. -/
theorem exists_corner_of_on (he : e ∈ t.sides) (he' : e' ∈ t.sides) (hne : e ≠ e')
    (hp : (⟨e.1, e.2⟩ : Segment K).On p) (hp' : (⟨e'.1, e'.2⟩ : Segment K).On p) :
    ∃ v ∈ t.corners, v.plan = p := by
  obtain ⟨c, hturn⟩ := exists_mem_turns he
  rw [← mem_sides_of_mem_turns hturn] at he'
  have hzero : Ring.side e.1.plan e.2.plan p = 0 := Ring.side_of_on hp
  have hzero' : Ring.side e'.1.plan e'.2.plan p = 0 := Ring.side_of_on hp'
  simp only [sides, List.mem_cons, List.not_mem_nil, or_false] at he'
  rcases he' with rfl | rfl | rfl
  · exact absurd rfl hne
  · refine ⟨e.2, (mem_corners_of_mem_sides he).2, ?_⟩
    rw [← doubleArea_of_mem_turns hturn] at hpos
    exact eq_corner hpos hzero hzero'
  · refine ⟨e.1, (mem_corners_of_mem_sides he).1, ?_⟩
    have hlast : (⟨c, e.1, e.2⟩ : Triangle K) ∈ (⟨e.1, e.2, c⟩ : Triangle K).turns :=
      mem_turns.mpr (.inr (.inr rfl))
    rw [← doubleArea_of_mem_turns hturn, ← doubleArea_of_mem_turns hlast] at hpos
    exact eq_corner hpos hzero' hzero

end

variable {t}

/-- The three sides of a triangle with an area are different. -/
theorem nodup_sides (hne : t.doubleArea ≠ 0) : t.sides.Nodup := by
  have hdiff : ∀ {u v w : Point3 K}, (⟨u, v, w⟩ : Triangle K).doubleArea = t.doubleArea →
      u ≠ v := by
    rintro u v w harea rfl
    rw [← harea] at hne
    simp [doubleArea, Ring.side_eq] at hne
  have hab : t.a ≠ t.b := hdiff (doubleArea_of_mem_turns (mem_turns.mpr (.inl rfl)))
  have hbc : t.b ≠ t.c := hdiff (doubleArea_of_mem_turns (mem_turns.mpr (.inr (.inl rfl))))
  have hca : t.c ≠ t.a := hdiff (doubleArea_of_mem_turns (mem_turns.mpr (.inr (.inr rfl))))
  simp [sides, hab, hca.symm, hbc]

/-- A side has one number. -/
theorem number_inj (hne : t.doubleArea ≠ 0) {m n : Nat} (he : t.sides[m]? = some e)
    (he' : t.sides[n]? = some e) : m = n := by
  have hm : m < t.sides.length := (List.getElem?_eq_some_iff.mp he).1
  exact (List.getElem?_inj hm (nodup_sides hne)).mp (he.trans he'.symm)

/-- A corner is an end of a side. -/
theorem exists_on_of_mem_corners {v : Point3 K} (hv : v ∈ t.corners) :
    ∃ e ∈ t.sides, (⟨e.1, e.2⟩ : Segment K).On v.plan := by
  simp only [corners, List.mem_cons, List.not_mem_nil, or_false] at hv
  rcases hv with rfl | rfl | rfl
  · exact ⟨(t.a, t.b), by simp [sides], Segment.on_p0 _⟩
  · exact ⟨(t.b, t.c), by simp [sides], Segment.on_p0 _⟩
  · exact ⟨(t.c, t.a), by simp [sides], Segment.on_p0 _⟩

/-- Nothing inside is on a side. -/
theorem not_on_of_inside (hp : t.Inside p) (he : e ∈ t.sides) :
    ¬ (⟨e.1, e.2⟩ : Segment K).On p := by
  intro hon
  have hzero : Ring.side e.1.plan e.2.plan p = 0 := Ring.side_of_on hon
  exact (hp e he).ne' hzero

/-! ## Triangles with a common side -/

section
variable {P Q C D : Point3 K} {δ : K}

/-- The place that is a share of the way from the middle of a side to a point. -/
def towards (P Q C : Point3 K) (δ : K) : Point2 K :=
  ((⟨(⟨P, Q⟩ : Segment K).pointAt (1 / 2), C⟩ : Segment K).pointAt δ).plan

theorem side_towards (P Q C : Point3 K) (δ : K) (a b : Point2 K) :
    Ring.side a b (towards P Q C δ) =
      (1 - δ) / 2 * (Ring.side a b P.plan + Ring.side a b Q.plan) + δ * Ring.side a b C.plan := by
  rw [towards, Ring.side_pointAt, Ring.side_pointAt]
  ring

/-- On the way from a side to the corner across from it are places inside. -/
theorem inside_towards (hC : 0 < (⟨P, Q, C⟩ : Triangle K).doubleArea) (h0 : 0 < δ) (h1 : δ < 1) :
    (⟨P, Q, C⟩ : Triangle K).Inside (towards P Q C δ) := by
  have hrest : 0 < (1 - δ) / 2 := half_pos (sub_pos.mpr h1)
  have hPQ : Ring.side P.plan Q.plan (towards P Q C δ) =
      δ * (⟨P, Q, C⟩ : Triangle K).doubleArea := by
    rw [side_towards]
    simp only [doubleArea, Ring.side_eq]
    ring
  have hQC : Ring.side Q.plan C.plan (towards P Q C δ) =
      (1 - δ) / 2 * (⟨P, Q, C⟩ : Triangle K).doubleArea := by
    rw [side_towards]
    simp only [doubleArea, Ring.side_eq]
    ring
  have hCP : Ring.side C.plan P.plan (towards P Q C δ) =
      (1 - δ) / 2 * (⟨P, Q, C⟩ : Triangle K).doubleArea := by
    rw [side_towards]
    simp only [doubleArea, Ring.side_eq]
    ring
  rw [inside_iff, hPQ, hQC, hCP]
  exact ⟨mul_pos h0 hC, mul_pos hrest hC, mul_pos hrest hC⟩

/-- A short part of the way is in every triangle on the same side of the common side. -/
theorem has_towards (hD : 0 < (⟨P, Q, D⟩ : Triangle K).doubleArea)
    (hPQ : 0 ≤ Ring.side P.plan Q.plan (towards P Q C δ)) (h0 : 0 ≤ δ)
    (hshort : δ * (2 * ((⟨P, Q, D⟩ : Triangle K).doubleArea +
      |Ring.side Q.plan D.plan C.plan| + |Ring.side D.plan P.plan C.plan|)) ≤
        (⟨P, Q, D⟩ : Triangle K).doubleArea) :
    (⟨P, Q, D⟩ : Triangle K).Has (towards P Q C δ) := by
  set u := Ring.side Q.plan D.plan C.plan with hu
  set v := Ring.side D.plan P.plan C.plan with hv
  set B := (⟨P, Q, D⟩ : Triangle K).doubleArea with hB
  have hQD : Ring.side Q.plan D.plan (towards P Q C δ) = (1 - δ) / 2 * B + δ * u := by
    rw [side_towards]
    simp only [hu, hB, doubleArea, Ring.side_eq]
    ring
  have hDP : Ring.side D.plan P.plan (towards P Q C δ) = (1 - δ) / 2 * B + δ * v := by
    rw [side_towards]
    simp only [hv, hB, doubleArea, Ring.side_eq]
    ring
  have hlow : ∀ w, -(δ * |w|) ≤ δ * w := by
    intro w
    rw [← mul_neg]
    exact mul_le_mul_of_nonneg_left (neg_abs_le w) h0
  have hδB : 0 ≤ δ * B := mul_nonneg h0 hD.le
  have hδu : 0 ≤ δ * |u| := mul_nonneg h0 (abs_nonneg u)
  have hδv : 0 ≤ δ * |v| := mul_nonneg h0 (abs_nonneg v)
  rw [has_iff, hQD, hDP]
  refine ⟨hPQ, ?_, ?_⟩
  · linarith [hlow u]
  · linarith [hlow v]

/-- Triangles on one side of a common side overlap. -/
theorem exists_inside_of_common_side (hC : 0 < (⟨P, Q, C⟩ : Triangle K).doubleArea)
    (hD : 0 < (⟨P, Q, D⟩ : Triangle K).doubleArea) :
    ∃ p, (⟨P, Q, C⟩ : Triangle K).Inside p ∧ (⟨P, Q, D⟩ : Triangle K).Has p := by
  set B := (⟨P, Q, D⟩ : Triangle K).doubleArea with hB
  set reach := |Ring.side Q.plan D.plan C.plan| + |Ring.side D.plan P.plan C.plan| with hreach
  have hnonneg : 0 ≤ reach := add_nonneg (abs_nonneg _) (abs_nonneg _)
  have hden : 0 < 2 * (B + reach) := by linarith
  -- So short a way towards the third corner of the first triangle stays in the second.
  have h0 : 0 < B / (2 * (B + reach)) := div_pos hD hden
  have h1 : B / (2 * (B + reach)) < 1 := by
    rw [div_lt_one hden]
    linarith
  have hinside := inside_towards hC h0 h1
  refine ⟨_, hinside, has_towards hD ?_ h0.le ?_⟩
  · exact (hinside (P, Q) (by simp [sides])).le
  · rw [add_assoc, ← hreach, ← hB, div_mul_cancel₀ _ hden.ne']

end

/-! ## Barycentric coordinates -/

/-- The barycentric coordinates are the distances from the sides, as shares of the area. -/
theorem exists_barycentric (hne : t.doubleArea ≠ 0) (p : Point2 K) :
    ∃ g, t.barycentric? p = some g ∧
      g.u = Ring.side t.a.plan t.b.plan p / t.doubleArea ∧
      g.v = Ring.side t.c.plan t.a.plan p / t.doubleArea ∧
      g.w = Ring.side t.b.plan t.c.plan p / t.doubleArea := by
  have hsum := t.side_add_side p
  -- The denominator is the square of the area.
  set v0 := t.c.plan - t.a.plan with hv0
  set v1 := t.b.plan - t.a.plan with hv1
  set v2 := p - t.a.plan with hv2
  have hdenom : (v0.x * v0.x + v0.y * v0.y) * (v1.x * v1.x + v1.y * v1.y) -
      (v0.x * v1.x + v0.y * v1.y) * (v0.x * v1.x + v0.y * v1.y) =
        t.doubleArea * t.doubleArea := by
    simp only [hv0, hv1, doubleArea, Ring.side_eq, Point2.sub_x, Point2.sub_y]
    ring
  have hu : ((v1.x * v1.x + v1.y * v1.y) * (v0.x * v2.x + v0.y * v2.y) -
      (v0.x * v1.x + v0.y * v1.y) * (v1.x * v2.x + v1.y * v2.y)) *
        (1 / (t.doubleArea * t.doubleArea)) =
          Ring.side t.a.plan t.b.plan p / t.doubleArea := by
    rw [mul_one_div, div_eq_div_iff (mul_ne_zero hne hne) hne]
    simp only [hv0, hv1, hv2, doubleArea, Ring.side_eq, Point2.sub_x, Point2.sub_y]
    ring
  have hv : ((v0.x * v0.x + v0.y * v0.y) * (v1.x * v2.x + v1.y * v2.y) -
      (v0.x * v1.x + v0.y * v1.y) * (v0.x * v2.x + v0.y * v2.y)) *
        (1 / (t.doubleArea * t.doubleArea)) =
          Ring.side t.c.plan t.a.plan p / t.doubleArea := by
    rw [mul_one_div, div_eq_div_iff (mul_ne_zero hne hne) hne]
    simp only [hv0, hv1, hv2, doubleArea, Ring.side_eq, Point2.sub_x, Point2.sub_y]
    ring
  have hw : 1 - Ring.side t.a.plan t.b.plan p / t.doubleArea -
      Ring.side t.c.plan t.a.plan p / t.doubleArea =
        Ring.side t.b.plan t.c.plan p / t.doubleArea := by
    rw [sub_sub, ← add_div, eq_div_iff hne, sub_mul, one_mul, div_mul_cancel₀ _ hne]
    linarith
  refine ⟨⟨_, _, _⟩, ?_, rfl, rfl, rfl⟩
  simp only [barycentric?, Barycentric.of?]
  rw [hdenom, if_neg (by simpa using hne), hu, hv, hw]

end Triangle

namespace Barycentric

theorem inside_iff {g : Barycentric K} : g.inside = true ↔ 0 ≤ g.u ∧ 0 ≤ g.v ∧ 0 ≤ g.w := by
  simp [inside, and_assoc]

theorem excess_of_inside {g : Barycentric K} (h : g.inside = true) : g.excess = 0 := by
  obtain ⟨hu, hv, hw⟩ := inside_iff.mp h
  simp [excess, hu.not_gt, hv.not_gt, hw.not_gt]

theorem excess_eq_sum (g : Barycentric K) : g.excess =
    (([g.u, g.v, g.w].filter fun x => decide (x < 0)).map fun x => -x).sum := by
  rw [excess, Scalar.sum, List.sum_eq_foldl, neg_zero]

/-- The excess is at least the magnitude of any negative weight. -/
theorem neg_le_excess {g : Barycentric K} {x : K} (hx : x ∈ [g.u, g.v, g.w]) (hneg : x < 0) :
    -x ≤ g.excess := by
  rw [excess_eq_sum]
  refine List.single_le_sum ?_ _ (List.mem_map_of_mem (List.mem_filter.mpr ⟨hx, by simpa⟩))
  intro y hy
  obtain ⟨v, hv, rfl⟩ := List.mem_map.mp hy
  exact neg_nonneg.mpr (of_decide_eq_true (List.mem_filter.mp hv).2).le

/-- The excess is not negative, and zero only inside. -/
theorem excess_nonneg (g : Barycentric K) : 0 ≤ g.excess ∧ (g.excess ≤ 0 → g.inside = true) := by
  constructor
  · rw [excess_eq_sum]
    refine List.sum_nonneg fun y hy => ?_
    obtain ⟨v, hv, rfl⟩ := List.mem_map.mp hy
    exact neg_nonneg.mpr (of_decide_eq_true (List.mem_filter.mp hv).2).le
  · intro hle
    have hall : ∀ x ∈ [g.u, g.v, g.w], 0 ≤ x := fun x hx =>
      not_lt.mp fun hneg => by linarith [neg_le_excess hx hneg]
    exact inside_iff.mpr ⟨hall _ (by simp), hall _ (by simp), hall _ (by simp)⟩

end Barycentric

namespace Triangle

variable {t : Triangle K} {p : Point2 K}

/-! ## Lines through a triangle -/

/-- The parameters at which a line is in the triangle. -/
def within (t : Triangle K) (line : Segment K) : Set K :=
  {u | 0 ≤ u ∧ u ≤ 1 ∧ t.Has (line.pointAt u).plan}

theorem inter_affine (lo hi m n : K) :
    ∃ lo' hi', Set.Icc lo hi ∩ {u | 0 ≤ m + n * u} = Set.Icc lo' hi' := by
  rcases lt_trichotomy n 0 with hn | rfl | hn
  · refine ⟨lo, min hi (-m / n), Set.ext fun u => ?_⟩
    have hiff : 0 ≤ m + n * u ↔ u ≤ -m / n := by
      rw [le_div_iff_of_neg hn]
      constructor <;> intro h <;> linarith
    rw [Set.mem_inter_iff, Set.mem_Icc, Set.mem_Icc, Set.mem_ofPred_eq, hiff, le_min_iff,
      and_assoc]
  · by_cases hm : 0 ≤ m
    · exact ⟨lo, hi, by simp [hm]⟩
    · exact ⟨1, 0, by simp [hm]⟩
  · refine ⟨max lo (-m / n), hi, Set.ext fun u => ?_⟩
    have hiff : 0 ≤ m + n * u ↔ -m / n ≤ u := by
      rw [div_le_iff₀ hn]
      constructor <;> intro h <;> linarith
    rw [Set.mem_inter_iff, Set.mem_Icc, Set.mem_Icc, Set.mem_ofPred_eq, hiff, max_le_iff]
    tauto

/-- A line is in a triangle along an interval. -/
theorem exists_within_eq (t : Triangle K) (line : Segment K) :
    ∃ lo hi, t.within line = Set.Icc lo hi := by
  -- Each side cuts off a part at one end.
  have hcut : ∀ (a b : Point2 K) (lo hi : K), ∃ lo' hi',
      Set.Icc lo hi ∩ {u | 0 ≤ Ring.side a b (line.pointAt u).plan} = Set.Icc lo' hi' := by
    intro a b lo hi
    simp only [Ring.side_pointAt]
    exact inter_affine lo hi _ _
  obtain ⟨lo₁, hi₁, h₁⟩ := hcut t.a.plan t.b.plan 0 1
  obtain ⟨lo₂, hi₂, h₂⟩ := hcut t.b.plan t.c.plan lo₁ hi₁
  obtain ⟨lo₃, hi₃, h₃⟩ := hcut t.c.plan t.a.plan lo₂ hi₂
  refine ⟨lo₃, hi₃, ?_⟩
  rw [← h₃, ← h₂, ← h₁]
  ext u
  simp only [within, has_iff, Set.mem_ofPred_eq, Set.mem_inter_iff, Set.mem_Icc]
  tauto

end Triangle

end SiteSection
