import SiteSection.Proofs.Plan.Winding

/-! # Rings and the sides of their edges

  Where a location lies to the left of an edge, the bearing of the edge from the location turns
  counter-clockwise along the edge. Bearings are told without angles, by a number that grows
  from -1 to 3 on the way round, starting and ending towards the east. An edge that passes that
  direction is one that the winding number counts, and there the bearing falls back by 4 at most.
  Around the ring all differences cancel, so a location to the left of all edges is wound around.
-/

namespace SiteSection

variable {K : Type} [ExactScalar K]

namespace Ring

variable {a b p v : Point2 K} {ring : List (Point2 K)}

/-! ## Bearings -/

/-- How far a direction leans to the east: 1 for due east, -1 for due west. -/
def slant (x y : K) : K := x / (|x| + |y|)

theorem slant_neg (x y : K) : slant (-x) (-y) = -slant x y := by
  unfold slant
  rw [abs_neg, abs_neg, neg_div]

theorem abs_slant_le_one (x y : K) : |slant x y| ≤ 1 := by
  unfold slant
  rw [abs_div, abs_of_nonneg (add_nonneg (abs_nonneg x) (abs_nonneg y))]
  exact div_le_one_of_le₀ (le_add_of_nonneg_right (abs_nonneg y))
    (add_nonneg (abs_nonneg x) (abs_nonneg y))

theorem abs_slant_lt_one (x : K) {y : K} (hy : y ≠ 0) : |slant x y| < 1 := by
  unfold slant
  have hpos : 0 < |x| + |y| := add_pos_of_nonneg_of_pos (abs_nonneg x) (abs_pos.mpr hy)
  rw [abs_div, abs_of_nonneg hpos.le, div_lt_one hpos]
  exact lt_add_of_pos_right _ (abs_pos.mpr hy)

/-- Of two directions to the north, the one further counter-clockwise leans less to the east. -/
theorem slant_lt {x y x' y' : K} (hy : 0 ≤ y) (hy' : 0 ≤ y') (h : 0 < x * y' - y * x') :
    slant x' y' < slant x y := by
  have hpos : 0 < |x| + y := by
    refine lt_of_le_of_ne (add_nonneg (abs_nonneg x) hy) fun hzero => ?_
    have hx : x = 0 := abs_eq_zero.mp (by linarith [abs_nonneg x])
    have hy0 : y = 0 := by linarith [abs_nonneg x]
    simp [hx, hy0] at h
  have hpos' : 0 < |x'| + y' := by
    refine lt_of_le_of_ne (add_nonneg (abs_nonneg x') hy') fun hzero => ?_
    have hx : x' = 0 := abs_eq_zero.mp (by linarith [abs_nonneg x'])
    have hy0 : y' = 0 := by linarith [abs_nonneg x']
    simp [hx, hy0] at h
  unfold slant
  rw [abs_of_nonneg hy, abs_of_nonneg hy', div_lt_div_iff₀ hpos' hpos]
  -- The lean changes sign from east to west only, for the other way is clockwise.
  rcases le_total 0 x with hx | hx <;> rcases le_total 0 x' with hx' | hx'
  · rw [abs_of_nonneg hx, abs_of_nonneg hx']
    linarith
  · rw [abs_of_nonneg hx, abs_of_nonpos hx']
    have hwest := mul_nonpos_of_nonneg_of_nonpos hx hx'
    linarith
  · have hclockwise := mul_nonpos_of_nonpos_of_nonneg hx hy'
    have hclockwise' := mul_nonneg hy hx'
    linarith
  · rw [abs_of_nonpos hx, abs_of_nonpos hx']
    linarith

/-- The bearing of a location from `p`, counter-clockwise: above -1 and below 1 to the north,
    from 1 to 3 to the south and at the height of `p`. -/
def bearing (p v : Point2 K) : K :=
  if v.y ≤ p.y then 2 + slant (v.x - p.x) (v.y - p.y) else -slant (v.x - p.x) (v.y - p.y)

theorem bearing_of_le (h : v.y ≤ p.y) : 1 ≤ bearing p v ∧ bearing p v ≤ 3 := by
  have hslant := abs_le.mp (abs_slant_le_one (v.x - p.x) (v.y - p.y))
  unfold bearing
  rw [if_pos h]
  constructor
  · linarith
  · linarith

theorem bearing_of_lt (h : p.y < v.y) : -1 < bearing p v ∧ bearing p v < 1 := by
  have hslant := abs_lt.mp (abs_slant_lt_one (v.x - p.x) (sub_pos.mpr h).ne')
  unfold bearing
  rw [if_neg h.not_ge]
  constructor
  · linarith
  · linarith

/-- Along an edge with a location to its left the bearing grows, but for an edge that the winding
    number counts. -/
theorem bearing_sub_lt (h : 0 < side a b p) :
    bearing p a - bearing p b < 4 * (windingOf p (a, b) : K) := by
  have hturn : 0 < (a.x - p.x) * (b.y - p.y) - (a.y - p.y) * (b.x - p.x) := by
    rw [side_eq] at h
    linarith
  by_cases ha : a.y ≤ p.y
  · by_cases hb : b.y ≤ p.y
    · -- To the south the directions are those to the north, turned round.
      have hzero : windingOf p (a, b) = 0 := by simp [windingOf, ha, hb.not_gt]
      have hslant := slant_lt (neg_nonneg.mpr (sub_nonpos.mpr ha))
        (neg_nonneg.mpr (sub_nonpos.mpr hb))
        (by linarith : 0 < -(a.x - p.x) * -(b.y - p.y) - -(a.y - p.y) * -(b.x - p.x))
      rw [slant_neg, slant_neg] at hslant
      rw [hzero]
      unfold bearing
      rw [if_pos ha, if_pos hb, Int.cast_zero, mul_zero]
      linarith
    · have hone : windingOf p (a, b) = 1 := by simp [windingOf, ha, not_le.mp hb, h]
      have hfrom := (bearing_of_le ha).2
      have hto := (bearing_of_lt (not_le.mp hb)).1
      rw [hone, Int.cast_one, mul_one]
      linarith
  · have hzero : windingOf p (a, b) = 0 := by simp [windingOf, ha, h.le.not_gt]
    rw [hzero, Int.cast_zero, mul_zero, sub_neg]
    by_cases hb : b.y ≤ p.y
    · exact (bearing_of_lt (not_le.mp ha)).2.trans_le (bearing_of_le hb).1
    · have hslant := slant_lt (sub_pos.mpr (not_le.mp ha)).le (sub_pos.mpr (not_le.mp hb)).le hturn
      unfold bearing
      rw [if_neg ha, if_neg hb]
      exact neg_lt_neg hslant

/-- Along an edge with a location to its right the bearing falls in the same way. -/
theorem lt_bearing_sub (h : side a b p < 0) :
    4 * (windingOf p (a, b) : K) < bearing p a - bearing p b := by
  have hturned : 0 < side b a p := by
    rw [side_swap]
    exact neg_pos.mpr h
  have hgrow := bearing_sub_lt hturned
  have hswap : windingOf p (b, a) = -windingOf p (a, b) := windingOf_swap
  rw [hswap, Int.cast_neg] at hgrow
  linarith

theorem windingOf_self (p a : Point2 K) : windingOf p (a, a) = 0 := by
  have hturn : windingOf p (a, a) = -windingOf p (a, a) := windingOf_swap
  omega

/-! ## Around a ring -/

/-- Around a ring, a change of which all differences of a number fall short adds up to more than
    nothing. Elements of the ring that are repeated change nothing. -/
theorem sum_ringEdges_pos {ι : Type} {ring : List ι} (f : ι → K) (c : ι × ι → Int)
    (hzero : ∀ i, c (i, i) = 0) (hreal : ∃ e ∈ ringEdges ring, e.1 ≠ e.2)
    (hlt : ∀ e ∈ ringEdges ring, e.1 ≠ e.2 → f e.1 - f e.2 < 4 * (c e : K)) :
    0 < ((ringEdges ring).map c).sum := by
  have hle : ∀ e ∈ ringEdges ring, f e.1 - f e.2 ≤ 4 * (c e : K) := by
    intro e he
    by_cases hsame : e.1 = e.2
    · obtain ⟨i, j⟩ := e
      obtain rfl : i = j := hsame
      rw [hzero, Int.cast_zero, mul_zero, sub_self]
    · exact (hlt e he hsame).le
  obtain ⟨e, he, hne⟩ := hreal
  have hsum : 0 < ((ringEdges ring).map fun e => 4 * (c e : K)).sum := by
    rw [← sum_ringEdges f ring]
    exact List.sum_lt_sum _ _ hle ⟨e, he, hlt e he hne⟩
  have hcast : ((ringEdges ring).map fun e => 4 * (c e : K)).sum =
      4 * (((ringEdges ring).map c).sum : K) := by
    rw [List.sum_map_mul_left, Int.cast_list_sum, List.map_map]
    rfl
  rw [hcast] at hsum
  exact Int.cast_pos.mp (pos_of_mul_pos_right hsum zero_le_four)

section
variable (hreal : ∃ e ∈ ringEdges ring, e.1 ≠ e.2)
include hreal

/-- A ring winds counter-clockwise around what is to the left of all its edges. -/
theorem winding_pos_of_left
    (hleft : ∀ e ∈ ringEdges ring, e.1 ≠ e.2 → 0 < side e.1 e.2 p) : 0 < winding ring p := by
  rw [winding_eq_sum]
  exact sum_ringEdges_pos (bearing p) (windingOf p) (windingOf_self p) hreal
    fun e he hne => bearing_sub_lt (hleft e he hne)

/-- A ring winds clockwise around what is to the right of all its edges. -/
theorem winding_neg_of_right
    (hright : ∀ e ∈ ringEdges ring, e.1 ≠ e.2 → side e.1 e.2 p < 0) : winding ring p < 0 := by
  have hpos : 0 < ((ringEdges ring).map fun e => -windingOf p e).sum := by
    refine sum_ringEdges_pos (fun v => -bearing p v) _ (fun i => ?_) hreal fun e he hne => ?_
    · rw [windingOf_self, neg_zero]
    · have hfall := lt_bearing_sub (hright e he hne)
      rw [Int.cast_neg]
      linarith
  rw [winding_eq_sum, ← neg_pos, List.sum_neg, List.map_map]
  exact hpos

end

/-- What is strictly on one hand of all edges is inside: to the left of them for a positive `σ`,
    to the right for a negative one. -/
theorem inside_of_within {σ : K} (hreal : ∃ e ∈ ringEdges ring, e.1 ≠ e.2)
    (hwithin : ∀ e ∈ ringEdges ring, e.1 ≠ e.2 → 0 < σ * side e.1 e.2 p) :
    inside ring p = true := by
  rw [inside_iff]
  by_cases hσ : 0 < σ
  · exact (winding_pos_of_left hreal fun e he hne =>
      pos_of_mul_pos_right (hwithin e he hne) hσ.le).ne'
  · exact (winding_neg_of_right hreal fun e he hne =>
      neg_of_mul_pos_right (hwithin e he hne) (not_lt.mp hσ)).ne

end Ring

end SiteSection
