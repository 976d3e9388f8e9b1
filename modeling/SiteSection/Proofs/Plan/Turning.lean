import SiteSection.Building.Corners
import SiteSection.Proofs.Plan.Winding

/-! # Open angles

  Over the real numbers, the open angle at a corner is the angle from the direction of the
  corner before to that of the corner after, up to full turns, of which two corrections take off
  one in all. Its sine and its cosine are known from the coordinates, so it is more than a half
  turn where the way around turns left, less than a half turn where it turns right, and nothing
  only where the way goes back over itself.
-/

namespace SiteSection

/-! ## Directions -/

namespace Point2

/-- The way from one location to another, as a complex number. -/
noncomputable def way (p q : Point2 ℝ) : ℂ := ⟨q.x - p.x, q.y - p.y⟩

variable {p q : Point2 ℝ}

theorem way_ne_zero (h : p ≠ q) : way p q ≠ 0 := by
  rintro hzero
  have hx : q.x - p.x = 0 := congrArg Complex.re hzero
  have hy : q.y - p.y = 0 := congrArg Complex.im hzero
  exact h (Point2.ext (sub_eq_zero.mp hx).symm (sub_eq_zero.mp hy).symm)

theorem norm_mul_cos_angle (p q : Point2 ℝ) : ‖way p q‖ * Real.cos (angle p q) = q.x - p.x :=
  Complex.norm_mul_cos_arg (way p q)

theorem norm_mul_sin_angle (p q : Point2 ℝ) : ‖way p q‖ * Real.sin (angle p q) = q.y - p.y :=
  Complex.norm_mul_sin_arg (way p q)

theorem neg_pi_lt_angle (p q : Point2 ℝ) : -Real.pi < angle p q := Complex.neg_pi_lt_arg _

theorem angle_le_pi (p q : Point2 ℝ) : angle p q ≤ Real.pi := Complex.arg_le_pi _

theorem two_eq : (Scalar.two : ℝ) = 2 := by
  rw [Scalar.two, Scalar.ofNat_eq_cast, Nat.cast_ofNat]

theorem pi_eq : (Circular.pi : ℝ) = Real.pi := rfl

/-- A turn is the difference of two directions, but for a full turn, and at most a half turn. -/
theorem turn_spec (tip tail tip' : Point2 ℝ) :
    -Real.pi < turn tip tail tip' ∧ turn tip tail tip' ≤ Real.pi ∧
      ∃ n : ℤ, turn tip tail tip' = angle tail tip' - angle tail tip + n * (2 * Real.pi) := by
  have hfrom := neg_pi_lt_angle tail tip
  have hfrom' := angle_le_pi tail tip
  have hto := neg_pi_lt_angle tail tip'
  have hto' := angle_le_pi tail tip'
  simp only [turn, two_eq, pi_eq]
  split
  · next hlow => exact ⟨by linarith, by linarith, 1, by push_cast; ring⟩
  · next hlow =>
    split
    · next hhigh => exact ⟨by linarith, by linarith, -1, by push_cast; ring⟩
    · next hhigh => exact ⟨not_le.mp hlow, not_lt.mp hhigh, 0, by push_cast; ring⟩

end Point2

/-! ## Open angles -/

namespace Building

open Point2

variable {before corner after : Point2 ℝ}

/-- An open angle is the difference of two directions, but for full turns, and less than a full
    turn. -/
theorem openAngle_spec (before corner after : Point2 ℝ) :
    0 ≤ openAngle before corner after ∧ openAngle before corner after < 2 * Real.pi ∧
      ∃ n : ℤ, openAngle before corner after =
        angle corner after - angle corner before + n * (2 * Real.pi) := by
  obtain ⟨hlow, hhigh, n, hn⟩ := turn_spec before corner after
  have hpi := Real.pi_pos
  simp only [openAngle, two_eq, pi_eq]
  split
  · next h => exact ⟨h, by linarith, n, hn⟩
  · next h =>
    refine ⟨by linarith, by linarith [not_le.mp h], n + 1, ?_⟩
    rw [hn]
    push_cast
    ring

/-- The sine of an open angle tells to which side the way turns at the corner. -/
theorem sin_openAngle (before corner after : Point2 ℝ) :
    ‖way corner before‖ * ‖way corner after‖ * Real.sin (openAngle before corner after) =
      -Ring.side before corner after := by
  obtain ⟨-, -, n, hn⟩ := openAngle_spec before corner after
  rw [hn, Real.sin_add_int_mul_two_pi, Real.sin_sub, Ring.side_eq]
  linear_combination
    (‖way corner before‖ * Real.cos (angle corner before)) * norm_mul_sin_angle corner after +
      (after.y - corner.y) * norm_mul_cos_angle corner before -
      (‖way corner before‖ * Real.sin (angle corner before)) * norm_mul_cos_angle corner after -
      (after.x - corner.x) * norm_mul_sin_angle corner before

/-- The cosine of an open angle tells how far the way goes back at the corner. -/
theorem cos_openAngle (before corner after : Point2 ℝ) :
    ‖way corner before‖ * ‖way corner after‖ * Real.cos (openAngle before corner after) =
      (before.x - corner.x) * (after.x - corner.x) +
        (before.y - corner.y) * (after.y - corner.y) := by
  obtain ⟨-, -, n, hn⟩ := openAngle_spec before corner after
  rw [hn, Real.cos_add_int_mul_two_pi, Real.cos_sub]
  linear_combination
    (‖way corner before‖ * Real.cos (angle corner before)) * norm_mul_cos_angle corner after +
      (after.x - corner.x) * norm_mul_cos_angle corner before +
      (‖way corner before‖ * Real.sin (angle corner before)) * norm_mul_sin_angle corner after +
      (after.y - corner.y) * norm_mul_sin_angle corner before

/-- The way goes back over itself at a corner: the corner after is in the direction of the corner
    before. -/
def FoldsBack (before corner after : Point2 ℝ) : Prop :=
  Ring.side before corner after = 0 ∧
    0 < (before.x - corner.x) * (after.x - corner.x) +
      (before.y - corner.y) * (after.y - corner.y)

section
variable (hbefore : before ≠ corner) (hafter : corner ≠ after)
include hbefore hafter

theorem norm_mul_norm_pos : 0 < ‖way corner before‖ * ‖way corner after‖ :=
  mul_pos (norm_pos_iff.mpr (way_ne_zero hbefore.symm)) (norm_pos_iff.mpr (way_ne_zero hafter))

/-- There is an open angle wherever the way does not go back over itself. -/
theorem openAngle_pos (hfold : ¬ FoldsBack before corner after) :
    0 < openAngle before corner after := by
  refine lt_of_le_of_ne (openAngle_spec before corner after).1 fun hzero => hfold ?_
  have hsin := sin_openAngle before corner after
  have hcos := cos_openAngle before corner after
  rw [← hzero, Real.sin_zero, mul_zero, zero_eq_neg] at hsin
  rw [← hzero, Real.cos_zero, mul_one] at hcos
  exact ⟨hsin, hcos ▸ norm_mul_norm_pos hbefore hafter⟩

/-- The open angle is less than a half turn where the way turns right. -/
theorem side_neg_of_openAngle_lt (hpos : 0 < openAngle before corner after)
    (hlt : openAngle before corner after < Real.pi) : Ring.side before corner after < 0 := by
  rw [← neg_pos, ← sin_openAngle]
  exact mul_pos (norm_mul_norm_pos hbefore hafter) (Real.sin_pos_of_pos_of_lt_pi hpos hlt)

/-- The open angle is more than a half turn where the way turns left. -/
theorem side_pos_of_lt_openAngle (hlt : Real.pi < openAngle before corner after) :
    0 < Ring.side before corner after := by
  have hfull := (openAngle_spec before corner after).2.1
  have hsin : Real.sin (openAngle before corner after) < 0 := by
    rw [← Real.sin_sub_two_pi]
    exact Real.sin_neg_of_neg_of_neg_pi_lt (by linarith) (by linarith)
  rw [← neg_neg_iff_pos, ← sin_openAngle]
  exact mul_neg_of_pos_of_neg (norm_mul_norm_pos hbefore hafter) hsin

omit hbefore hafter in
/-- The open angle is a half turn where the way goes straight on. -/
theorem side_eq_zero_of_openAngle_eq (h : openAngle before corner after = Real.pi) :
    Ring.side before corner after = 0 := by
  rw [← neg_eq_zero, ← sin_openAngle, h, Real.sin_pi, mul_zero]

/-- **Left turns** have open angles of more than a half turn. -/
theorem pi_lt_openAngle_iff (hfold : ¬ FoldsBack before corner after) :
    Real.pi < openAngle before corner after ↔ 0 < Ring.side before corner after := by
  refine ⟨side_pos_of_lt_openAngle hbefore hafter, fun hleft => not_le.mp fun hle => ?_⟩
  rcases hle.lt_or_eq with hlt | heq
  · exact hleft.not_gt
      (side_neg_of_openAngle_lt hbefore hafter (openAngle_pos hbefore hafter hfold) hlt)
  · exact hleft.ne' (side_eq_zero_of_openAngle_eq heq)

/-- **Right turns** have open angles of less than a half turn. -/
theorem openAngle_lt_pi_iff (hfold : ¬ FoldsBack before corner after) :
    openAngle before corner after < Real.pi ↔ Ring.side before corner after < 0 := by
  refine ⟨side_neg_of_openAngle_lt hbefore hafter (openAngle_pos hbefore hafter hfold),
    fun hright => not_le.mp fun hle => ?_⟩
  rcases hle.lt_or_eq with hlt | heq
  · exact hright.not_gt (side_pos_of_lt_openAngle hbefore hafter hlt)
  · exact hright.ne (side_eq_zero_of_openAngle_eq heq.symm)

end

/-! ## Points beside a corner -/

/-- A point beside a corner is as far from it as the offset says, be it outwards or inwards. -/
theorem dist_beside (eps z : ℝ) (before corner after : Point2 ℝ) :
    (beside eps z before corner after).plan.dist corner = |eps| := by
  refine norm_eq_of_mul_self (abs_nonneg eps) ?_
  set mid := angle corner before + openAngle before corner after / Scalar.two with hmid
  have hx : (beside eps z before corner after).x = corner.x + Real.cos mid * eps := rfl
  have hy : (beside eps z before corner after).y = corner.y + Real.sin mid * eps := rfl
  rw [normSq, sub_x, sub_y, Point3.plan_x, Point3.plan_y, hx, hy, add_sub_cancel_left,
    add_sub_cancel_left, abs_mul_abs_self]
  linear_combination eps * eps * Real.cos_sq_add_sin_sq mid

@[simp] theorem beside_z (eps z : ℝ) (before corner after : Point2 ℝ) :
    (beside eps z before corner after).z = z := rfl

end Building

end SiteSection
