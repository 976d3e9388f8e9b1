import SiteSection.Proofs.Plan.Triangles

/-! # Triangles of either orientation

  The corners of a triangle may run either way round in plan. A triangle with an area becomes
  upright by exchanging two corners where they run clockwise: its normal then points upwards.
  Its corners, its places and the places of its sides stay what they are, only the sides may
  run from their other ends.

  Containment is told by an upright triangle. The facts about sides and corners, and the
  barycentric test, do not depend on the orientation.
-/

namespace SiteSection

namespace Triangle

section
variable {α : Type} {t : Triangle α} {e : Point3 α × Point3 α} {v : Point3 α}

/-- The triangle with its corners the other way round. -/
def flipped (t : Triangle α) : Triangle α := ⟨t.a, t.c, t.b⟩

theorem mem_corners_flipped : v ∈ t.flipped.corners ↔ v ∈ t.corners := by
  simp only [corners, flipped, List.mem_cons, List.not_mem_nil, or_false]
  tauto

/-- Turned round, the sides run from their other ends. -/
theorem mem_sides_flipped : e ∈ t.flipped.sides ↔ e.swap ∈ t.sides := by
  obtain ⟨p, q⟩ := e
  simp only [sides, flipped, Prod.swap_prod_mk, List.mem_cons, List.not_mem_nil, or_false,
    Prod.mk.injEq]
  tauto

end

variable {K : Type} [ExactScalar K] {t : Triangle K} {e e' : Point3 K × Point3 K} {p : Point2 K}
  {v : Point3 K}

theorem doubleArea_flipped (t : Triangle K) : t.flipped.doubleArea = -t.doubleArea := by
  simp only [doubleArea, flipped, Ring.side_eq]
  ring

/-- The triangle with its corners counter-clockwise in plan. -/
def upright (t : Triangle K) : Triangle K := if 0 < t.doubleArea then t else t.flipped

/-- A side, or two numbers that stand for its ends, in the direction it has on the upright
    triangle. -/
def forward (t : Triangle K) {β : Type} (d : β × β) : β × β :=
  if 0 < t.doubleArea then d else d.swap

theorem upright_of_pos (h : 0 < t.doubleArea) : t.upright = t := if_pos h

theorem doubleArea_upright_pos (h : t.doubleArea ≠ 0) : 0 < t.upright.doubleArea := by
  unfold upright
  split
  · next hpos => exact hpos
  · next hnot =>
    rw [doubleArea_flipped]
    exact neg_pos.mpr (lt_of_le_of_ne (not_lt.mp hnot) h)

theorem mem_corners_upright : v ∈ t.upright.corners ↔ v ∈ t.corners := by
  unfold upright
  split
  · rfl
  · exact mem_corners_flipped

/-! ## Places -/

/-- An upright triangle has the locations that lie on the side of the corners of each side. -/
theorem upright_has_iff (hne : t.doubleArea ≠ 0) : t.upright.Has p ↔
    0 ≤ Ring.side t.a.plan t.b.plan p / t.doubleArea ∧
      0 ≤ Ring.side t.b.plan t.c.plan p / t.doubleArea ∧
        0 ≤ Ring.side t.c.plan t.a.plan p / t.doubleArea := by
  by_cases hpos : 0 < t.doubleArea
  · have hshare : ∀ x : K, 0 ≤ x / t.doubleArea ↔ 0 ≤ x := by
      intro x
      rw [le_div_iff₀ hpos, zero_mul]
    rw [upright_of_pos hpos, has_iff, hshare, hshare, hshare]
  · have hneg : t.doubleArea < 0 := lt_of_le_of_ne (not_lt.mp hpos) hne
    have hturn : ∀ a b : Point2 K, 0 ≤ Ring.side a b p / t.doubleArea ↔ 0 ≤ Ring.side b a p := by
      intro a b
      have hside : Ring.side b a p = -Ring.side a b p := by
        simp only [Ring.side_eq]
        ring
      rw [le_div_iff_of_neg hneg, zero_mul, hside, neg_nonneg]
    rw [upright, if_neg hpos, has_iff, hturn, hturn, hturn]
    simp only [flipped]
    tauto

/-- The barycentric test takes as inside what the upright triangle has. -/
theorem exists_inside_iff (hne : t.doubleArea ≠ 0) (p : Point2 K) :
    ∃ g, t.barycentric? p = some g ∧ (g.inside = true ↔ t.upright.Has p) := by
  obtain ⟨g, hg, hu, hv, hw⟩ := t.exists_barycentric hne p
  refine ⟨g, hg, ?_⟩
  rw [Barycentric.inside_iff, upright_has_iff hne, hu, hv, hw]
  tauto

/-! ## Sides -/

theorem forward_eq_or (t : Triangle K) {β : Type} (d : β × β) :
    t.forward d = d ∨ t.forward d = d.swap := by
  unfold forward
  split
  · exact .inl rfl
  · exact .inr rfl

theorem forward_inj {β : Type} {d d' : β × β} (h : t.forward d = t.forward d') : d = d' := by
  unfold forward at h
  split at h
  · exact h
  · exact Prod.swap_injective h

theorem mem_sides_upright (he : e ∈ t.sides) : t.forward e ∈ t.upright.sides := by
  unfold upright forward
  split
  · exact he
  · exact mem_sides_flipped.mpr (by rwa [Prod.swap_swap])

/-- A side has the same places from its other end. -/
theorem on_forward (t : Triangle K) (e : Point3 K × Point3 K) :
    (⟨(t.forward e).1, (t.forward e).2⟩ : Segment K).On p ↔ (⟨e.1, e.2⟩ : Segment K).On p := by
  rcases t.forward_eq_or e with h | h
  · rw [h]
  · rw [h]
    exact (⟨e.1, e.2⟩ : Segment K).on_turned

section
variable (hne : t.doubleArea ≠ 0)
include hne

/-- A triangle has the places of its sides. -/
theorem upright_has_of_on (he : e ∈ t.sides) (hp : (⟨e.1, e.2⟩ : Segment K).On p) :
    t.upright.Has p :=
  has_of_on (doubleArea_upright_pos hne) (mem_sides_upright he) ((t.on_forward e).mpr hp)

/-- What a triangle has on the line of a side is on the side. -/
theorem on_of_upright_has (he : e ∈ t.sides) (hp : t.upright.Has p)
    (hside : Ring.side e.1.plan e.2.plan p = 0) : (⟨e.1, e.2⟩ : Segment K).On p := by
  have hforward : Ring.side (t.forward e).1.plan (t.forward e).2.plan p = 0 := by
    rcases t.forward_eq_or e with h | h
    · rw [h, hside]
    · rw [h, Prod.fst_swap, Prod.snd_swap, Ring.side_swap, hside, neg_zero]
  exact (t.on_forward e).mp
    (on_of_side_eq_zero (doubleArea_upright_pos hne) (mem_sides_upright he) hp hforward)

/-- Two sides have a corner in common and nothing else. -/
theorem exists_common_corner (he : e ∈ t.sides) (he' : e' ∈ t.sides) (hdiff : e ≠ e')
    (hp : (⟨e.1, e.2⟩ : Segment K).On p) (hp' : (⟨e'.1, e'.2⟩ : Segment K).On p) :
    ∃ v ∈ t.corners, v.plan = p := by
  obtain ⟨v, hv, hvp⟩ := exists_corner_of_on (doubleArea_upright_pos hne) (mem_sides_upright he)
    (mem_sides_upright he') (fun h => hdiff (forward_inj h)) ((t.on_forward e).mpr hp)
    ((t.on_forward e').mpr hp')
  exact ⟨v, mem_corners_upright.mp hv, hvp⟩

end

end Triangle

end SiteSection
