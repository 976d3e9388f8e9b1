import SiteSection.Proofs.Plan.Spans

/-! # Planes of triangles

  The plane of a triangle with an area has the elevation of each corner over the corner, and is
  affine in between: over a mean of the corners it has the mean of their elevations, and along a
  side it has the elevations of the side.
-/

namespace SiteSection

variable {K : Type} [ExactScalar K]

namespace Triangle

variable (t : Triangle K) {e : Point3 K × Point3 K} {p : Point2 K} {v w : Point3 K}

/-! ## The plane -/

/-- The plane of a triangle is perpendicular to two of its sides. -/
theorem plane_normal : t.plane.normal =
    ⟨(t.b.y - t.a.y) * (t.c.z - t.a.z) - (t.b.z - t.a.z) * (t.c.y - t.a.y),
      (t.b.z - t.a.z) * (t.c.x - t.a.x) - (t.b.x - t.a.x) * (t.c.z - t.a.z), t.doubleArea⟩ := by
  have hback : ∀ q : Point3 K, q + Coordinates.scale t.a (-1) =
      ⟨q.x + t.a.x * -1, q.y + t.a.y * -1, q.z + t.a.z * -1⟩ := fun _ => rfl
  simp only [plane, Plane.through, Plane.ofNormal, hback, Point3.cross, doubleArea, Ring.side_eq,
    Point3.plan_x, Point3.plan_y, mul_neg_one, ← sub_eq_add_neg]

/-- The plane of a triangle goes through its first corner. -/
theorem plane_offset : t.plane.offset = t.plane.normal.x * t.a.x + t.plane.normal.y * t.a.y +
    t.plane.normal.z * t.a.z := Point3.dot_eq _ _

variable {t} (hne : t.doubleArea ≠ 0)
include hne

/-- Over a location the plane has the mean of the elevations of the corners, each weighted by
    the distance from the side across from it. -/
theorem doubleArea_mul_elevation (p : Point2 K) : t.doubleArea * t.plane.elevation p =
    Ring.side t.b.plan t.c.plan p * t.a.z + Ring.side t.c.plan t.a.plan p * t.b.z +
      Ring.side t.a.plan t.b.plan p * t.c.z := by
  have hvertical : ¬ t.plane.isVertical = true := by
    simpa [Plane.isVertical, plane_normal] using hne
  rw [Plane.elevation, if_neg hvertical, plane_offset, plane_normal, mul_div_cancel₀ _ hne]
  simp only [doubleArea, Ring.side_eq, Point3.plan_x, Point3.plan_y]
  ring

/-! ## Means of corners -/

/-- Over a mean of the corners the plane has the mean of their elevations. -/
theorem elevation_of_mean {u v w : K} (hsum : u + v + w = 1)
    (hx : p.x = u * t.a.x + v * t.b.x + w * t.c.x) (hy : p.y = u * t.a.y + v * t.b.y + w * t.c.y) :
    t.plane.elevation p = u * t.a.z + v * t.b.z + w * t.c.z := by
  have hw : w = 1 - u - v := by linear_combination hsum
  subst hw
  refine mul_left_cancel₀ hne ?_
  rw [doubleArea_mul_elevation hne]
  simp only [doubleArea, Ring.side_eq, Point3.plan_x, Point3.plan_y, hx, hy]
  ring

/-- Over what the triangle spans the plane is between the lowest and the highest corner. -/
theorem elevation_mem (h : t.Spans p) :
    min (min t.a.z t.b.z) t.c.z ≤ t.plane.elevation p ∧
      t.plane.elevation p ≤ max (max t.a.z t.b.z) t.c.z := by
  obtain ⟨u, v, w, hu, hv, hw, hsum, hx, hy⟩ := h
  rw [elevation_of_mean hne hsum hx hy]
  refine mean_mem hu hv hw hsum ⟨?_, ?_⟩ ⟨?_, ?_⟩ ⟨?_, ?_⟩
  · exact (min_le_left _ _).trans (min_le_left _ _)
  · exact (le_max_left _ _).trans (le_max_left _ _)
  · exact (min_le_left _ _).trans (min_le_right _ _)
  · exact (le_max_right _ _).trans (le_max_left _ _)
  · exact min_le_right _ _
  · exact le_max_right _ _

/-! ## Corners and sides -/

/-- Over a corner the plane has the elevation of the corner. -/
theorem elevation_corner (hv : v ∈ t.corners) : t.plane.elevation v.plan = v.z := by
  simp only [corners, List.mem_cons, List.not_mem_nil, or_false] at hv
  rcases hv with rfl | rfl | rfl
  · rw [elevation_of_mean hne (u := 1) (v := 0) (w := 0) (by ring) (by simp) (by simp)]
    ring
  · rw [elevation_of_mean hne (u := 0) (v := 1) (w := 0) (by ring) (by simp) (by simp)]
    ring
  · rw [elevation_of_mean hne (u := 0) (v := 0) (w := 1) (by ring) (by simp) (by simp)]
    ring

/-- The plane is affine along a line. -/
theorem elevation_pointAt (s : Segment K) (u : K) : t.plane.elevation (s.pointAt u).plan =
    t.plane.elevation s.p0.plan +
      (t.plane.elevation s.p1.plan - t.plane.elevation s.p0.plan) * u := by
  refine mul_left_cancel₀ hne ?_
  rw [mul_add, ← mul_assoc, mul_sub, doubleArea_mul_elevation hne, doubleArea_mul_elevation hne,
    doubleArea_mul_elevation hne]
  simp only [Ring.side_pointAt]
  ring

/-- Between two corners the plane has the elevations of the segment between them. -/
theorem elevation_between (hv : v ∈ t.corners) (hw : w ∈ t.corners)
    (hp : (⟨v, w⟩ : Segment K).On p) :
    t.plane.elevation p = (⟨v, w⟩ : Segment K).elevation p := by
  obtain ⟨u, _, _, rfl, hz⟩ := (⟨v, w⟩ : Segment K).exists_pointAt_elevation hp
  rw [← hz, elevation_pointAt hne, elevation_corner hne hv, elevation_corner hne hw]
  rfl

/-- Along a side the plane has the elevations of the side, from either of its ends. -/
theorem elevation_side (he : e ∈ t.sides) (hp : (⟨e.1, e.2⟩ : Segment K).On p) :
    t.plane.elevation p = (⟨e.1, e.2⟩ : Segment K).elevation p ∧
      t.plane.elevation p = (⟨e.2, e.1⟩ : Segment K).elevation p := by
  obtain ⟨h1, h2⟩ := mem_corners_of_mem_sides he
  have hturned : (⟨e.2, e.1⟩ : Segment K).On p := (⟨e.1, e.2⟩ : Segment K).on_turned.mpr hp
  exact ⟨elevation_between hne h1 h2 hp, elevation_between hne h2 h1 hturned⟩

end Triangle

end SiteSection
