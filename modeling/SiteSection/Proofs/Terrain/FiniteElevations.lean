import SiteSection.Proofs.Numbers.Extended
import SiteSection.Proofs.Plan.Planes
import SiteSection.Proofs.Terrain.Faces

/-! # Finite elevations

  Where all points of a mesh are made of numbers, so are all elevations of the terrain. A
  location that is located is in the box of a triangle, so its coordinates are numbers too. A
  triangle that locates anything has an area in plan, so its plane is not vertical and there is
  no division by zero.
-/

namespace SiteSection

open Extended

variable {K : Type}

/-! ## Points made of numbers -/

/-- A plan location made of numbers. -/
def Point2.extend (p : Point2 K) : Point2 (Extended K) := Coordinates.map number p

/-- A point of space made of numbers. -/
def Point3.extend (p : Point3 K) : Point3 (Extended K) := Coordinates.map number p

/-- A triangle made of numbers. -/
def Triangle.extend (t : Triangle K) : Triangle (Extended K) :=
  ⟨t.a.extend, t.b.extend, t.c.extend⟩

section
variable [ExactScalar K] {t : Triangle K}

/-! ## Boxes of numbers -/

/-- The box of a triangle made of numbers is made of numbers. -/
theorem Triangle.exists_envelope_extend (t : Triangle K) : ∃ lower upper : Point2 K,
    Envelope.ofBox t.extend.box.plan = ⟨lower.extend, upper.extend⟩ := by
  obtain ⟨low, high, hbox⟩ : ∃ low high : Point2 K,
      t.extend.box.plan = Box.ofCorners low.extend high.extend := by
    refine ⟨Coordinates.least (Coordinates.least t.a.plan t.b.plan) t.c.plan,
      Coordinates.greatest (Coordinates.greatest t.a.plan t.b.plan) t.c.plan, ?_⟩
    simp [extend, Point3.extend, Point2.extend, box, corners, Box.ofPoints, Box.ofCorners,
      Box3.plan, Coordinates.least, Coordinates.greatest, Coordinates.zipWith, Coordinates.map,
      Coordinates.sub, Point3.plan, min_number, max_number]
  have hchoice : ∀ (c : Prop) [Decidable c] (a b : K),
      (if c then number a else number b : Extended K) = number (if c then a else b) := by
    intro c _ a b
    split <;> rfl
  rw [hbox]
  simp only [Envelope.ofBox, Box.ofCorners, Box.upper, Point2.extend, Coordinates.map,
    Coordinates.sub, Coordinates.add, Coordinates.zipWith, number_sub, number_add, number_lt,
    hchoice]
  exact ⟨⟨_, _⟩, ⟨_, _⟩, rfl⟩

/-- What meets the box of a triangle made of numbers is made of numbers. -/
theorem Triangle.exists_eq_extend_of_meets {p : Point2 (Extended K)}
    (h : (Envelope.ofBox t.extend.box.plan).meets (Envelope.ofBox (Box.ofPoint p)) = true) :
    ∃ q : Point2 K, p = q.extend := by
  obtain ⟨lower, upper, henvelope⟩ := t.exists_envelope_extend
  have hpoint : Envelope.ofBox (Box.ofPoint p) = ⟨p, p⟩ := by
    simp [Envelope.ofBox, Box.ofPoint, Box.upper, Coordinates.add, Coordinates.zipWith,
      Coordinates.fill, add_zero_eq_self]
  rw [henvelope, hpoint] at h
  simp only [Envelope.meets, Bool.and_eq_true, decide_eq_true_eq] at h
  obtain ⟨⟨⟨hx, hy⟩, hx'⟩, hy'⟩ := h
  obtain ⟨x, hx⟩ := exists_eq_number hx hx'
  obtain ⟨y, hy⟩ := exists_eq_number hy hy'
  exact ⟨⟨x, y⟩, Point2.ext hx hy⟩

/-! ## Planes of numbers -/

/-- The plane of a triangle made of numbers is made of numbers. -/
theorem Triangle.plane_extend (t : Triangle K) :
    t.extend.plane = ⟨t.plane.normal.extend, number t.plane.offset⟩ := by
  have hadd : ∀ q r : Point3 (Extended K), q + r = ⟨q.x + r.x, q.y + r.y, q.z + r.z⟩ :=
    fun _ _ => rfl
  have hsum : ∀ a b c : K, Scalar.sum [number a, number b, number c] =
      number (Scalar.sum [a, b, c]) := fun a b c => rfl
  simp only [plane, Plane.through, Plane.ofNormal, extend, Point3.extend, Coordinates.map,
    Coordinates.scale, Point3.cross, Coordinates.dot, Coordinates.toList, Coordinates.zipWith,
    one_eq, number_neg, number_mul, number_sub, hadd, number_add, hsum]
  rfl

/-- Where a triangle made of numbers has weights, it has an area. -/
theorem Triangle.doubleArea_ne_zero_of_extend {p : Point2 K} {g : Barycentric (Extended K)}
    (h : t.extend.barycentric? p.extend = some g) : t.doubleArea ≠ 0 := by
  intro hzero
  simp only [barycentric?, Barycentric.of?, extend, Point3.extend, Point2.extend, Coordinates.map,
    Point3.plan, Point2.sub_x, Point2.sub_y, number_sub, number_mul, number_add,
    number_beq_zero] at h
  split at h
  · cases h
  · next hdenom =>
    refine hdenom ?_
    simp only [doubleArea, Ring.side_eq, Point3.plan_x, Point3.plan_y] at hzero
    rw [beq_iff_eq]
    linear_combination
      ((t.b.x - t.a.x) * (t.c.y - t.a.y) - (t.b.y - t.a.y) * (t.c.x - t.a.x)) * hzero

/-- Where a triangle made of numbers has weights, its plane has a number for its elevation. -/
theorem Triangle.elevation_extend {p : Point2 K} {g : Barycentric (Extended K)}
    (h : t.extend.barycentric? p.extend = some g) :
    t.extend.plane.elevation p.extend = number (t.plane.elevation p) := by
  have hz : t.plane.normal.z ≠ 0 := by
    rw [plane_normal]
    exact doubleArea_ne_zero_of_extend h
  have hupright : ¬ (t.plane.normal.z == 0) = true := by simpa using hz
  have helevation : t.plane.elevation p =
      (t.plane.offset - t.plane.normal.x * p.x - t.plane.normal.y * p.y) / t.plane.normal.z :=
    if_neg hupright
  rw [helevation, plane_extend]
  simp only [Plane.elevation, Plane.isVertical, Point3.extend, Point2.extend, Coordinates.map,
    number_beq_zero, if_neg hupright, number_mul, number_sub]
  exact number_div _ hz

end

/-! ## Elevations -/

namespace Terrain

variable [ExactScalar K] {m : Mesh (Extended K)} {s : Terrain (Extended K)}
  {p : Point2 (Extended K)} {z : Extended K}

/-- The elevations of a mesh of points made of numbers are numbers. -/
theorem exists_elevation_eq_number (hs : ofMesh? m = some s)
    (hpoints : ∀ v ∈ m.points, ∃ q : Point3 K, v = q.extend) (h : s.elevation? p = some z) :
    ∃ c, z = number c := by
  obtain ⟨i, hi, rfl⟩ := Option.map_eq_some_iff.mp h
  obtain ⟨hquery, t, g, ht, hg⟩ := exists_of_locate?_eq_some hi
  obtain ⟨t, rfl⟩ : ∃ t' : Triangle K, t = t'.extend := by
    obtain ⟨f, -, hcorners⟩ := (Mesh.mem_triangles?_iff (spec_of_ofMesh? hs).2.1).mp
      (List.mem_of_getElem? ht)
    have hcorner := fun v hv => hpoints v (Mesh.mem_points_of_corners? hcorners hv)
    obtain ⟨a, ha⟩ := hcorner t.a (by simp [Triangle.corners])
    obtain ⟨b, hb⟩ := hcorner t.b (by simp [Triangle.corners])
    obtain ⟨c, hc⟩ := hcorner t.c (by simp [Triangle.corners])
    refine ⟨⟨a, b, c⟩, ?_⟩
    rw [Triangle.extend, ← ha, ← hb, ← hc]
  obtain ⟨q, rfl⟩ := Triangle.exists_eq_extend_of_meets ((mem_query_iff hs ht).mp hquery)
  rw [planeZ, ht]
  exact ⟨_, Triangle.elevation_extend hg⟩

end Terrain

end SiteSection
