import SiteSection.Proofs.Plan.Planes
import SiteSection.Proofs.Terrain.Tessellation
import SiteSection.Proofs.Terrain.Walk

/-! # The surface of a terrain

  Each triangle has its own plane, and three formulas give elevations: the plane of a triangle,
  the share of the length of a side, and the barycentric weights by which a triangle is
  located. Where triangles meet only in common corners and common sides, which are points and
  segments of space, all of them agree. So the terrain is a continuous surface, and it does not
  matter in which triangle a location is located, or whether a walk takes an elevation from a
  triangle or from a side.

  A walk may take a sample off the triangle that it takes the elevation from: beside a side
  that it passes by within its tolerance, and at an end of the line that a triangle holds
  within the tolerance of locating.
-/

namespace SiteSection

namespace Terrain

variable {K : Type} [ExactScalar K] {m : Mesh K} {s : Terrain K} {i : Nat} {t u : Triangle K}
  {e : Point3 K × Point3 K} {p b : Point2 K} {eps : K} {x : Point3 K}

/-- What two triangles have in common is a common corner, or on a common side. -/
def MeetsInSides (s : Terrain K) : Prop :=
  ∀ t ∈ s.triangles, ∀ u ∈ s.triangles, t ≠ u → ∀ p, t.Spans p → u.Spans p →
    (∃ v ∈ t.corners, v ∈ u.corners ∧ v.plan = p) ∨
      ∃ e ∈ t.sides, (e ∈ u.sides ∨ e.swap ∈ u.sides) ∧ (⟨e.1, e.2⟩ : Segment K).On p

/-! ## One elevation for each location -/

section
variable (harea : ∀ t ∈ s.triangles, t.doubleArea ≠ 0) (hmeet : s.MeetsInSides)
include harea hmeet

/-- Where triangles meet their planes do. -/
theorem elevation_eq_of_spans (ht : t ∈ s.triangles) (hu : u ∈ s.triangles) (hp : t.Spans p)
    (hp' : u.Spans p) : t.plane.elevation p = u.plane.elevation p := by
  by_cases hsame : t = u
  · rw [hsame]
  · rcases hmeet t ht u hu hsame p hp hp' with ⟨v, hv, hv', rfl⟩ | ⟨e, he, he', hon⟩
    · rw [Triangle.elevation_corner (harea t ht) hv, Triangle.elevation_corner (harea u hu) hv']
    · rw [(Triangle.elevation_side (harea t ht) he hon).1]
      rcases he' with he' | he'
      · exact (Triangle.elevation_side (harea u hu) he' hon).1.symm
      · have hturned : (⟨e.2, e.1⟩ : Segment K).On p :=
          (⟨e.1, e.2⟩ : Segment K).on_turned.mpr hon
        exact (Triangle.elevation_side (harea u hu) he' hturned).2.symm

variable (hs : ofMesh? m = some s)
include hs

/-- The elevation at a location is that of any triangle that spans it. -/
theorem elevation?_of_spans (ht : t ∈ s.triangles) (hp : t.Spans p) :
    s.elevation? p = some (t.plane.elevation p) := by
  obtain ⟨i, u, hi, hu, _, hp', _⟩ := locate?_of_spans hs ⟨t, ht, harea t ht, hp⟩
  rw [elevation?, hi, Option.map_some, planeZ, hu]
  exact congrArg some
    (elevation_eq_of_spans harea hmeet (List.mem_of_getElem? hu) ht hp' hp)

/-- The elevation at a location of a side is that of the side. -/
theorem elevation?_of_on (ht : t ∈ s.triangles) (he : e ∈ t.sides)
    (hp : (⟨e.1, e.2⟩ : Segment K).On p) :
    s.elevation? p = some ((⟨e.1, e.2⟩ : Segment K).elevation p) := by
  rw [elevation?_of_spans harea hmeet hs ht (Triangle.spans_of_on he hp),
    (Triangle.elevation_side (harea t ht) he hp).1]

end

/-! ## Samples -/

/-- A sample is beside what its elevation is of: near a side, or at the end of the line in a
    triangle that holds the end but does not span it. -/
def IsBeside (s : Terrain K) (b : Point2 K) (eps : K) (x : Point3 K) : Prop :=
  (∃ t ∈ s.triangles, ∃ e ∈ t.sides, ¬ (⟨e.1, e.2⟩ : Segment K).On x.plan ∧
    (∃ y, (⟨e.1, e.2⟩ : Segment K).On y ∧ x.plan.dist y < eps) ∧
      x.z = (⟨e.1, e.2⟩ : Segment K).elevation x.plan) ∨
  (x.plan = b ∧ ∃ (k : Nat) (t : Triangle K), s.triangles[k]? = some t ∧ s.holds k b = true ∧
    ¬ t.Spans b ∧ x.z = t.plane.elevation b)

theorem exists_of_holds (h : s.holds i p = true) : ∃ t, s.triangles[i]? = some t := by
  obtain ⟨e, he⟩ := Option.isSome_iff_exists.mp h
  obtain ⟨t, _, ht, _⟩ := excess?_eq_some_iff.mp he
  exact ⟨t, ht⟩

theorem planeZ_eq (ht : s.triangles[i]? = some t) : s.planeZ i p = t.plane.elevation p := by
  rw [planeZ, ht]

section
variable (harea : ∀ t ∈ s.triangles, t.doubleArea ≠ 0) (hmeet : s.MeetsInSides)
  (hs : ofMesh? m = some s) (line : Segment K)
include harea hmeet hs

/-- A walk starts on the surface. -/
theorem elevation?_of_start? (h : s.start? line = some (i, x)) :
    s.elevation? x.plan = some x.z := by
  rw [start?] at h
  split at h
  · next k hk =>
    cases h
    rw [Point3.withZ_plan, Point3.withZ_z, elevation?, hk, Option.map_some]
  · obtain ⟨_, t, e, ht, he, hon, hz⟩ := s.entry?_spec line h
    rw [elevation?_of_on harea hmeet hs (List.mem_of_getElem? ht) he hon, hz]

/-- A crossing is on the surface, or beside the side that is crossed. -/
theorem elevation?_of_exit? {visited : List Nat} {out : Exit K}
    (h : s.exit? line visited eps i = some out) :
    s.elevation? out.crossing.plan = some out.crossing.z ∨ s.IsBeside b eps out.crossing := by
  have hmem := s.mem_of_exit?_eq_some line h
  cases ht : s.triangles[i]? with
  | none =>
    rw [exits, ht] at hmem
    cases hmem
  | some t =>
    obtain ⟨k, v, w, y, z, _, hside, _, _, hclosest, hnear, rfl⟩ := (s.mem_exits line ht).mp hmem
    have ht := List.mem_of_getElem? ht
    have he := List.mem_of_getElem? hside
    by_cases hon : (⟨v, w⟩ : Segment K).On y.plan
    · exact .inl (elevation?_of_on harea hmeet hs ht he hon)
    · have hz := (line.on_closestPoints ⟨v, w⟩).2
      rw [hclosest] at hz
      exact .inr (.inl ⟨t, ht, (v, w), he, hon, ⟨z.plan, hz, hnear⟩, rfl⟩)

/-- The end of a line is on the surface, or held by a triangle beside it. -/
theorem elevation?_of_holds (h : s.holds i b = true) :
    s.elevation? b = some (s.planeZ i b) ∨ s.IsBeside b eps (b.atZ (s.planeZ i b)) := by
  obtain ⟨t, ht⟩ := exists_of_holds h
  by_cases hp : t.Spans b
  · rw [planeZ_eq ht]
    exact .inl (elevation?_of_spans harea hmeet hs (List.mem_of_getElem? ht) hp)
  · exact .inr (.inr ⟨rfl, i, t, ht, h, hp, planeZ_eq ht⟩)

end

/-- **The surface is continuous.** Where triangles with an area meet in common corners and
    common sides only, all triangles that span a location have one elevation there; on a side
    it is that of the side, from either of its ends. It is the elevation of the terrain, and
    between those of the corners. A walk has it where it starts, and at all other samples that
    are not beside what they are taken from. -/
theorem surface_continuous (hs : ofMesh? m = some s)
    (harea : ∀ t ∈ s.triangles, t.doubleArea ≠ 0) (hmeet : s.MeetsInSides) :
    (∀ p, ∀ t ∈ s.triangles, t.Spans p →
      (∀ u ∈ s.triangles, u.Spans p → u.plane.elevation p = t.plane.elevation p) ∧
      (∀ u ∈ s.triangles, ∀ e ∈ u.sides, (⟨e.1, e.2⟩ : Segment K).On p →
        (⟨e.1, e.2⟩ : Segment K).elevation p = t.plane.elevation p ∧
          (⟨e.2, e.1⟩ : Segment K).elevation p = t.plane.elevation p) ∧
      s.elevation? p = some (t.plane.elevation p) ∧
      min (min t.a.z t.b.z) t.c.z ≤ t.plane.elevation p ∧
      t.plane.elevation p ≤ max (max t.a.z t.b.z) t.c.z) ∧
    ∀ a b eps, (∀ x ∈ (s.walk a b eps).head?, s.elevation? x.plan = some x.z) ∧
      ∀ x ∈ s.walk a b eps, s.elevation? x.plan = some x.z ∨ s.IsBeside b eps x := by
  refine ⟨fun p t ht hp => ⟨?_, ?_, ?_, Triangle.elevation_mem (harea t ht) hp⟩, ?_⟩
  · exact fun u hu hp' => elevation_eq_of_spans harea hmeet hu ht hp' hp
  · intro u hu e he hon
    have hsame := elevation_eq_of_spans harea hmeet ht hu hp (Triangle.spans_of_on he hon)
    obtain ⟨hforth, hback⟩ := Triangle.elevation_side (harea u hu) he hon
    exact ⟨hforth.symm.trans hsame.symm, hback.symm.trans hsame.symm⟩
  · exact elevation?_of_spans harea hmeet hs ht hp
  · intro a b eps
    constructor
    · intro x hx
      rw [walk] at hx
      split at hx
      · cases hx
      · next first hstart =>
        cases hx
        exact elevation?_of_start? harea hmeet hs _ hstart
    · intro x hx
      exact s.forall_mem_walk
        (P := fun x => s.elevation? x.plan = some x.z ∨ s.IsBeside b eps x)
        (fun h => .inl (elevation?_of_start? harea hmeet hs _ h))
        (elevation?_of_exit? harea hmeet hs _) (elevation?_of_holds harea hmeet hs) hx

/-! ## A folded square -/

/-- The half of a square east of a fold that rises to its corner. -/
def easternHalf : Triangle ℝ := ⟨⟨0, 0, 0⟩, ⟨4, 0, 0⟩, ⟨4, 4, 2⟩⟩

/-- The half of the square west of the fold, which runs the other way round. -/
def westernHalf : Triangle ℝ := ⟨⟨0, 0, 0⟩, ⟨0, 4, 0⟩, ⟨4, 4, 2⟩⟩

/-- A square in two halves that meet in a fold. -/
noncomputable def foldedSquare : Mesh ℝ :=
  Mesh.ofFaces [⟨0, 0, 0⟩, ⟨4, 0, 0⟩, ⟨4, 4, 2⟩, ⟨0, 4, 0⟩] [⟨0, 1, 2⟩, ⟨0, 3, 2⟩]

/-- The halves meet on the fold. -/
theorem on_fold {p : Point2 ℝ} (hp : easternHalf.Spans p) (hp' : westernHalf.Spans p) :
    (⟨⟨4, 4, 2⟩, ⟨0, 0, 0⟩⟩ : Segment ℝ).On p := by
  obtain ⟨u, v, w, hu, hv, hw, hsum, hx, hy⟩ := hp
  obtain ⟨u', v', w', hu', hv', hw', hsum', hx', hy'⟩ := hp'
  simp only [easternHalf, westernHalf] at hx hy hx' hy'
  refine ⟨u, hu, by linarith, ?_⟩
  ext
  · simp only [Point3.plan_x, Segment.pointAt_x]
    linarith
  · simp only [Point3.plan_y, Segment.pointAt_y]
    linarith

/-- In the middle of the fold both halves are half as high as its end. -/
theorem surface_continuous_foldedSquare :
    ∃ s, ofMesh? foldedSquare = some s ∧ (∀ t ∈ s.triangles, t.doubleArea ≠ 0) ∧
      s.MeetsInSides ∧ s.elevation? ⟨2, 2⟩ = some 1 ∧
      westernHalf.plane.elevation ⟨2, 2⟩ = 1 := by
  obtain ⟨s, hs⟩ : ∃ s, ofMesh? foldedSquare = some s :=
    exists_ofMesh? (by simp [foldedSquare, Face.InRange])
  have htriangles : s.triangles = [easternHalf, westernHalf] :=
    (Option.some.inj (spec_of_ofMesh? hs).2.1).symm
  have heast : easternHalf.doubleArea ≠ 0 := by
    norm_num [easternHalf, Triangle.doubleArea, Ring.side_eq]
  have hwest : westernHalf.doubleArea ≠ 0 := by
    norm_num [westernHalf, Triangle.doubleArea, Ring.side_eq]
  have harea : ∀ t ∈ s.triangles, t.doubleArea ≠ 0 := by
    rw [htriangles]
    simp [heast, hwest]
  have hmeet : s.MeetsInSides := by
    rw [MeetsInSides, htriangles]
    intro t ht u hu hdiff p hp hp'
    refine .inr ⟨(⟨4, 4, 2⟩, ⟨0, 0, 0⟩), ?_⟩
    simp only [List.mem_cons, List.not_mem_nil, or_false] at ht hu
    rcases ht with rfl | rfl <;> rcases hu with rfl | rfl
    · exact absurd rfl hdiff
    · exact ⟨by simp [easternHalf, Triangle.sides], .inl (by simp [westernHalf, Triangle.sides]),
        on_fold hp hp'⟩
    · exact ⟨by simp [westernHalf, Triangle.sides], .inl (by simp [easternHalf, Triangle.sides]),
        on_fold hp' hp⟩
    · exact absurd rfl hdiff
  have hmean : easternHalf.plane.elevation ⟨2, 2⟩ = 1 := by
    rw [Triangle.elevation_of_mean heast (u := 1 / 2) (v := 0) (w := 1 / 2)]
    all_goals norm_num [easternHalf]
  obtain ⟨hagree, _, helevation, _⟩ := (surface_continuous hs harea hmeet).1 ⟨2, 2⟩ easternHalf
    (by simp [htriangles]) ⟨1 / 2, 0, 1 / 2, by norm_num [easternHalf]⟩
  rw [hmean] at hagree helevation
  refine ⟨s, hs, harea, hmeet, helevation, hagree westernHalf (by simp [htriangles]) ?_⟩
  exact ⟨1 / 2, 0, 1 / 2, by norm_num [westernHalf]⟩

end Terrain

end SiteSection
