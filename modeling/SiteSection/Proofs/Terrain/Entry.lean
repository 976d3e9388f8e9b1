import SiteSection.Proofs.Terrain.Locating
import SiteSection.Proofs.Terrain.Walk

/-! # Entering a mesh

  A walk that starts off the mesh begins where its line first meets the mesh. Of the triangles
  whose box meets the box of the line, all sides are intersected with the line, and the first
  meeting point is taken.

  Nothing is missed. A line that is outside of a triangle at its start has a place of a side
  before any other place of the triangle, and a triangle without an area is all sides. The box
  of a triangle holds what the triangle spans, and the box of the line, thickened or not, holds
  its places; so a triangle that the line meets is among those found.
-/

namespace SiteSection

namespace Terrain

variable {K : Type} [ExactScalar K] {m : Mesh K} {s : Terrain K} {line : Segment K} {i : Nat}
  {t : Triangle K} {e : Point3 K × Point3 K} {p : Point2 K}

/-! ## First meeting points -/

section
variable (hs : ofMesh? m = some s) (ht : s.triangles[i]? = some t)
include hs ht

/-- Triangles that a line meets are found by the box of the line. -/
theorem mem_query_of_spans (hline : line.On p) (h : t.Spans p) :
    i ∈ s.index.query (line.box.thicken 1 1) :=
  (mem_query_iff hs ht).mpr (Envelope.meets_of_contains (Triangle.box_contains_of_spans h)
    (Box2.contains_thicken zero_le_one (line.contains_of_on hline)))

/-- A line enters the mesh no later than where it meets a side. -/
theorem exists_entry?_of_on (he : e ∈ t.sides) (hline : line.On p)
    (hside : (⟨e.1, e.2⟩ : Segment K).On p) :
    ∃ k x, s.entry? line = some (k, x) ∧ line.project x.plan ≤ line.project p := by
  obtain ⟨y, hy⟩ := line.exists_intersect? ⟨e.1, e.2⟩ hline hside
  have hhit : (line.project y.plan, i, y.withZ ((⟨e.1, e.2⟩ : Segment K).elevation y.plan)) ∈
      (s.index.query (line.box.thicken 1 1)).flatMap (s.sideCrossings line) := by
    refine List.mem_flatMap.mpr ⟨i, ?_, ?_⟩
    · exact mem_query_of_spans hs ht hline (Triangle.spans_of_on he hside)
    · exact (s.mem_sideCrossings line).mpr ⟨t, e, y, ht, he, hy, rfl⟩
  obtain ⟨⟨d, k, x⟩, hleast, hle⟩ := exists_leastBy?_le Prod.fst
    (fun a b : K × Nat × Point3 K => compare a.2.1 b.2.1) hhit
  obtain ⟨u, _, hmem⟩ := List.mem_flatMap.mp (mem_of_leastBy?_eq_some hleast)
  obtain ⟨_, _, z, _, _, _, hz⟩ := (s.mem_sideCrossings line).mp hmem
  rw [Prod.mk.injEq, Prod.mk.injEq] at hz
  obtain ⟨rfl, -, rfl⟩ := hz
  exact ⟨k, _, congrArg (Option.map Prod.snd) hleast,
    hle.trans (line.project_intersect?_le ⟨e.1, e.2⟩ hy hline hside)⟩

/-- A line that starts off the mesh enters it no later than where it meets a triangle. -/
theorem exists_entry?_of_spans (hstart : s.locate? line.p0.plan = none) (hline : line.On p)
    (h : t.Spans p) :
    ∃ k x, s.entry? line = some (k, x) ∧ line.project x.plan ≤ line.project p := by
  have hoff : t.doubleArea ≠ 0 → ¬ t.Spans line.p0.plan := by
    intro hne hspans
    obtain ⟨k, _, hk, _⟩ := locate?_of_spans hs ⟨t, List.mem_of_getElem? ht, hne, hspans⟩
    rw [hstart] at hk
    cases hk
  obtain ⟨h0, h1⟩ := line.project_mem hline
  rw [← line.pointAt_project hline] at h
  obtain ⟨w, hw, hle, e, he, hside⟩ := Triangle.exists_contact hoff h0 h1 h
  obtain ⟨k, x, hentry, hfirst⟩ :=
    exists_entry?_of_on hs ht he (line.on_pointAt hw (hle.trans h1)) hside
  refine ⟨k, x, hentry, hfirst.trans ?_⟩
  by_cases hzero : line.sqLength = 0
  · rw [line.project_of_sqLength_eq_zero hzero, line.project_of_sqLength_eq_zero hzero]
  · rwa [line.project_pointAt hzero]

end

/-! ## Walks -/

/-- **Entering the mesh.** A walk that starts where nothing is located is empty if and only if
    its line meets no triangle. Otherwise its first sample is the place of the line nearest to
    the start that some triangle spans, and it is a point of a side. -/
theorem walk_enters (points : List (Point3 K)) (faces : List Face)
    (hrange : ∀ f ∈ faces, f.InRange points.length) :
    ∃ s, ofMesh? (Mesh.ofFaces points faces) = some s ∧
      ∀ a b eps, s.locate? a = none →
        (s.walk a b eps = [] ↔
          ∀ y, (Segment.flat a b).On y → ∀ t ∈ s.triangles, ¬ t.Spans y) ∧
        ∀ first rest, s.walk a b eps = first :: rest →
          (Segment.flat a b).On first.plan ∧
          (∃ t ∈ s.triangles, t.Spans first.plan) ∧
          (∀ y, (Segment.flat a b).On y → (∃ t ∈ s.triangles, t.Spans y) →
            a.dist first.plan ≤ a.dist y) ∧
          ∃ t ∈ s.triangles, ∃ e ∈ t.sides, ∃ u, 0 ≤ u ∧ u ≤ 1 ∧
            first = (⟨e.1, e.2⟩ : Segment K).pointAt u := by
  obtain ⟨s, hs⟩ := exists_ofMesh? (m := Mesh.ofFaces points faces) hrange
  refine ⟨s, hs, fun a b eps ha => ?_⟩
  set line := Segment.flat a b with hline
  have hstart : s.start? line = s.entry? line := by
    have hp0 : line.p0.plan = a := rfl
    rw [start?, hp0, ha]
  have hbefore : ∀ y, line.On y → (∃ t ∈ s.triangles, t.Spans y) →
      ∃ k x, s.entry? line = some (k, x) ∧ line.project x.plan ≤ line.project y := by
    rintro y hy ⟨t, ht, hspans⟩
    obtain ⟨i, hi⟩ := List.mem_iff_getElem?.mp ht
    exact exists_entry?_of_spans hs hi ha hy hspans
  rw [walk, ← hline, hstart]
  cases hentry : s.entry? line with
  | none =>
    refine ⟨iff_of_true rfl fun y hy t ht hspans => ?_, fun first rest h => by cases h⟩
    obtain ⟨k, x, hsome, _⟩ := hbefore y hy ⟨t, ht, hspans⟩
    rw [hentry] at hsome
    cases hsome
  | some entry =>
    obtain ⟨k, x⟩ := entry
    obtain ⟨hx, t, e, ht, he, hside, hz⟩ := s.entry?_spec line hentry
    have hmem := List.mem_of_getElem? ht
    have hspans := Triangle.spans_of_on he hside
    refine ⟨iff_of_false (List.cons_ne_nil _ _) fun hnone => hnone _ hx t hmem hspans, ?_⟩
    rintro first rest h
    obtain ⟨rfl, -⟩ := List.cons_eq_cons.mp h
    refine ⟨hx, ⟨t, hmem, hspans⟩, fun y hy hmeets => ?_, t, hmem, e, he, ?_⟩
    · obtain ⟨k', x', hsome, hle⟩ := hbefore y hy hmeets
      rw [hentry, Option.some.injEq, Prod.mk.injEq] at hsome
      rw [← hsome.2] at hle
      exact line.dist_p0_le hx hy hle
    · obtain ⟨u, hu, hu', hplan, helevation⟩ :=
        (⟨e.1, e.2⟩ : Segment K).exists_pointAt_elevation hside
      refine ⟨u, hu, hu', Point3.ext ?_ ?_ ?_⟩
      · exact (congrArg Point2.x hplan).symm
      · exact (congrArg Point2.y hplan).symm
      · exact hz.trans helevation.symm

/-- From aside of the mesh a walk enters it on the eastern side, at the elevation there. -/
theorem walk_enters_overlaidMesh :
    (∀ f ∈ overlaidMesh.faces, f.InRange overlaidMesh.points.length) ∧
      ∃ s, ofMesh? overlaidMesh = some s ∧ s.locate? ⟨5, 1⟩ = none ∧
        ∃ rest, s.walk ⟨5, 1⟩ ⟨3, 1⟩ 1 = ⟨4, 1, 2⟩ :: rest := by
  obtain ⟨s, hs, henters⟩ :=
    walk_enters overlaidMesh.points overlaidMesh.faces inRange_overlaidMesh
  have hoff : s.locate? ⟨5, 1⟩ = none := locate?_eq_none hs (box_overlaidMesh hs)
  refine ⟨inRange_overlaidMesh, s, hs, hoff, ?_⟩
  obtain ⟨hempty, hfirst⟩ := henters ⟨5, 1⟩ ⟨3, 1⟩ 1 hoff
  have htriangles := triangles_overlaidMesh hs
  -- The line meets the eastern side, and nothing before it.
  have hon : (Segment.flat ⟨5, 1⟩ ⟨3, 1⟩ : Segment ℝ).On ⟨4, 1⟩ := by
    refine ⟨1 / 2, by norm_num, by norm_num, ?_⟩
    ext
    · norm_num [Segment.flat, Point2.atZ]
    · norm_num [Segment.flat, Point2.atZ]
  have hmeets : ∃ t ∈ s.triangles, t.Spans ⟨4, 1⟩ := by
    rw [htriangles]
    exact ⟨_, List.mem_cons_of_mem _ List.mem_cons_self, 0, 1 / 4, 3 / 4, by norm_num⟩
  cases hwalk : s.walk ⟨5, 1⟩ ⟨3, 1⟩ 1 with
  | nil =>
    obtain ⟨t, ht, hspans⟩ := hmeets
    exact absurd hspans (hempty.mp hwalk ⟨4, 1⟩ hon t ht)
  | cons first rest =>
    obtain ⟨⟨u, _, _, hplan⟩, ⟨t, ht, hspans⟩, hnearest, t', ht', e, he, v, hv, hv', hpoint⟩ :=
      hfirst first rest hwalk
    have hy : first.y = 1 := by
      simpa [Segment.flat, Point2.atZ] using (congrArg Point2.y hplan).symm
    have hx : first.x = 4 := by
      have hheld := Box2.contains_ofCorners.mp (Triangle.contains_of_spans
        (fun v hv => (corners_overlaidMesh hs t ht v hv).1) hspans)
      have hdist : (⟨5, 1⟩ : Point2 ℝ).dist ⟨4, 1⟩ = 1 := by
        refine Point2.norm_eq_of_mul_self zero_le_one ?_
        norm_num [Point2.normSq]
      have hnear := (Point2.abs_sub_le_dist _ _).1.trans (hnearest ⟨4, 1⟩ hon hmeets)
      rw [hdist] at hnear
      have hwest := (abs_le.mp hnear).2
      simp only [Point3.plan_x] at hwest hheld
      linarith [hheld.1.2]
    have hz : first.z = 2 := by
      obtain ⟨h1, h2⟩ := Triangle.mem_corners_of_mem_sides he
      have hz1 := (corners_overlaidMesh hs t' ht' _ h1).2
      have hz2 := (corners_overlaidMesh hs t' ht' _ h2).2
      rw [hpoint, Segment.pointAt_y] at hy
      rw [hpoint, Segment.pointAt_z, hz1, hz2]
      linarith
    exact ⟨rest, congrArg (· :: rest) (Point3.ext hx hy hz)⟩

end Terrain

end SiteSection
