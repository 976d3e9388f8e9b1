import SiteSection.Proofs.Numbers.Choosing
import SiteSection.Proofs.Plan.Spans
import SiteSection.Proofs.Terrain.Faces

/-! # Locating

  There are two ways to ask for the triangle of a location. A mesh tries its faces in order, up
  to the first triangle that holds the location. A terrain asks its index for the triangles
  whose box holds the location, and takes the one that the location is least outside of, by the
  negative barycentric weights; of several the lowest.

  Nothing is asked of the triangles. They may run either way round, overlap, or have no area.
  What a triangle spans is in its box and in the box of the mesh, so neither filter hides it;
  and a location is outside of a triangle by nothing just if the triangle spans it.
-/

namespace SiteSection

variable {K : Type} [ExactScalar K] {p : Point2 K} {i j : Nat}

/-! ## Asking a mesh -/

namespace Mesh

variable {m : Mesh K}

/-- The box of a mesh holds what its triangles span. -/
theorem box_contains_of_spans {f : Face} {t : Triangle K} (ht : m.corners? f = some t)
    (h : t.Spans p) : m.box.plan.contains p = true := by
  refine Triangle.contains_of_spans (fun v hv => ?_) h
  rw [box, Box2.plan_ofPoints]
  exact Box2.contains_ofPoints (List.mem_map_of_mem (mem_points_of_corners? ht hv))

/-- Trying the faces in order finds whether some triangle with an area spans the location. -/
theorem exists_covers?_go {faces : List Face} (h : ∀ f ∈ faces, f.InRange m.points.length) :
    ∃ covered, covers?.go m p faces = some covered ∧ (covered = true ↔
      ∃ f ∈ faces, ∃ t, m.corners? f = some t ∧ t.doubleArea ≠ 0 ∧ t.Spans p) := by
  induction faces with
  | nil => exact ⟨false, rfl, by simp⟩
  | cons f faces ih =>
    obtain ⟨t, ht⟩ := exists_corners? (h f List.mem_cons_self)
    obtain ⟨covered, hgo, hcovered⟩ := ih fun g hg => h g (List.mem_cons_of_mem f hg)
    have hthis : (t.barycentric? p).any (·.inside) = true ↔ t.doubleArea ≠ 0 ∧ t.Spans p := by
      rw [Option.any_eq_true]
      constructor
      · rintro ⟨g, hg, hinside⟩
        exact ⟨Triangle.doubleArea_ne_zero_of_barycentric? hg,
          (Triangle.inside_iff_spans hg).mp hinside⟩
      · rintro ⟨hne, hspans⟩
        exact Triangle.exists_barycentric?_of_spans hne hspans
    have hfirst : (∃ g ∈ f :: faces, ∃ t, m.corners? g = some t ∧ t.doubleArea ≠ 0 ∧ t.Spans p) ↔
        (t.doubleArea ≠ 0 ∧ t.Spans p) ∨ covered = true := by
      rw [List.exists_mem_cons_iff, hcovered, ht]
      simp
    by_cases hinside : (t.barycentric? p).any (·.inside) = true
    · refine ⟨true, ?_, ?_⟩
      · simp [covers?.go, ht, hinside]
      · rw [hfirst]
        exact iff_of_true rfl (.inl (hthis.mp hinside))
    · refine ⟨covered, ?_, ?_⟩
      · simp [covers?.go, ht, hinside, hgo]
      · rw [hfirst, ← hthis]
        exact (or_iff_right hinside).symm

/-- A mesh covers the locations that a triangle with an area spans. -/
theorem exists_covers? (h : ∀ f ∈ m.faces, f.InRange m.points.length) (p : Point2 K) :
    ∃ covered, m.covers? p = some covered ∧ (covered = true ↔
      ∃ f ∈ m.faces, ∃ t, m.corners? f = some t ∧ t.doubleArea ≠ 0 ∧ t.Spans p) := by
  rw [covers?]
  split
  · exact exists_covers?_go h
  · next hbox =>
    refine ⟨false, rfl, iff_of_false (by simp) ?_⟩
    rintro ⟨f, _, t, ht, _, hspans⟩
    exact hbox (box_contains_of_spans ht hspans)

end Mesh

/-! ## Asking a terrain -/

namespace Terrain

variable {s : Terrain K} {t : Triangle K} {e : K}

theorem locateTolerance_eq : (locateTolerance : K) = 1 / 10 ^ 9 := by
  rw [locateTolerance, Scalar.negPowTen, Scalar.ofNat_eq_cast]
  norm_num

theorem locateTolerance_pos : (0 : K) < locateTolerance := Scalar.negPowTen_pos 9

/-- A triangle counts a location as inside if the excess is within the tolerance. -/
theorem excess?_eq_some_iff : s.excess? i p = some e ↔
    ∃ t g, s.triangles[i]? = some t ∧ t.barycentric? p = some g ∧ g.excess = e ∧
      e ≤ locateTolerance := by
  have hchoice : ∀ g : Barycentric K, (if g.inside = true ∨ g.excess ≤ locateTolerance then
      some g.excess else none) = some e ↔ g.excess = e ∧ e ≤ locateTolerance := by
    intro g
    split
    · next hg =>
      rw [Option.some.injEq]
      refine ⟨?_, And.left⟩
      rintro rfl
      refine ⟨rfl, hg.elim (fun hin => ?_) id⟩
      rw [Barycentric.excess_of_inside hin]
      exact locateTolerance_pos.le
    · next hg =>
      refine iff_of_false (by simp) ?_
      rintro ⟨rfl, hle⟩
      exact hg (.inr hle)
  simp only [excess?, Option.bind_eq_bind, Option.bind_eq_some_iff, hchoice]
  tauto

/-- What a triangle spans is not outside of it. -/
theorem excess?_of_spans (ht : s.triangles[i]? = some t) (hne : t.doubleArea ≠ 0)
    (h : t.Spans p) : s.excess? i p = some 0 := by
  obtain ⟨g, hg, hinside⟩ := Triangle.exists_barycentric?_of_spans hne h
  exact excess?_eq_some_iff.mpr
    ⟨t, g, ht, hg, Barycentric.excess_of_inside hinside, locateTolerance_pos.le⟩

/-- The triangle of a location is the one with the least excess, then the lowest. -/
theorem locate?_spec (h : s.locate? p = some i) :
    ∃ e, i ∈ s.index.queryPoint p ∧ s.excess? i p = some e ∧
      ∀ j e', j ∈ s.index.queryPoint p → s.excess? j p = some e' → e < e' ∨ e = e' ∧ i ≤ j := by
  have : Std.TransCmp fun a b : K × Nat => (Scalar.totalCmp a.1 b.1).then (compare a.2 b.2) :=
    transCmp_numbered id
  obtain ⟨⟨e, k⟩, hleast, rfl⟩ := Option.map_eq_some_iff.mp h
  obtain ⟨k', hk, hexcess⟩ := List.mem_filterMap.mp (mem_of_leastBy?_eq_some hleast)
  obtain ⟨e', he, heq⟩ := Option.map_eq_some_iff.mp hexcess
  cases heq
  refine ⟨e, hk, he, fun j e' hj he' => ?_⟩
  have hmem : (e', j) ∈ (s.index.queryPoint p).filterMap fun t =>
      (s.excess? t p).map fun e => (e, t) :=
    List.mem_filterMap.mpr ⟨j, hj, by rw [he', Option.map_some]⟩
  have hle := leads_iff.mp (leads_of_leastBy?_eq_some hleast) (e', j) hmem
  rw [Ordering.isLE_then_iff_or] at hle
  rcases hle with hlt | ⟨heq, hnumber⟩
  · rw [ExactScalar.totalCmp_eq] at hlt
    exact .inl (compare_lt_iff_lt.mp hlt)
  · rw [ExactScalar.totalCmp_eq] at heq
    exact .inr ⟨compare_eq_iff_eq.mp heq, Nat.isLE_compare.mp hnumber⟩

/-- A location is located where some triangle counts it as inside. -/
theorem exists_locate? (hi : i ∈ s.index.queryPoint p) (he : s.excess? i p = some e) :
    ∃ k, s.locate? p = some k := by
  have hmem : (e, i) ∈ (s.index.queryPoint p).filterMap fun t =>
      (s.excess? t p).map fun e => (e, t) :=
    List.mem_filterMap.mpr ⟨i, hi, by rw [he, Option.map_some]⟩
  obtain ⟨⟨e', k⟩, hleast, _⟩ :=
    exists_leastBy?_le Prod.fst (fun a b : K × Nat => compare a.2 b.2) hmem
  exact ⟨k, congrArg (Option.map Prod.snd) hleast⟩

section
variable {m : Mesh K} (hs : ofMesh? m = some s)
include hs

/-- What is in the box of no triangle is located nowhere. -/
theorem locate?_eq_none (h : ∀ t ∈ s.triangles, t.box.plan.contains p = false) :
    s.locate? p = none := by
  refine Option.eq_none_iff_forall_ne_some.mpr fun i hi => ?_
  obtain ⟨e, hquery, he, _⟩ := locate?_spec hi
  obtain ⟨t, _, ht, _⟩ := excess?_eq_some_iff.mp he
  have hbox := (mem_queryPoint_iff hs ht).mp hquery
  rw [h t (List.mem_of_getElem? ht)] at hbox
  cases hbox

/-- What a triangle with an area spans is located in the lowest such triangle. -/
theorem locate?_of_spans (h : ∃ t ∈ s.triangles, t.doubleArea ≠ 0 ∧ t.Spans p) :
    ∃ i t, s.locate? p = some i ∧ s.triangles[i]? = some t ∧ t.doubleArea ≠ 0 ∧ t.Spans p ∧
      ∀ j u, s.triangles[j]? = some u → u.doubleArea ≠ 0 → u.Spans p → i ≤ j := by
  have hfound : ∀ {j : Nat} {u : Triangle K}, s.triangles[j]? = some u → u.doubleArea ≠ 0 →
      u.Spans p → j ∈ s.index.queryPoint p ∧ s.excess? j p = some 0 := by
    intro j u hu hne hspans
    exact ⟨(mem_queryPoint_iff hs hu).mpr (Triangle.box_contains_of_spans hspans),
      excess?_of_spans hu hne hspans⟩
  obtain ⟨u, hmem, hne, hspans⟩ := h
  obtain ⟨k, hk⟩ := List.mem_iff_getElem?.mp hmem
  obtain ⟨hquery, hzero⟩ := hfound hk hne hspans
  obtain ⟨i, hi⟩ := exists_locate? hquery hzero
  obtain ⟨e, _, he, hleast⟩ := locate?_spec hi
  obtain ⟨t, g, ht, hg, rfl, _⟩ := excess?_eq_some_iff.mp he
  have hexcess : g.excess ≤ 0 := (hleast k 0 hquery hzero).elim le_of_lt fun heq => heq.1.le
  refine ⟨i, t, hi, ht, Triangle.doubleArea_ne_zero_of_barycentric? hg,
    (Triangle.spans_iff_excess_le hg).mpr hexcess, fun j u hu hne hspans => ?_⟩
  obtain ⟨hquery, hzero⟩ := hfound hu hne hspans
  exact (hleast j 0 hquery hzero).elim (fun hlt => absurd hlt g.excess_nonneg.1.not_gt) And.right

/-- What no triangle with an area spans is located, if at all, in the triangle that it is least
    outside of. -/
theorem locate?_of_not_spans (h : ∀ t ∈ s.triangles, t.doubleArea ≠ 0 → ¬ t.Spans p)
    (hi : s.locate? p = some i) :
    ∃ t g, s.triangles[i]? = some t ∧ t.box.plan.contains p = true ∧
      t.barycentric? p = some g ∧ 0 < g.excess ∧ g.excess ≤ locateTolerance ∧
      ∀ u ∈ s.triangles, u.box.plan.contains p = true →
        ∀ g', u.barycentric? p = some g' → g.excess ≤ g'.excess := by
  obtain ⟨e, hquery, he, hleast⟩ := locate?_spec hi
  obtain ⟨t, g, ht, hg, rfl, hle⟩ := excess?_eq_some_iff.mp he
  have hpos : 0 < g.excess := by
    refine lt_of_not_ge fun hexcess => ?_
    exact h t (List.mem_of_getElem? ht) (Triangle.doubleArea_ne_zero_of_barycentric? hg)
      ((Triangle.spans_iff_excess_le hg).mpr hexcess)
  refine ⟨t, g, ht, (mem_queryPoint_iff hs ht).mp hquery, hg, hpos, hle, ?_⟩
  intro u hu hbox g' hg'
  obtain ⟨j, hj⟩ := List.mem_iff_getElem?.mp hu
  by_cases hle' : g'.excess ≤ locateTolerance
  · have hexcess : s.excess? j p = some g'.excess :=
      excess?_eq_some_iff.mpr ⟨u, g', hj, hg', rfl, hle'⟩
    exact (hleast j _ ((mem_queryPoint_iff hs hj).mpr hbox) hexcess).elim le_of_lt fun heq =>
      heq.1.le
  · exact hle.trans (le_of_not_ge hle')

end

/-- **Locating and scanning agree.** A location that the mesh covers is located in the lowest of
    the triangles with an area that span it. Any other location is located nowhere, or in a
    triangle that it is outside of by no more than the tolerance, and outside of no triangle by
    less. -/
theorem locate?_agrees (points : List (Point3 K)) (faces : List Face)
    (hrange : ∀ f ∈ faces, f.InRange points.length) :
    ∃ s, ofMesh? (Mesh.ofFaces points faces) = some s ∧ ∀ p, ∃ covered,
      (Mesh.ofFaces points faces).covers? p = some covered ∧
      (covered = true → ∃ i t, s.locate? p = some i ∧ s.triangles[i]? = some t ∧
        t.doubleArea ≠ 0 ∧ t.Spans p ∧
        ∀ j u, s.triangles[j]? = some u → u.doubleArea ≠ 0 → u.Spans p → i ≤ j) ∧
      (covered = false → ∀ i, s.locate? p = some i →
        ∃ t g, s.triangles[i]? = some t ∧ t.box.plan.contains p = true ∧
          t.barycentric? p = some g ∧ 0 < g.excess ∧ g.excess ≤ 1 / 10 ^ 9 ∧
          ∀ u ∈ s.triangles, u.box.plan.contains p = true →
            ∀ g', u.barycentric? p = some g' → g.excess ≤ g'.excess) := by
  obtain ⟨s, hs⟩ := exists_ofMesh? (m := Mesh.ofFaces points faces) hrange
  have htriangles : ∀ t, t ∈ s.triangles ↔
      ∃ f ∈ faces, (Mesh.ofFaces points faces).corners? f = some t := fun t =>
    Mesh.mem_triangles?_iff (spec_of_ofMesh? hs).2.1
  refine ⟨s, hs, fun p => ?_⟩
  obtain ⟨covered, hcovers, hcovered⟩ :=
    Mesh.exists_covers? (m := Mesh.ofFaces points faces) hrange p
  refine ⟨covered, hcovers, fun htrue => ?_, fun hfalse i hi => ?_⟩
  · obtain ⟨f, hf, t, ht, hspans⟩ := hcovered.mp htrue
    exact locate?_of_spans hs ⟨t, (htriangles t).mpr ⟨f, hf, ht⟩, hspans⟩
  · rw [← locateTolerance_eq]
    refine locate?_of_not_spans hs (fun t ht hne hspans => ?_) hi
    obtain ⟨f, hf, hcorners⟩ := (htriangles t).mp ht
    have htrue := hcovered.mpr ⟨f, hf, t, hcorners, hne, hspans⟩
    rw [hfalse] at htrue
    cases htrue

/-! ## A mesh that overlaps itself -/

/-- A face without an area, and a triangle that is given both ways round. -/
noncomputable def overlaidMesh : Mesh ℝ :=
  Mesh.ofFaces [⟨0, 0, 0⟩, ⟨4, 0, 0⟩, ⟨4, 4, 8⟩] [⟨0, 1, 1⟩, ⟨0, 2, 1⟩, ⟨0, 1, 2⟩]

theorem inRange_overlaidMesh :
    ∀ f ∈ overlaidMesh.faces, f.InRange overlaidMesh.points.length := by
  simp [overlaidMesh, Face.InRange]

section
variable {s : Terrain ℝ} (hs : ofMesh? overlaidMesh = some s)
include hs

theorem triangles_overlaidMesh : s.triangles = [⟨⟨0, 0, 0⟩, ⟨4, 0, 0⟩, ⟨4, 0, 0⟩⟩,
    ⟨⟨0, 0, 0⟩, ⟨4, 4, 8⟩, ⟨4, 0, 0⟩⟩, ⟨⟨0, 0, 0⟩, ⟨4, 0, 0⟩, ⟨4, 4, 8⟩⟩] :=
  (Option.some.inj (spec_of_ofMesh? hs).2.1).symm

/-- All corners are in a square, and rise to the north. -/
theorem corners_overlaidMesh : ∀ t ∈ s.triangles, ∀ v ∈ t.corners,
    Box2.contains (Box.ofCorners ⟨0, 0⟩ ⟨4, 4⟩) v.plan = true ∧ v.z = 2 * v.y := by
  rw [triangles_overlaidMesh hs]
  norm_num [Triangle.corners, Box2.contains_ofCorners]

/-- No box reaches beyond the square. -/
theorem box_overlaidMesh :
    ∀ t ∈ s.triangles, t.box.plan.contains (⟨5, 1⟩ : Point2 ℝ) = false := by
  intro t ht
  have hplan : t.box.plan = Box.ofPoints (t.corners.map Point3.plan) := rfl
  rw [hplan]
  refine Bool.eq_false_iff.mpr fun hbox => ?_
  have hheld := Box2.contains_of_contains_ofPoints (by simp [Triangle.corners])
    (List.forall_mem_map.mpr fun v hv => (corners_overlaidMesh hs t ht v hv).1) hbox
  rw [Box2.contains_ofCorners] at hheld
  norm_num at hheld

end

/-- The first face is passed over, and the second goes before the third. Aside of the mesh
    nothing is located. -/
theorem locate?_agrees_overlaidMesh :
    (∀ f ∈ overlaidMesh.faces, f.InRange overlaidMesh.points.length) ∧
      ∃ s, ofMesh? overlaidMesh = some s ∧
        (overlaidMesh.covers? ⟨3, 1⟩ = some true ∧ s.locate? ⟨3, 1⟩ = some 1) ∧
        overlaidMesh.covers? ⟨5, 1⟩ = some false ∧ s.locate? ⟨5, 1⟩ = none := by
  obtain ⟨s, hs, hagrees⟩ :=
    locate?_agrees overlaidMesh.points overlaidMesh.faces inRange_overlaidMesh
  have htriangles := triangles_overlaidMesh hs
  have harea : (⟨⟨0, 0, 0⟩, ⟨4, 4, 8⟩, ⟨4, 0, 0⟩⟩ : Triangle ℝ).doubleArea ≠ 0 := by
    norm_num [Triangle.doubleArea, Ring.side_eq]
  have hspans : (⟨⟨0, 0, 0⟩, ⟨4, 4, 8⟩, ⟨4, 0, 0⟩⟩ : Triangle ℝ).Spans ⟨3, 1⟩ :=
    ⟨1 / 4, 1 / 4, 1 / 2, by norm_num⟩
  refine ⟨inRange_overlaidMesh, s, hs, ?_, ?_⟩
  · obtain ⟨covered, hcovers, hlocated, _⟩ := hagrees ⟨3, 1⟩
    obtain ⟨covered', hcovers', hcovered⟩ :=
      Mesh.exists_covers? inRange_overlaidMesh (⟨3, 1⟩ : Point2 ℝ)
    have htrue : covered' = true :=
      hcovered.mpr ⟨⟨0, 2, 1⟩, by simp [overlaidMesh], _, rfl, harea, hspans⟩
    have hsame : covered = covered' := Option.some.inj (hcovers.symm.trans hcovers')
    obtain ⟨i, t, hi, ht, hne, _, hlowest⟩ := hlocated (hsame.trans htrue)
    have hle : i ≤ 1 := hlowest 1 _ (by rw [htriangles]; rfl) harea hspans
    have hfirst : i ≠ 0 := by
      rintro rfl
      rw [htriangles] at ht
      cases ht
      simp [Triangle.doubleArea, Ring.side_eq] at hne
    have hone : i = 1 := by omega
    rw [htrue] at hcovers'
    exact ⟨hcovers', hone ▸ hi⟩
  · obtain ⟨covered, hcovers, hcovered, hlocated⟩ := hagrees ⟨5, 1⟩
    have hfalse : covered = false := by
      refine Bool.eq_false_iff.mpr fun htrue => ?_
      obtain ⟨i, t, _, ht, _, hspans, _⟩ := hcovered htrue
      have hbox := Triangle.box_contains_of_spans hspans
      rw [box_overlaidMesh hs t (List.mem_of_getElem? ht)] at hbox
      cases hbox
    refine ⟨hfalse ▸ hcovers, Option.eq_none_iff_forall_ne_some.mpr fun i hi => ?_⟩
    obtain ⟨t, _, ht, hbox, _⟩ := hlocated hfalse i hi
    rw [box_overlaidMesh hs t (List.mem_of_getElem? ht)] at hbox
    cases hbox

end Terrain

end SiteSection
