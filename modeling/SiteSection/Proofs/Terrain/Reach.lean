import SiteSection.Proofs.Terrain.Passing

/-! # Walks that reach their end

  A walk over a convex mesh ends where its line ends, if the way is clear: no corner of the mesh
  is on the line before its end, and every side that is nearer to the line than the tolerance
  meets it.
-/

namespace SiteSection

namespace Terrain

variable {K : Type} [ExactScalar K] {s : Terrain K} {line : Segment K} {eps : K}
  {visited : List Nat} {i : Nat}

/-- The mesh has neither holes nor dents: it covers what lies between locations on it. -/
def IsConvex (s : Terrain K) : Prop :=
  ∀ p q, s.Covers p → s.Covers q → ∀ y, (Segment.flat p q).On y → s.Covers y

/-- The way along a line is clear. -/
structure ClearWay (s : Terrain K) (line : Segment K) (eps : K) : Prop where
  /-- No corner is on the line before its end. -/
  corner : ∀ t ∈ s.triangles, ∀ v ∈ t.corners, line.On v.plan → v.plan = line.p1.plan
  /-- A side that is near to the line meets it. -/
  side : ∀ t ∈ s.triangles, ∀ e ∈ t.sides, ∀ y z, line.On y → (⟨e.1, e.2⟩ : Segment K).On z →
    y.dist z < eps → ∃ x, line.On x ∧ (⟨e.1, e.2⟩ : Segment K).On x

/-- A clear way is passable. -/
theorem ClearWay.passable (h : s.ClearWay line eps) : s.Passable line eps where
  corner := h.corner
  side := by
    intro t ht e he hnear
    obtain ⟨hline, hside⟩ := line.on_closestPoints ⟨e.1, e.2⟩
    exact h.side t ht e he _ _ hline hside hnear

/-! ## Walking -/

/-- After a sample the walk is at its place, whether it was new or not. -/
theorem getLast?_distinctFrom (last x : Point3 K) (rest : List (Point3 K)) :
    ((distinctFrom last x).getLast?.getD last).plan = x.plan ∧
      (last :: (distinctFrom last x ++ rest)).getLast? =
        ((distinctFrom last x).getLast?.getD last :: rest).getLast? := by
  unfold distinctFrom
  split
  · next hsame => exact ⟨eq_of_beq hsame, rfl⟩
  · exact ⟨rfl, List.getLast?_cons_cons⟩

section
variable (h : s.IsTessellation) (hclear : s.ClearWay line eps) (heps : 0 < eps)
  (hcover : ∀ u, 0 ≤ u → u ≤ 1 → s.Covers (line.pointAt u).plan)
  (hahead : s.Ahead line visited i)
include h hclear heps hcover hahead

/-- From a triangle in which the line goes on, but does not end, the way out leads to another
    one. -/
theorem exists_exit?_ahead (hend : s.holds i line.p1.plan = false) :
    ∃ e j, s.exit? line (i :: visited) eps i = some e ∧ e.next = some j ∧
      s.Ahead line (i :: visited) j := by
  obtain ⟨t, ht, _⟩ := id hahead
  rw [← h.upright_eq] at hcover hahead
  obtain ⟨hi, e, j, _, he, hnext, henters, _⟩ := exists_exit?_entering h.isTriangulation
    hclear.passable heps hcover hahead ht hend
  rw [h.upright_eq] at henters
  exact ⟨e, j, he, hnext, henters.ahead⟩

/-- **All steps.** A walk from a triangle in which the line goes on ends where the line does, as
    long as the triangles visited and the bound exceed the number of triangles. -/
theorem getLast?_samplesFrom {bound : Nat} {last : Point3 K} (hnodup : visited.Nodup)
    (hindex : ∀ k ∈ visited, k < s.triangles.length)
    (hbound : s.triangles.length < bound + visited.length) :
    (last :: s.samplesFrom line eps bound visited i last).getLast?.map Point3.plan =
      some line.p1.plan := by
  induction bound generalizing visited i last with
  | zero =>
    exfalso
    have hle := length_visited_le hnodup hindex
    omega
  | succ bound ih =>
    rw [samplesFrom]
    split
    · -- The triangle holds the end of the line.
      obtain ⟨hplan, hlast⟩ :=
        getLast?_distinctFrom last (line.p1.withZ (s.planeZ i line.p1.plan)) []
      rw [List.append_nil] at hlast
      rw [hlast, List.getLast?_singleton, Option.map_some, hplan, Point3.withZ_plan]
    · next hend =>
      obtain ⟨e, j, he, hnext, hahead'⟩ :=
        exists_exit?_ahead h hclear heps hcover hahead (by simpa using hend)
      obtain ⟨t, ht, _⟩ := id hahead
      have hlt : i < s.triangles.length := (List.getElem?_eq_some_iff.mp ht).1
      simp only [he, hnext]
      rw [(getLast?_distinctFrom last e.crossing _).2]
      apply ih hahead' (List.nodup_cons.mpr ⟨hahead.notMem, hnodup⟩)
      · intro k hk
        rcases List.mem_cons.mp hk with rfl | hk
        · exact hlt
        · exact hindex k hk
      · rw [List.length_cons]
        omega

end

/-- A walk from a location on the mesh starts there, in a triangle that has it. -/
theorem exists_start? (h : s.IsTessellation) (hp : s.Covers line.p0.plan) :
    ∃ i t, s.triangles[i]? = some t ∧ t.Has line.p0.plan ∧
      s.start? line = some (i, line.p0.withZ (s.planeZ i line.p0.plan)) := by
  rw [← h.upright_eq] at hp
  obtain ⟨i, t, ht, hhas, hstart⟩ := exists_start?_upright h.isTriangulation hp
  rw [Triangle.upright_of_pos (h.positive t (List.mem_of_getElem? ht))] at hhas
  exact ⟨i, t, ht, hhas, hstart⟩

/-- **Walks reach their end.** Over a convex tessellation, a walk between two locations on the
    mesh starts at the first, and ends at the second if the way is clear. -/
theorem walk_reaches_end (h : s.IsTessellation) (hconvex : s.IsConvex) {a b : Point2 K}
    (ha : s.Covers a) (hb : s.Covers b) (heps : 0 < eps) :
    (s.walk a b eps).head?.map Point3.plan = some a ∧
      (s.ClearWay (Segment.flat a b) eps →
        (s.walk a b eps).getLast?.map Point3.plan = some b) := by
  set line := Segment.flat a b with hline
  have hp0 : s.Covers line.p0.plan := ha
  obtain ⟨i, t, ht, hhas, hstart⟩ := exists_start? h hp0
  have hwalk : s.walk a b eps = line.p0.withZ (s.planeZ i line.p0.plan) ::
      s.samplesFrom line eps (s.triangles.length + 1) [] i
        (line.p0.withZ (s.planeZ i line.p0.plan)) := by
    rw [walk, ← hline, hstart]
  rw [hwalk]
  refine ⟨rfl, fun hclear => ?_⟩
  have hcover : ∀ u, 0 ≤ u → u ≤ 1 → s.Covers (line.pointAt u).plan := fun u hu hu' =>
    hconvex a b ha hb _ (line.on_pointAt hu hu')
  have hahead : s.Ahead line [] i := by
    refine ⟨t, ht, 0, ⟨le_rfl, zero_le_one, ?_⟩, by simp⟩
    rw [line.pointAt_plan_zero]
    exact hhas
  exact getLast?_samplesFrom h hclear heps hcover hahead List.nodup_nil (by simp) (by simp)

/-! ## A square in two halves -/

/-- The half of a square below its diagonal, which rises to the north. -/
def lowerHalf : Triangle ℝ := ⟨⟨0, 0, 0⟩, ⟨4, 0, 0⟩, ⟨4, 4, 4⟩⟩

/-- The half of a square above its diagonal, which rises to the east. -/
def upperHalf : Triangle ℝ := ⟨⟨0, 0, 0⟩, ⟨4, 4, 4⟩, ⟨0, 4, 0⟩⟩

/-- A square in two halves. -/
noncomputable def halvedSquare : Terrain ℝ where
  mesh := Mesh.ofFaces [⟨0, 0, 0⟩, ⟨4, 0, 0⟩, ⟨4, 4, 4⟩, ⟨0, 4, 0⟩] [⟨0, 1, 2⟩, ⟨0, 2, 3⟩]
  triangles := [lowerHalf, upperHalf]
  index := BoxIndex.ofList ([lowerHalf, upperHalf].zipIdx.map fun e => (e.1.box.plan, e.2))

theorem has_lowerHalf {p : Point2 ℝ} : lowerHalf.Has p ↔ 0 ≤ p.y ∧ p.x ≤ 4 ∧ p.y ≤ p.x := by
  rw [Triangle.has_iff]
  simp only [Ring.side_eq, lowerHalf, Point3.plan]
  constructor
  · rintro ⟨h1, h2, h3⟩
    exact ⟨by linarith, by linarith, by linarith⟩
  · rintro ⟨h1, h2, h3⟩
    exact ⟨by linarith, by linarith, by linarith⟩

theorem has_upperHalf {p : Point2 ℝ} : upperHalf.Has p ↔ 0 ≤ p.x ∧ p.y ≤ 4 ∧ p.x ≤ p.y := by
  rw [Triangle.has_iff]
  simp only [Ring.side_eq, upperHalf, Point3.plan]
  constructor
  · rintro ⟨h1, h2, h3⟩
    exact ⟨by linarith, by linarith, by linarith⟩
  · rintro ⟨h1, h2, h3⟩
    exact ⟨by linarith, by linarith, by linarith⟩

/-- The halves meet in the diagonal. -/
theorem on_diagonal {p : Point2 ℝ} (hlower : lowerHalf.Has p) (hupper : upperHalf.Has p) :
    (⟨⟨0, 0, 0⟩, ⟨4, 4, 4⟩⟩ : Segment ℝ).On p ∧ (⟨⟨4, 4, 4⟩, ⟨0, 0, 0⟩⟩ : Segment ℝ).On p := by
  obtain ⟨hy, hx, hle⟩ := has_lowerHalf.mp hlower
  obtain ⟨_, _, hge⟩ := has_upperHalf.mp hupper
  have hup : (⟨⟨0, 0, 0⟩, ⟨4, 4, 4⟩⟩ : Segment ℝ).On p := by
    refine ⟨p.x / 4, by linarith, by linarith, ?_⟩
    ext
    · simp only [Point3.plan_x, Segment.pointAt_x]
      ring
    · simp only [Point3.plan_y, Segment.pointAt_y]
      linarith
  exact ⟨hup, (Segment.on_turned _).mpr hup⟩

theorem isTessellation_halvedSquare : halvedSquare.IsTessellation where
  exists_ofMesh? := ⟨halvedSquare.mesh.points, halvedSquare.mesh.faces, rfl⟩
  positive := by
    intro t ht
    simp only [halvedSquare, List.mem_cons, List.not_mem_nil, or_false] at ht
    rcases ht with rfl | rfl <;>
      norm_num [Triangle.doubleArea, Ring.side_eq, lowerHalf, upperHalf, Point3.plan]
  meet := by
    intro i j f g t u hij hf hg ht hu p hp hp'
    have hi : i < 2 := (List.getElem?_eq_some_iff.mp ht).1
    have hj : j < 2 := (List.getElem?_eq_some_iff.mp hu).1
    obtain ⟨rfl, rfl⟩ | ⟨rfl, rfl⟩ : (i = 0 ∧ j = 1) ∨ (i = 1 ∧ j = 0) := by omega
    · cases hf
      cases hg
      cases ht
      cases hu
      exact .inr ⟨2, 0, ⟨(2, 0), rfl, (0, 2), rfl, rfl⟩, _, rfl, (on_diagonal hp hp').2⟩
    · cases hf
      cases hg
      cases ht
      cases hu
      exact .inr ⟨0, 2, ⟨(0, 2), rfl, (2, 0), rfl, rfl⟩, _, rfl, (on_diagonal hp' hp).1⟩

theorem covers_halvedSquare {p : Point2 ℝ} :
    halvedSquare.Covers p ↔ (0 ≤ p.x ∧ p.x ≤ 4) ∧ 0 ≤ p.y ∧ p.y ≤ 4 := by
  have hhalves : halvedSquare.Covers p ↔ lowerHalf.Has p ∨ upperHalf.Has p := by
    simp [Covers, halvedSquare]
  rw [hhalves, has_lowerHalf, has_upperHalf]
  constructor
  · rintro (⟨h1, h2, h3⟩ | ⟨h1, h2, h3⟩)
    · exact ⟨⟨by linarith, h2⟩, h1, by linarith⟩
    · exact ⟨⟨h1, by linarith⟩, by linarith, h2⟩
  · rintro ⟨⟨h1, h2⟩, h3, h4⟩
    rcases le_total p.y p.x with hle | hle
    · exact .inl ⟨h3, h2, hle⟩
    · exact .inr ⟨h1, h4, hle⟩

theorem isConvex_halvedSquare : halvedSquare.IsConvex := by
  rintro p q hp hq _ ⟨t, ht, ht', rfl⟩
  rw [covers_halvedSquare] at hp hq ⊢
  simp only [Point3.plan_x, Point3.plan_y, Segment.pointAt_x, Segment.pointAt_y, Segment.flat,
    Point2.atZ]
  exact ⟨⟨by nlinarith, by nlinarith⟩, by nlinarith, by nlinarith⟩

/-- A line from one half to the other. -/
noncomputable def acrossDiagonal : Segment ℝ := Segment.flat ⟨3, 1⟩ ⟨1, 3⟩

theorem on_acrossDiagonal {y : Point2 ℝ} (h : acrossDiagonal.On y) :
    1 ≤ y.x ∧ y.x ≤ 3 ∧ y.x + y.y = 4 := by
  obtain ⟨t, ht, ht', rfl⟩ := h
  simp only [Point3.plan_x, Point3.plan_y, Segment.pointAt_x, Segment.pointAt_y, acrossDiagonal,
    Segment.flat, Point2.atZ]
  exact ⟨by linarith, by linarith, by ring⟩

/-- The line goes through the middle of the square. -/
theorem middle_on_acrossDiagonal : acrossDiagonal.On ⟨2, 2⟩ := by
  refine ⟨1 / 2, by norm_num, by norm_num, ?_⟩
  ext <;> norm_num [acrossDiagonal, Segment.flat, Point2.atZ]

/-- The line is away from the border of the square. -/
theorem half_le_dist_border {y z : Point2 ℝ} (hy : acrossDiagonal.On y)
    (hz : z.x = 0 ∨ z.x = 4 ∨ z.y = 0 ∨ z.y = 4) : 1 / 2 ≤ y.dist z := by
  obtain ⟨hlow, hhigh, hsum⟩ := on_acrossDiagonal hy
  obtain ⟨hx, hy⟩ := Point2.abs_sub_le_dist y z
  rcases hz with hz | hz | hz | hz
  · linarith [le_abs_self (y.x - z.x)]
  · linarith [neg_abs_le (y.x - z.x)]
  · linarith [le_abs_self (y.y - z.y)]
  · linarith [neg_abs_le (y.y - z.y)]

/-- The way across the diagonal is clear. -/
theorem clearWay_acrossDiagonal : halvedSquare.ClearWay acrossDiagonal (1 / 2) where
  corner := by
    intro t ht v hv hon
    exfalso
    obtain ⟨hlow, hhigh, _⟩ := on_acrossDiagonal hon
    have hx : v.x = 0 ∨ v.x = 4 := by
      simp only [halvedSquare, List.mem_cons, List.not_mem_nil, or_false] at ht
      rcases ht with rfl | rfl
      · simp only [Triangle.corners, lowerHalf, List.mem_cons, List.not_mem_nil, or_false] at hv
        rcases hv with rfl | rfl | rfl <;> simp
      · simp only [Triangle.corners, upperHalf, List.mem_cons, List.not_mem_nil, or_false] at hv
        rcases hv with rfl | rfl | rfl <;> simp
    rw [Point3.plan_x] at hlow hhigh
    rcases hx with hx | hx <;> linarith
  side := by
    intro t ht e he y z hy hz hnear
    have hinner : ¬ (z.x = 0 ∨ z.x = 4 ∨ z.y = 0 ∨ z.y = 4) := fun hborder =>
      absurd hnear (not_lt.mpr (half_le_dist_border hy hborder))
    have hdiagonal : lowerHalf.Has ⟨2, 2⟩ ∧ upperHalf.Has ⟨2, 2⟩ := by
      rw [has_lowerHalf, has_upperHalf]
      norm_num
    obtain ⟨hup, hdown⟩ := on_diagonal hdiagonal.1 hdiagonal.2
    obtain ⟨w, _, _, rfl⟩ := hz
    simp only [halvedSquare, List.mem_cons, List.not_mem_nil, or_false] at ht
    rcases ht with rfl | rfl
    · simp only [Triangle.sides, lowerHalf, List.mem_cons, List.not_mem_nil, or_false] at he
      rcases he with rfl | rfl | rfl
      · exact absurd (by simp) hinner
      · exact absurd (by simp) hinner
      · exact ⟨_, middle_on_acrossDiagonal, hdown⟩
    · simp only [Triangle.sides, upperHalf, List.mem_cons, List.not_mem_nil, or_false] at he
      rcases he with rfl | rfl | rfl
      · exact ⟨_, middle_on_acrossDiagonal, hup⟩
      · exact absurd (by simp) hinner
      · exact absurd (by simp) hinner

/-- From the lower half the walk goes across the diagonal to its end in the upper half. -/
theorem walk_reaches_end_halvedSquare :
    halvedSquare.IsTessellation ∧ halvedSquare.IsConvex ∧
      halvedSquare.ClearWay acrossDiagonal (1 / 2) ∧
        (halvedSquare.walk ⟨3, 1⟩ ⟨1, 3⟩ (1 / 2)).head?.map Point3.plan = some ⟨3, 1⟩ ∧
          (halvedSquare.walk ⟨3, 1⟩ ⟨1, 3⟩ (1 / 2)).getLast?.map Point3.plan = some ⟨1, 3⟩ := by
  refine ⟨isTessellation_halvedSquare, isConvex_halvedSquare, clearWay_acrossDiagonal, ?_⟩
  have ha : halvedSquare.Covers ⟨3, 1⟩ := covers_halvedSquare.mpr (by norm_num)
  have hb : halvedSquare.Covers ⟨1, 3⟩ := covers_halvedSquare.mpr (by norm_num)
  obtain ⟨hstart, hreach⟩ := walk_reaches_end isTessellation_halvedSquare isConvex_halvedSquare
    ha hb (by norm_num : (0 : ℝ) < 1 / 2)
  exact ⟨hstart, hreach clearWay_acrossDiagonal⟩

end Terrain

end SiteSection
