import SiteSection.Proofs.Site.Lookup

/-! # Crossings and the points of a profile

  A line that crosses a boundary has a point of the boundary's kind there in its profile. In
  exact arithmetic what it crosses is looked up without a loss, and no pass that follows empties
  a place.

  A border of a ground region is left out where it is met at a corner, so a line through no
  corner crosses every border that it meets.
-/

namespace SiteSection

namespace Site

/-! ## Places that are kept -/

/-- Every place of a section before clean-up has a point in the profile. -/
theorem keepsPlace_profile {α : Type} [Scalar α] [PartialEquivBEq α] (s : Site α)
    {source receiver : Point3 α} {g : α} {c : SectionPoint α}
    (h : c ∈ s.sectionPoints ⟨source, receiver⟩ g) :
    SectionPoint.KeepsPlace (s.profile source receiver g).points c := by
  simp only [profile, anchor_sectionPoints]
  obtain ⟨b, hb, hbc⟩ := SectionPoint.keepsPlace_capRuns h
  have hkeep := SectionPoint.keepsPlace_settle s.settings.policy
    (s.groundAhead ⟨source, receiver⟩ g) hb
  rcases hbc with rfl | hbc
  · exact hkeep
  · exact hkeep.trans hbc

/-- Away from its corners the border of a region is crossed where the line meets it. -/
theorem crossing?_of_region {α : Type} [Scalar α] (s : Site α) {line : Segment α} (g : α)
    {b : Boundary α} {i : Nat} {x : Point3 α} (hrole : b.role = .region i)
    (hx : line.intersect? b.segment = some x) (hend : b.hasEnd x.plan = false) :
    s.crossing? line g b = some ⟨x.plan.atZ (s.crossingZ b x.plan), .ground, some i,
      s.groundAhead line g x.plan, none, false⟩ := by
  simp [crossing?, hrole, hx, hend]

section
variable {K : Type} [ExactCircular K] {s : Site K} {source receiver : Point3 K}
  {line : Segment K} {g : K} {y : Point2 K} {c : SectionPoint K}

/-! ## Border crossings -/

/-- A line that passes through no corner and does not start on a border crosses every border
    that it meets. -/
theorem IsSealed.exists_crossing (h : s.IsSealed) (hcorner : ∀ v ∈ s.borderCorners, ¬ line.On v)
    (hstart : ¬ s.OnBorder line.p0.plan) (hline : line.On y) (hborder : s.OnBorder y) (g : K) :
    ∃ c ∈ s.crossings line g, c.kind = .ground ∧ c.position.plan = y := by
  obtain ⟨e, he, hy⟩ := hborder
  obtain ⟨i, hb⟩ := h.exists_border he
  have hends := s.mem_borderCorners he
  -- The line meets the edge, holds no end of it and does not start on it, so the two cross.
  obtain ⟨x, hx, rfl⟩ := line.intersect?_of_transversal (Segment.flat e.1 e.2) hline hy
    (hcorner e.1 hends.1) (hcorner e.2 hends.2) line.on_p0 fun hon => hstart ⟨e, he, hon⟩
  set b : Boundary K := ⟨e.1.atZ Scalar.nan, e.2.atZ Scalar.nan, true, true, .region i⟩
  have hnotEnd : b.hasEnd x.plan = false := by
    have hne : ∀ v ∈ s.borderCorners, (x.plan == v) = false := fun v hv =>
      beq_eq_false_iff_ne.mpr fun heq => hcorner v hv (heq ▸ hline)
    rw [Boundary.hasEnd, Bool.or_eq_false_iff]
    exact ⟨hne e.1 hends.1, hne e.2 hends.2⟩
  have hcrossing := s.crossing?_of_region g (rfl : b.role = .region i) hx hnotEnd
  exact ⟨_, h.mem_crossings hb hcrossing, rfl, rfl⟩

/-- Where a line crosses a boundary, the profile has a point of its kind. -/
theorem exists_mem_profile_of_crossing (hc : c ∈ s.crossings ⟨source, receiver⟩ g) :
    ∃ c' ∈ (s.profile source receiver g).points,
      c'.kind = c.kind ∧ c'.position.plan = c.position.plan := by
  have hsection : c ∈ s.sectionPoints ⟨source, receiver⟩ g := by
    refine List.mem_cons_of_mem _ (List.mem_append_left _ ?_)
    refine SectionPoint.mem_frameAfter_of_mem s.footOf (List.mem_mergeSort.mpr ?_)
    exact List.mem_append_right _ hc
  obtain ⟨c', hc', rfl | hplace⟩ := s.keepsPlace_profile hsection
  · exact ⟨c', hc', rfl, rfl⟩
  · obtain ⟨hkind, hplan⟩ := SectionPoint.samePlace_iff.mp hplace
    exact ⟨c', hc', hkind, eq_of_beq hplan⟩

/-- A line that meets a border where it crosses none has a point of the profile there. -/
theorem IsSealed.exists_ground_point (h : s.IsSealed)
    (hcorner : ∀ v ∈ s.borderCorners, ¬ (⟨source, receiver⟩ : Segment K).On v)
    (hstart : ¬ s.OnBorder source.plan) (hline : (⟨source, receiver⟩ : Segment K).On y)
    (hborder : s.OnBorder y) (g : K) :
    ∃ c ∈ (s.profile source receiver g).points, c.kind = .ground ∧ c.position.plan = y := by
  obtain ⟨c, hc, hkind, rfl⟩ := h.exists_crossing hcorner hstart hline hborder g
  obtain ⟨c', hc', hkind', hplan⟩ := exists_mem_profile_of_crossing hc
  exact ⟨c', hc', hkind'.trans hkind, hplan⟩

end

/-! ## A square on the way -/

/-- A site with a square ground region. -/
noncomputable def squareSite : Site ℝ :=
  ((Draft.empty Settings.default).afterAll
    [.region [⟨[⟨1, -2⟩, ⟨5, -2⟩, ⟨5, 2⟩, ⟨1, 2⟩]⟩] 1]).siteOver none

/-- A line that ends in the middle of the square. -/
noncomputable def intoSquare : Segment ℝ := ⟨⟨0, 0, 1⟩, ⟨3, 0, 1⟩⟩

theorem borderEdges_square : squareSite.borderEdges =
    [(⟨1, -2⟩, ⟨5, -2⟩), (⟨5, -2⟩, ⟨5, 2⟩), (⟨5, 2⟩, ⟨1, 2⟩), (⟨1, 2⟩, ⟨1, -2⟩)] := rfl

/-- The border of the square. -/
theorem onBorder_square {y : Point2 ℝ} (h : squareSite.OnBorder y) :
    1 ≤ y.x ∧ (y.x = 1 ∨ y.x = 5 ∨ y.y = 2 ∨ y.y = -2) := by
  obtain ⟨e, he, t, ht, ht', rfl⟩ := h
  rw [borderEdges_square] at he
  simp only [List.mem_cons, List.not_mem_nil, or_false] at he
  rcases he with rfl | rfl | rfl | rfl <;>
    simp only [Point3.plan_x, Point3.plan_y, Segment.pointAt_x, Segment.pointAt_y, Segment.flat,
      Point2.atZ]
  · exact ⟨by linarith, .inr (.inr (.inr (by ring)))⟩
  · exact ⟨by linarith, .inr (.inl (by ring))⟩
  · exact ⟨by linarith, .inr (.inr (.inl (by ring)))⟩
  · exact ⟨by linarith, .inl (by ring)⟩

theorem on_intoSquare {y : Point2 ℝ} (h : intoSquare.On y) : 0 ≤ y.x ∧ y.x ≤ 3 ∧ y.y = 0 := by
  obtain ⟨t, ht, ht', rfl⟩ := h
  simp only [Point3.plan_x, Point3.plan_y, Segment.pointAt_x, Segment.pointAt_y, intoSquare]
  exact ⟨by linarith, by linarith, by ring⟩

/-- The line passes no corner of the square. -/
theorem corner_off_intoSquare : ∀ v ∈ squareSite.borderCorners, ¬ intoSquare.On v := by
  have hcorners : squareSite.borderCorners = [⟨1, -2⟩, ⟨5, -2⟩, ⟨5, 2⟩, ⟨1, 2⟩] := rfl
  intro v hv hon
  have hzero := (on_intoSquare hon).2.2
  rw [hcorners] at hv
  simp only [List.mem_cons, List.not_mem_nil, or_false] at hv
  rcases hv with rfl | rfl | rfl | rfl <;> norm_num at hzero

/-- On the way into the square its near side is crossed. -/
theorem exists_ground_point_square :
    ∃ c ∈ (squareSite.profile intoSquare.p0 intoSquare.p1 0).points,
      c.kind = .ground ∧ c.position.plan = ⟨1, 0⟩ := by
  have hsealed : squareSite.IsSealed := ⟨_, _, none, rfl⟩
  refine hsealed.exists_ground_point corner_off_intoSquare ?_ ?_ ?_ 0
  · intro hborder
    have hx := (onBorder_square hborder).1
    norm_num [intoSquare] at hx
  · refine ⟨1 / 3, by norm_num, by norm_num, ?_⟩
    ext <;> norm_num [intoSquare]
  · refine ⟨(⟨1, 2⟩, ⟨1, -2⟩), by simp [borderEdges_square], 1 / 2, by norm_num, by norm_num, ?_⟩
    ext <;> norm_num [Segment.flat, Point2.atZ]

end Site

end SiteSection
