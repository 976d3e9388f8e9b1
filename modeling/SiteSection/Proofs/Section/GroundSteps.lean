import SiteSection.Proofs.Section.Order

/-! # The ground as a step function

  Read from left to right, the source and the border crossings of a profile tell the ground
  along the line: it is that of the last of them, up to the next. In exact arithmetic this is
  the ground of the site, for a line that passes through no corner of a region.

  Such a line crosses every border that it meets, so each border place has a crossing among
  the collected points, and the passes that follow leave a point at every place. Between the
  last crossing and a location behind it there is no border, and the ground cannot change.
-/

namespace SiteSection

/-- The last point of a profile that tells the ground, its source or a border crossing, among
    those not beyond a location. -/
def Profile.groundPointBefore? {α : Type} [Scalar α] (s : Profile α) (line : Segment α)
    (q : Point2 α) : Option (SectionPoint α) :=
  (s.points.filter fun c => (c.kind == .source || c.kind == .ground) &&
    decide (line.project c.position.plan ≤ line.project q)).getLast?

namespace Site

section
variable {K : Type} [ExactCircular K] {s : Site K} {source receiver : Point3 K}
  {line : Segment K} {g : K} {p q x y : Point2 K} {c : SectionPoint K}

/-! ## Ground points of a profile -/

/-- A ground point of a profile is on a border, over the ground ahead. -/
theorem IsSealed.ground_of_mem_profile (h : s.IsSealed)
    (hc : c ∈ (s.profile source receiver g).points) (hkind : c.kind = .ground) :
    s.OnBorder c.position.plan ∧
      c.ground = s.groundAhead ⟨source, receiver⟩ g c.position.plan := by
  -- The ends, the terrain points and the feet of buildings are of other kinds.
  have hcrossings : c ∈ s.crossings ⟨source, receiver⟩ g := by
    rcases s.mem_sectionPoints ((s.profile_sublist source receiver g).subset hc) with
      rfl | rfl | hc | ⟨b, _, hbuilding, rfl⟩
    · cases hkind
    · cases hkind
    · rcases s.mem_collected hc with ⟨p, rfl⟩ | hc
      · cases hkind
      · exact hc
    · have hfoot : b.kind = .ground := hkind
      simp [SectionPoint.isBuilding, hfoot] at hbuilding
  obtain ⟨b, hb, hcrossing⟩ := s.exists_of_mem_crossings hcrossings
  obtain ⟨⟨x, hx, hplan⟩, hbkind, hground⟩ := s.crossing?_spec hcrossing
  obtain ⟨e, he, hsegment⟩ := h.segment_of_region hb (hbkind.symm.trans hkind)
  constructor
  · refine ⟨e, he, ?_⟩
    rw [hplan, ← hsegment]
    exact Segment.on_right_of_intersect? _ _ hx
  · simpa [hkind] using hground

/-! ## The last point that tells the ground -/

/-- The last ground point before a location is the source, if no border is crossed before it,
    or else a border crossing that no other one before the location follows. -/
theorem groundPointBefore?_cases (hq : (⟨source, receiver⟩ : Segment K).On q) :
    let line : Segment K := ⟨source, receiver⟩
    let crossed := fun d => d ∈ (s.profile source receiver g).points ∧ d.kind = .ground ∧
      line.project d.position.plan ≤ line.project q
    ((s.profile source receiver g).groundPointBefore? line q = some (s.sourcePoint source g) ∧
      ∀ d, ¬ crossed d) ∨
    ∃ c, (s.profile source receiver g).groundPointBefore? line q = some c ∧ crossed c ∧
      ∀ d, crossed d → line.project d.position.plan ≤ line.project c.position.plan := by
  intro line crossed
  obtain ⟨inner, hinner, hpoints⟩ := s.profile_points source receiver g
  have hsorted := s.pairwise_project_profile source receiver g
  simp only [crossed, Profile.groundPointBefore?]
  rw [hpoints] at hsorted ⊢
  set others := inner ++ [s.receiverPoint receiver g] with hothers
  set tells := fun c : SectionPoint K => (c.kind == .source || c.kind == .ground) &&
    decide (line.project c.position.plan ≤ line.project q) with htells
  have hsource : tells (s.sourcePoint source g) = true := by
    have hstart : line.project source.plan ≤ line.project q := line.project_p0_le hq
    exact Bool.and_eq_true_iff.mpr ⟨rfl, decide_eq_true hstart⟩
  have hother : ∀ d ∈ others, d.kind ≠ .source := by
    intro d hd
    rcases List.mem_append.mp hd with hd | hd
    · exact (s.kind_of_mem_interior (hinner.subset hd)).1
    · rw [List.mem_singleton.mp hd]
      simp [receiverPoint]
  -- Behind the source exactly the crossings before the location tell the ground.
  have hcrossed : ∀ d, (d ∈ s.sourcePoint source g :: others ∧ d.kind = .ground ∧
      line.project d.position.plan ≤ line.project q) ↔ d ∈ others.filter tells := by
    intro d
    rw [List.mem_filter]
    constructor
    · rintro ⟨hd, hkind, hle⟩
      rcases List.mem_cons.mp hd with rfl | hd
      · cases hkind
      · exact ⟨hd, by simp [htells, hkind, hle]⟩
    · rintro ⟨hd, htell⟩
      have hground : d.kind = .ground ∧ line.project d.position.plan ≤ line.project q := by
        simpa [htells, hother d hd] using htell
      exact ⟨List.mem_cons_of_mem _ hd, hground⟩
  simp only [hcrossed]
  rw [List.filter_cons_of_pos hsource]
  cases hlast : (others.filter tells).getLast? with
  | none =>
    rw [List.getLast?_eq_none_iff] at hlast
    rw [hlast]
    exact .inl ⟨rfl, fun d => List.not_mem_nil⟩
  | some c =>
    -- The last of a list in order has the greatest projection.
    refine .inr ⟨c, by rw [List.getLast?_cons, hlast]; rfl, List.mem_of_getLast? hlast, ?_⟩
    obtain ⟨front, hfront⟩ := List.getLast?_eq_some_iff.mp hlast
    have hpairwise := (List.pairwise_cons.mp hsorted).2.sublist
      (List.filter_sublist : (others.filter tells).Sublist others)
    rw [hfront, List.pairwise_append] at hpairwise
    intro d hd
    rw [hfront] at hd
    rcases List.mem_append.mp hd with hd | hd
    · exact hpairwise.2.2 d hd c List.mem_cons_self
    · rw [List.mem_singleton.mp hd]

/-! ## Past a crossing -/

/-- The last border place of a line that is not beyond a location of the line. -/
structure LastCrossing (s : Site K) (line : Segment K) (q x : Point2 K) : Prop where
  /-- The place is on the line. -/
  on_line : line.On x
  /-- The place is on a border. -/
  on_border : s.OnBorder x
  /-- The place is not beyond the location. -/
  le : line.project x ≤ line.project q
  /-- No border place between the two follows. -/
  last : ∀ y, line.On y → s.OnBorder y → line.project y ≤ line.project q →
    line.project y ≤ line.project x

/-- The location at which the ground ahead of another is looked up. -/
def stepPast (line : Segment K) (x : Point2 K) : Point2 K :=
  x + Coordinates.scale line.dir (aheadStep / Coordinates.norm line.dir)

/-- A location that is far enough behind another leaves room for the step between them. -/
theorem on_stepPast (hx : line.On x) (hq : line.On q) (hle : line.project x ≤ line.project q)
    (hfar : aheadStep ≤ x.dist q) :
    Coordinates.norm line.dir ≠ 0 ∧ line.On (stepPast line x) ∧
      line.project x < line.project (stepPast line x) ∧
      line.project (stepPast line x) ≤ line.project q := by
  have hstep : (0 : K) < aheadStep := Scalar.negPowTen_pos 6
  have hdist : x.dist q = (line.project q - line.project x) * Coordinates.norm line.dir := by
    rw [← line.dist_pointAt hle, line.pointAt_project hx, line.pointAt_project hq]
  have hnorm : Coordinates.norm line.dir ≠ 0 := by
    intro hzero
    rw [hdist, hzero, mul_zero] at hfar
    exact absurd hstep (not_lt.mpr hfar)
  have hpos : 0 < Coordinates.norm line.dir := lt_of_le_of_ne line.dir.norm_nonneg hnorm.symm
  -- The step is a share of the line, and the place past it has the projection `t`.
  set t := line.project x + aheadStep / Coordinates.norm line.dir with ht
  have hshare : aheadStep / Coordinates.norm line.dir ≤ line.project q - line.project x :=
    (div_le_iff₀ hpos).mpr (hdist ▸ hfar)
  have hlow : line.project x < t := lt_add_of_pos_right _ (div_pos hstep hpos)
  have hhigh : t ≤ line.project q := by linarith
  have hplace : (line.pointAt t).plan = stepPast line x := by
    have hx' := Point2.ext_iff.mp (line.pointAt_project hx)
    simp only [Point3.plan_x, Point3.plan_y, Segment.pointAt_x, Segment.pointAt_y] at hx'
    ext
    · have hgoal : line.p0.x + (line.p1.x - line.p0.x) * t =
          x.x + (line.p1.x - line.p0.x) * (aheadStep / Coordinates.norm line.dir) := by
        rw [← hx'.1, ht]
        ring
      exact hgoal
    · have hgoal : line.p0.y + (line.p1.y - line.p0.y) * t =
          x.y + (line.p1.y - line.p0.y) * (aheadStep / Coordinates.norm line.dir) := by
        rw [← hx'.2, ht]
        ring
      exact hgoal
  have hlength : line.sqLength ≠ 0 := fun hzero => hnorm (Point2.norm_eq_zero.mpr hzero)
  have hproject : line.project (stepPast line x) = t := by
    rw [← hplace, line.project_pointAt hlength]
  rw [hproject]
  refine ⟨hnorm, hplace ▸ line.on_pointAt ?_ ?_, hlow, hhigh⟩
  · exact (line.project_mem hx).1.trans hlow.le
  · exact hhigh.trans (line.project_mem hq).2

/-! ## The ground along a line -/

/-- **Ground step function.** Let a line pass through no corner of a ground region, and let its
    source and a location of it be clear of all borders. If there is a last border place up to
    the location, let the location be a step past it at least, and the end of that step clear
    of all borders. Then the ground at the location is that of the last point of the profile,
    up to the location, that tells the ground. -/
theorem groundAt_eq_groundPointBefore (h : s.IsSealed) (source receiver : Point3 K) (g : K)
    (q : Point2 K) (hcorner : ∀ v ∈ s.borderCorners, ¬ (⟨source, receiver⟩ : Segment K).On v)
    (hq : (⟨source, receiver⟩ : Segment K).On q) (hsource : s.ClearOfBorders source.plan)
    (hclear : s.ClearOfBorders q)
    (hpast : ∀ x, s.LastCrossing ⟨source, receiver⟩ q x →
      aheadStep ≤ x.dist q ∧ s.ClearOfBorders (stepPast ⟨source, receiver⟩ x)) :
    ((s.profile source receiver g).groundPointBefore? ⟨source, receiver⟩ q).map (·.ground) =
      some (s.groundAt q g) := by
  set line : Segment K := ⟨source, receiver⟩
  have hmet : ∀ y, line.On y → s.OnBorder y → line.project y ≤ line.project q →
      ∃ d, (d ∈ (s.profile source receiver g).points ∧ d.kind = .ground ∧
        line.project d.position.plan ≤ line.project q) ∧ d.position.plan = y := by
    intro y hy hborder hle
    obtain ⟨d, hd, hkind, rfl⟩ :=
      h.exists_ground_point hcorner hsource.not_onBorder hy hborder g
    exact ⟨d, ⟨hd, hkind, hle⟩, rfl⟩
  rcases groundPointBefore?_cases (s := s) (g := g) hq with
    ⟨heq, hnone⟩ | ⟨c, heq, ⟨hc, hkind, hle⟩, hgreatest⟩
  · -- No border between the source and the location.
    rw [heq, Option.map_some, Option.some.injEq]
    refine h.groundAt_eq hsource hclear (fun y hy hborder => ?_) g
    obtain ⟨hyline, _, hyq⟩ := line.on_of_on_flat line.on_p0 hq (line.project_p0_le hq) hy
    obtain ⟨d, hd, _⟩ := hmet y hyline hborder hyq
    exact hnone d hd
  · -- No border between the step past the last crossing and the location: one there would
    -- have a point of the profile beyond the last.
    have hx : line.On c.position.plan := s.on_of_mem_profile hc
    obtain ⟨hborder, hground⟩ := h.ground_of_mem_profile hc hkind
    have hlast : s.LastCrossing line q c.position.plan :=
      ⟨hx, hborder, hle, fun y hy hyborder hyq => by
        obtain ⟨d, hd, rfl⟩ := hmet y hy hyborder hyq
        exact hgreatest d hd⟩
    obtain ⟨hfar, hpastclear⟩ := hpast _ hlast
    obtain ⟨hnorm, hon, hlow, hhigh⟩ := on_stepPast hx hq hle hfar
    have hahead : s.groundAhead line g c.position.plan =
        s.groundAt (stepPast line c.position.plan) g := by
      simp [groundAhead, stepPast, hnorm]
    rw [heq, Option.map_some, Option.some.injEq, hground, hahead]
    refine h.groundAt_eq hpastclear hclear (fun y hy hyborder => ?_) g
    obtain ⟨hyline, hylow, hyq⟩ := line.on_of_on_flat hon hq hhigh hy
    exact absurd (hlast.last y hyline hyborder hyq) (not_le.mpr (hlow.trans_le hylow))

end

/-! ## The ground in the middle of a square -/

/-- A location on the line is clear of the square if it is away from its near side. -/
theorem clearOfBorders_square {p : Point2 ℝ} (hy : p.y = 0) (hx : p.x ≤ 3)
    (haway : 1 / 10 ^ 7 ≤ |p.x - 1|) : squareSite.ClearOfBorders p := by
  intro y hborder
  have htolerance : (Ring.boundaryTolerance : ℝ) = 1 / 10 ^ 9 := by
    norm_num [Ring.boundaryTolerance, Scalar.negPowTen]
  obtain ⟨hdx, hdy⟩ := Point2.abs_sub_le_dist p y
  rw [htolerance]
  rcases (onBorder_square hborder).2 with h | h | h | h
  · rw [h] at hdx
    norm_num at haway ⊢
    linarith
  · rw [h, abs_sub_comm] at hdx
    norm_num
    linarith [le_abs_self (5 - p.x)]
  · rw [h, hy] at hdy
    norm_num at hdy ⊢
    linarith
  · rw [h, hy] at hdy
    norm_num at hdy ⊢
    linarith

/-- In the middle of the square the profile tells the ground of the site. -/
theorem groundAt_eq_groundPointBefore_square :
    squareSite.IsSealed ∧ ((squareSite.profile intoSquare.p0 intoSquare.p1 0).groundPointBefore?
      intoSquare intoSquare.p1.plan).map (·.ground) =
        some (squareSite.groundAt intoSquare.p1.plan 0) := by
  have hsealed : squareSite.IsSealed := ⟨_, _, none, rfl⟩
  refine ⟨hsealed, groundAt_eq_groundPointBefore hsealed intoSquare.p0 intoSquare.p1 0
    intoSquare.p1.plan corner_off_intoSquare intoSquare.on_p1 ?_ ?_ fun x hx => ?_⟩
  · exact clearOfBorders_square rfl (by norm_num [intoSquare]) (by norm_num [intoSquare])
  · exact clearOfBorders_square rfl (by norm_num [intoSquare]) (by norm_num [intoSquare])
  · -- The last crossing is in the middle of the near side.
    obtain ⟨_, hx3, hy⟩ := on_intoSquare hx.on_line
    have hone : x.x = 1 := by
      rcases (onBorder_square hx.on_border).2 with h | h | h | h
      · exact h
      all_goals linarith
    have hnorm : Coordinates.norm intoSquare.dir = 3 := by
      refine Point2.norm_eq_of_mul_self (by norm_num) ?_
      norm_num [Point2.normSq, intoSquare]
    have hstep : (aheadStep : ℝ) = 1 / 10 ^ 6 := by norm_num [aheadStep, Scalar.negPowTen]
    have hpast : stepPast intoSquare x = ⟨1 + 1 / 10 ^ 6, 0⟩ := by
      ext
      · have hgoal : x.x + (3 - 0) * (aheadStep / Coordinates.norm intoSquare.dir) =
            1 + 1 / 10 ^ 6 := by
          rw [hone, hnorm, hstep]
          ring
        exact hgoal
      · have hgoal : x.y + (0 - 0) * (aheadStep / Coordinates.norm intoSquare.dir) = 0 := by
          rw [hy]
          ring
        exact hgoal
    constructor
    · have hfar := (Point2.abs_sub_le_dist x intoSquare.p1.plan).1
      have hthree : intoSquare.p1.plan.x = 3 := rfl
      rw [hone, hthree] at hfar
      rw [hstep]
      norm_num at hfar ⊢
      linarith
    · have haway : squareSite.ClearOfBorders ⟨1 + 1 / 10 ^ 6, 0⟩ :=
        clearOfBorders_square rfl (by norm_num) (by norm_num)
      exact hpast ▸ haway

end Site

end SiteSection
