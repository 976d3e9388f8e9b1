import SiteSection.Proofs.Section.Pairs
import SiteSection.Proofs.Section.Scan

/-! # What a profile keeps

  A profile is made of what was collected along the line and of the feet of buildings, and of
  nothing else. No pass over it drops a building point, or the last point of a kind at a
  location. So whether a profile has a building or a wall is decided when its points are
  collected: by what the line meets.
-/

namespace SiteSection

namespace Site

open SectionPoint

/-! ## What is between the ends -/

section
variable {α : Type} [Scalar α] (s : Site α) (line : Segment α) (g : α)

theorem sortAlong_perm (points : List (SectionPoint α)) : (sortAlong line points).Perm points :=
  List.mergeSort_perm points _

/-- The building points of the interior are the crossings of sides and their feet. -/
theorem filter_building_interior_perm :
    ((s.interior line g).filter isBuilding).Perm ((s.collected line g).filter isBuilding ++
      feet s.footOf ((sortAlong line (s.collected line g)).filter isBuilding)) := by
  have hsorted := (sortAlong_perm line (s.collected line g)).filter isBuilding
  unfold interior
  exact (filter_building_frame_perm s.footOf_kind _).trans (hsorted.append_right _)

/-- The other points of the interior are the other collected ones. -/
theorem filter_notBuilding_interior_perm :
    ((s.interior line g).filter notBuilding).Perm ((s.collected line g).filter notBuilding) := by
  have hother : ∀ c : SectionPoint α, notBuilding c = true → c.isBuilding = false := by
    intro c hc
    simpa [notBuilding] using hc
  unfold interior frame
  rw [filter_frameAfter hother s.footOf_kind]
  exact (sortAlong_perm line (s.collected line g)).filter notBuilding

/-- Every collected point is in the interior. -/
theorem mem_interior_of_mem_collected {c : SectionPoint α} (h : c ∈ s.collected line g) :
    c ∈ s.interior line g :=
  mem_frameAfter_of_mem s.footOf (List.mem_mergeSort.mpr h)

/-- Every place of the interior has a point between the ends of the profile. -/
theorem keepsPlace_inner [PartialEquivBEq α] {source receiver : Point3 α}
    {inner : List (SectionPoint α)} {c : SectionPoint α}
    (hinner : (s.profile source receiver g).points =
      s.sourcePoint source g :: (inner ++ [s.receiverPoint receiver g]))
    (h : c ∈ s.interior ⟨source, receiver⟩ g) : KeepsPlace inner c := by
  have hsection : c ∈ s.sectionPoints ⟨source, receiver⟩ g :=
    List.mem_cons_of_mem _ (List.mem_append_left _ h)
  obtain ⟨hsource, hreceiver⟩ := s.kind_of_mem_interior h
  obtain ⟨c', hc', heq⟩ := s.keepsPlace_profile hsection
  have hkind : c'.kind = c.kind := by
    rcases heq with rfl | hplace
    · rfl
    · exact (samePlace_iff.mp hplace).1
  -- The ends are of other kinds.
  rw [hinner] at hc'
  rcases List.mem_cons.mp hc' with rfl | hc'
  · exact absurd hkind.symm hsource
  · rcases List.mem_append.mp hc' with hc' | hc'
    · exact ⟨c', hc', heq⟩
    · rw [List.mem_singleton.mp hc'] at hkind
      exact absurd hkind.symm hreceiver

/-- A building or wall point of a profile is a crossing, or the foot of one. -/
theorem exists_crossing_of_mem_profile {source receiver : Point3 α} {c : SectionPoint α}
    (h : c ∈ (s.profile source receiver g).points) (hk : c.kind = .building ∨ c.kind = .wall) :
    ∃ d ∈ s.crossings ⟨source, receiver⟩ g, d.kind = c.kind := by
  have hcollected : ∀ d ∈ s.collected ⟨source, receiver⟩ g, d.kind = c.kind →
      d ∈ s.crossings ⟨source, receiver⟩ g := by
    intro d hd hdk
    rcases s.mem_collected hd with ⟨p, rfl⟩ | hd
    · rw [← hdk] at hk
      rcases hk with hk | hk <;> cases hk
    · exact hd
  rcases s.mem_sectionPoints ((s.profile_sublist source receiver g).subset h) with
    rfl | rfl | h | ⟨b, hb, _, rfl⟩
  · rcases hk with hk | hk <;> cases hk
  · rcases hk with hk | hk <;> cases hk
  · exact ⟨c, hcollected c h rfl, rfl⟩
  · exact ⟨b, hcollected b hb rfl, rfl⟩

end

/-! ## What the line meets -/

section
variable {K : Type} [ExactCircular K] {s : Site K} {source receiver : Point3 K} {g : K}

/-- A profile has a building or wall point exactly if the line meets a boundary of that kind. -/
theorem IsSealed.exists_mem_profile_iff (h : s.IsSealed) {k : PointKind}
    (hk : k = .building ∨ k = .wall) :
    (∃ c ∈ (s.profile source receiver g).points, c.kind = k) ↔
      ∃ b ∈ s.boundaries, b.kind = k ∧ ¬ (⟨source, receiver⟩ : Segment K).Apart b.segment := by
  constructor
  · intro ⟨c, hc, hkind⟩
    subst hkind
    obtain ⟨d, hd, hdk⟩ := s.exists_crossing_of_mem_profile g hc hk
    rw [h.crossings_eq] at hd
    obtain ⟨b, hb, hbd⟩ := List.mem_filterMap.mp hd
    obtain ⟨⟨x, hx, _⟩, hdb, _⟩ := s.crossing?_spec hbd
    refine ⟨b, hb, hdb.symm.trans hdk, fun happart => ?_⟩
    exact happart _ (Segment.on_left_of_intersect? _ _ hx) (Segment.on_right_of_intersect? _ _ hx)
  · intro ⟨b, hb, hkind, hmeets⟩
    have hplace : ∃ y, (⟨source, receiver⟩ : Segment K).On y ∧ b.segment.On y := by
      by_contra hnone
      exact hmeets fun y hy hy' => hnone ⟨y, hy, hy'⟩
    obtain ⟨y, hy, hy'⟩ := hplace
    obtain ⟨x, hx⟩ := Segment.exists_intersect? _ _ hy hy'
    have hsome : (s.crossing? ⟨source, receiver⟩ g b).isSome = true := by
      refine (h.isSome_crossing?_iff hb _ g).mpr ⟨x, hx, fun hground => ?_⟩
      rw [hground.1] at hkind
      rcases hk with rfl | rfl <;> cases hkind
    obtain ⟨c, hc⟩ := Option.isSome_iff_exists.mp hsome
    obtain ⟨c', hc', hkind', _⟩ := exists_mem_profile_of_crossing (h.mem_crossings hb hc)
    exact ⟨c', hc', hkind'.trans ((s.crossing?_spec hc).2.1.trans hkind)⟩

/-- The boundaries of buildings are the sides of the buildings. -/
theorem IsSealed.exists_side_iff (h : s.IsSealed) (p : Segment K → Prop) :
    (∃ b ∈ s.boundaries, b.kind = .building ∧ p b.segment) ↔
      ∃ B ∈ s.buildings, ∃ e ∈ pathEdges B.footprint, p ⟨e.1, e.2⟩ := by
  rw [h.boundaries_eq]
  constructor
  · intro ⟨b, hb, hkind, hp⟩
    rcases List.mem_append.mp hb with hb | hb
    · rcases List.mem_append.mp hb with hb | hb
      · obtain ⟨⟨B, i⟩, hB, hside⟩ := List.mem_flatMap.mp hb
        obtain ⟨e, he, rfl⟩ := List.mem_map.mp hside
        exact ⟨B, List.fst_mem_of_mem_zipIdx hB, e, he, hp⟩
      · rw [h.kind_of_mem_walls b hb] at hkind
        cases hkind
    · rw [kind_of_mem_borders b hb] at hkind
      cases hkind
  · intro ⟨B, hB, e, he, hp⟩
    obtain ⟨i, hi⟩ := List.mem_iff_getElem?.mp hB
    have hside : (⟨e.1, e.2, true, true, .side i B.absorption⟩ : Boundary K) ∈ B.sides i :=
      List.mem_map.mpr ⟨e, he, rfl⟩
    exact ⟨_, List.mem_append_left _ (List.mem_append_left _ (List.mem_flatMap.mpr
      ⟨(B, i), List.mk_mem_zipIdx_iff_getElem?.mpr hi, hside⟩)), rfl, hp⟩

/-- The boundaries that are walls are the walls of the site. -/
theorem IsSealed.exists_wall_iff (h : s.IsSealed) (p : Segment K → Prop) :
    (∃ b ∈ s.boundaries, b.kind = .wall ∧ p b.segment) ↔ ∃ w ∈ s.walls, p w.segment := by
  rw [h.boundaries_eq]
  constructor
  · intro ⟨b, hb, hkind, hp⟩
    rcases List.mem_append.mp hb with hb | hb
    · rcases List.mem_append.mp hb with hb | hb
      · rw [kind_of_mem_sides b hb] at hkind
        cases hkind
      · exact ⟨b, hb, hp⟩
    · rw [kind_of_mem_borders b hb] at hkind
      cases hkind
  · intro ⟨w, hw, hp⟩
    exact ⟨w, List.mem_append_left _ (List.mem_append_right _ hw), h.kind_of_mem_walls w hw, hp⟩

/-- The field is free exactly if the line meets no side of a building and no wall. -/
theorem IsSealed.isFreeField_iff (h : s.IsSealed) (source receiver : Point3 K) (g : K) :
    (s.profile source receiver g).isFreeField = true ↔
      (∀ B ∈ s.buildings, ∀ e ∈ pathEdges B.footprint,
        (⟨source, receiver⟩ : Segment K).Apart ⟨e.1, e.2⟩) ∧
      ∀ w ∈ s.walls, (⟨source, receiver⟩ : Segment K).Apart w.segment := by
  have hfree : (s.profile source receiver g).isFreeField = true ↔
      (¬ ∃ c ∈ (s.profile source receiver g).points, c.kind = .building) ∧
      ¬ ∃ c ∈ (s.profile source receiver g).points, c.kind = .wall := by
    unfold Profile.isFreeField
    simp only [List.all_eq_true, Bool.and_eq_true, bne_iff_ne, ne_eq, not_exists, not_and,
      forall_and]
  have hside := h.exists_side_iff fun o => ¬ (⟨source, receiver⟩ : Segment K).Apart o
  have hwall := h.exists_wall_iff fun o => ¬ (⟨source, receiver⟩ : Segment K).Apart o
  rw [hfree, h.exists_mem_profile_iff (.inl rfl), h.exists_mem_profile_iff (.inr rfl), hside, hwall]
  simp only [not_exists, not_and, not_not]

end

/-! ## Nothing lost and nothing invented -/

/-- **Nothing lost, nothing invented.** Between the ends of a profile, in any arithmetic, the
    building points are the collected ones and the feet of the sections through buildings. The
    other points are collected ones, none of them twice. Every collected point is there, or
    another of its kind at its location.

    In exact arithmetic the field is free exactly if the line between source and receiver has no
    place in common with a side of a building or with a wall. -/
theorem profile_keeps :
    (∀ (α : Type) [Scalar α] [PartialEquivBEq α] (s : Site α) (source receiver : Point3 α) (g : α),
      let line : Segment α := ⟨source, receiver⟩
      ∃ inner : List (SectionPoint α),
        (s.profile source receiver g).points =
          s.sourcePoint source g :: (inner ++ [s.receiverPoint receiver g]) ∧
        (inner.filter isBuilding).Perm ((s.collected line g).filter isBuilding ++
          feet s.footOf ((sortAlong line (s.collected line g)).filter isBuilding)) ∧
        (inner.filter notBuilding).Subperm ((s.collected line g).filter notBuilding) ∧
        ∀ c ∈ s.collected line g, KeepsPlace inner c) ∧
    (∀ (K : Type) [ExactCircular K] (s : Site K), s.IsSealed →
      ∀ (source receiver : Point3 K) (g : K),
        let line : Segment K := ⟨source, receiver⟩
        (s.profile source receiver g).isFreeField = true ↔
          (∀ B ∈ s.buildings, ∀ e ∈ pathEdges B.footprint, line.Apart ⟨e.1, e.2⟩) ∧
          ∀ w ∈ s.walls, line.Apart w.segment) := by
  constructor
  · intro α _ _ s source receiver g line
    obtain ⟨inner, hinner, hpoints⟩ := s.profile_points source receiver g
    refine ⟨inner, hpoints, ?_, ?_, fun c hc =>
      s.keepsPlace_inner g hpoints (s.mem_interior_of_mem_collected line g hc)⟩
    · have hall : inner.filter isBuilding = (s.interior line g).filter isBuilding := by
        rw [← s.filter_building_profile source receiver g, hpoints]
        simp [List.filter_append, isBuilding, sourcePoint, receiverPoint]
      rw [hall]
      exact s.filter_building_interior_perm line g
    · exact (hinner.filter notBuilding).subperm.trans
        (s.filter_notBuilding_interior_perm line g).subperm
  · intro K _ s h source receiver g line
    exact h.isFreeField_iff source receiver g

/-- A side of the house is across the line. -/
theorem exists_side_lawnAndHouse : ∃ B ∈ lawnAndHouse.buildings,
    ∃ e ∈ pathEdges B.footprint, ¬ throughLawnAndHouse.Apart ⟨e.1, e.2⟩ := by
  have hsealed : lawnAndHouse.IsSealed := ⟨_, _, none, rfl⟩
  obtain ⟨B, hbuildings, hplan, _⟩ := exists_lawnAndHouse
  have hB : B ∈ lawnAndHouse.buildings := by simp [hbuildings]
  have hedge : ((⟨20, 10⟩, ⟨20, -10⟩) : Point2 ℝ × Point2 ℝ) ∈ B.plan.edges := by
    simp [hplan, Polygon.edges, ringEdges]
  rw [← hsealed.pathEdges_footprint hB] at hedge
  obtain ⟨e, he, hends⟩ := List.mem_map.mp hedge
  obtain ⟨h₀, h₁⟩ := Prod.mk.inj hends
  refine ⟨B, hB, e, he, fun happart => happart ⟨20, 0⟩ ?_ ?_⟩
  · refine ⟨1 / 2, by norm_num, by norm_num, ?_⟩
    ext <;> norm_num [throughLawnAndHouse]
  · have hflat : (Segment.flat ⟨20, 10⟩ ⟨20, -10⟩ : Segment ℝ).On ⟨20, 0⟩ := by
      refine ⟨1 / 2, by norm_num, by norm_num, ?_⟩
      ext <;> norm_num [Segment.flat, Point2.atZ]
    exact (Segment.on_congr h₀ h₁).mpr hflat

/-- Of the three walls that the line meets at one place, the third is dropped and the others tell
    of it. A line through a house has no free field. -/
theorem profile_keeps_walledHouse :
    (∃ inner : List (SectionPoint Float),
      (walledHouse.profile throughWalledHouse.p0 throughWalledHouse.p1 0.5).points =
        walledHouse.sourcePoint throughWalledHouse.p0 0.5 ::
          (inner ++ [walledHouse.receiverPoint throughWalledHouse.p1 0.5]) ∧
      inner = [onObstacle .building 0 30 0, onObstacle .building 0 30 3,
        onObstacle .building 0 20 3, onObstacle .building 0 20 0, onObstacle .wall 0 10 2,
        onObstacle .wall 1 10 2] ∧
      onObstacle .wall 2 10 2 ∈ walledHouse.collected throughWalledHouse 0.5 ∧
      KeepsPlace inner (onObstacle .wall 2 10 2)) ∧
    lawnAndHouse.IsSealed ∧
    (lawnAndHouse.profile throughLawnAndHouse.p0 throughLawnAndHouse.p1 0).isFreeField =
      false := by
  have hsealed : lawnAndHouse.IsSealed := ⟨_, _, none, rfl⟩
  obtain ⟨inner, hpoints, -, -, hkeeps⟩ :=
    profile_keeps.1 Float walledHouse throughWalledHouse.p0 throughWalledHouse.p1 0.5
  have hthird : onObstacle .wall 2 10 2 ∈ walledHouse.collected throughWalledHouse 0.5 := by
    rw [collected_walledHouse]
    simp
  refine ⟨⟨inner, hpoints, ?_, hthird, hkeeps _ hthird⟩, hsealed, ?_⟩
  · rw [← inner_walledHouse, hpoints, List.tail_cons, List.dropLast_concat]
  · obtain ⟨B, hB, e, he, hmeets⟩ := exists_side_lawnAndHouse
    rw [Bool.eq_false_iff]
    intro hfree
    exact hmeets (((profile_keeps.2 ℝ lawnAndHouse hsealed throughLawnAndHouse.p0
      throughLawnAndHouse.p1 0).mp hfree).1 B hB e he)

end Site

end SiteSection
