import SiteSection.Proofs.Section.Feet
import SiteSection.Proofs.Section.Locality
import SiteSection.Proofs.Site.Reordered

/-! # Profiles of renumbered buildings

  Buildings can be added in any order, and get other numbers. In exact arithmetic a line then
  meets the same points with other owners, and all that is not of a building comes to the same
  profile. The feet need not: where sides of two buildings meet, the crossings are in the order
  of the numbers, and the blocks of one owner may be cut in another way.

  So two profiles agree up to the numbers exactly if their feet do, and they do wherever no
  sides of two buildings meet on the line.
-/

namespace SiteSection

namespace SectionPoint

variable {α : Type} {σ : Nat → Nat}

/-- A point with the new number of its building. -/
def renumber (σ : Nat → Nat) (c : SectionPoint α) : SectionPoint α :=
  if c.isBuilding then { c with owner := c.owner.map σ } else c

theorem renumber_of_building {c : SectionPoint α} (h : c.isBuilding = true) :
    c.renumber σ = { c with owner := c.owner.map σ } := if_pos h

theorem renumber_of_notBuilding {c : SectionPoint α} (h : notBuilding c = true) :
    c.renumber σ = c := by
  have hc : ¬ c.isBuilding = true := by simpa [notBuilding] using h
  exact if_neg hc

@[simp] theorem renumber_spot (c : SectionPoint α) : (c.renumber σ).spot = c.spot := by
  unfold renumber
  split <;> rfl

@[simp] theorem renumber_isBuilding (c : SectionPoint α) :
    (c.renumber σ).isBuilding = c.isBuilding := by
  unfold renumber
  split <;> rfl

end SectionPoint

namespace Site

open SectionPoint

variable {K : Type} [ExactCircular K] {s s' : Site K} {line : Segment K} {g : K}
  {σ : Nat → Nat}

/-! ## The same surroundings -/

theorem SameSurroundings.sameGround {α : Type} {s s' : Site α} (h : s.SameSurroundings s') :
    s.SameGround s' where
  terrain := h.terrain
  regions := h.regions
  regionIndex := h.regionIndex
  terrainTolerance := congrArg Settings.terrainTolerance h.settings
  crossingTolerance := congrArg Settings.crossingTolerance h.settings
  policy := congrArg Settings.policy h.settings

/-! ## Crossings -/

/-- The crossings of the sides of buildings, and those of walls and borders. -/
theorem IsSealed.filter_crossings (h : s.IsSealed) (line : Segment K) (g : K) :
    (s.crossings line g).filter isBuilding =
        (s.buildings.zipIdx.flatMap fun (b, i) => b.sides i).filterMap (s.crossing? line g) ∧
      (s.crossings line g).filter notBuilding =
        (s.walls ++ s.regions.zipIdx.flatMap fun (r, i) => r.border i).filterMap
          (s.crossing? line g) := by
  have hsides : ∀ c ∈ (s.buildings.zipIdx.flatMap fun (b, i) => b.sides i).filterMap
      (s.crossing? line g), c.isBuilding = true := by
    intro c hc
    obtain ⟨b, hb, hcrossing⟩ := List.mem_filterMap.mp hc
    have hkind : c.kind = .building :=
      (s.crossing?_spec hcrossing).2.1.trans (kind_of_mem_sides b hb)
    simp [isBuilding, hkind]
  have hothers : ∀ c ∈ (s.walls ++ s.regions.zipIdx.flatMap fun (r, i) => r.border i).filterMap
      (s.crossing? line g), notBuilding c = true := by
    intro c hc
    obtain ⟨b, hb, hcrossing⟩ := List.mem_filterMap.mp hc
    have hkind : c.kind = b.kind := (s.crossing?_spec hcrossing).2.1
    rcases List.mem_append.mp hb with hb | hb
    · simp [notBuilding, isBuilding, hkind, h.kind_of_mem_walls b hb]
    · simp [notBuilding, isBuilding, hkind, kind_of_mem_borders b hb]
  rw [h.crossings_eq, h.boundaries_eq, List.append_assoc, List.filterMap_append,
    List.filter_append, List.filter_append]
  constructor
  · have hnone : ((s.walls ++ s.regions.zipIdx.flatMap fun (r, i) => r.border i).filterMap
        (s.crossing? line g)).filter isBuilding = [] := by
      apply List.filter_eq_nil_iff.mpr
      intro c hc
      simpa [notBuilding] using hothers c hc
    rw [List.filter_eq_self.mpr hsides, hnone, List.append_nil]
  · rw [filter_notBuilding_of_building hsides, List.filter_eq_self.mpr hothers, List.nil_append]

/-- Renumbered buildings have the same crossings under their new numbers. -/
theorem building_crossings_perm (hs : s.IsSealed) (hs' : s'.IsSealed) (h : s.SameSurroundings s')
    (hσ : Renumbers σ s.buildings s'.buildings) (line : Segment K) (g : K) :
    ((s'.crossings line g).filter isBuilding).Perm
      (((s.crossings line g).filter isBuilding).map (renumber σ)) := by
  have hside : ∀ (b : Building K) (i : Nat) (e : Point3 K × Point3 K),
      s.crossing? line g ⟨e.1, e.2, true, true, .side (σ i) b.absorption⟩ =
        (s.crossing? line g ⟨e.1, e.2, true, true, .side i b.absorption⟩).map (renumber σ) := by
    intro b i e
    rw [s.crossing?_of_side line g rfl, s.crossing?_of_side line g rfl, Option.map_map]
    rfl
  rw [(hs.filter_crossings line g).1, (hs'.filter_crossings line g).1, h.sameGround.crossing?_eq]
  have hperm : (s'.buildings.zipIdx.flatMap fun (b, i) => b.sides i).Perm
      ((s.buildings.zipIdx.map fun e => (e.1, σ e.2)).flatMap fun (b, i) => b.sides i) :=
    hσ.zipIdx_perm.symm.flatMap_right _
  refine (hperm.filterMap _).trans (.of_eq ?_)
  rw [List.flatMap_map, List.filterMap_flatMap, List.filterMap_flatMap, List.map_flatMap]
  congr 1
  funext ⟨b, i⟩
  simp only [Building.sides, List.filterMap_map, List.map_filterMap]
  apply List.filterMap_congr
  intro e _
  exact hside b i e

/-- The crossings of sides are met under the new numbers. -/
theorem sidesMet_perm_renumber (hs : s.IsSealed) (hs' : s'.IsSealed)
    (h : s.SameSurroundings s') (hσ : Renumbers σ s.buildings s'.buildings)
    (line : Segment K) (g : K) :
    (s'.sidesMet line g).Perm ((s.sidesMet line g).map (renumber σ)) :=
  (s'.sidesMet_perm line g).trans ((building_crossings_perm hs hs' h hσ line g).trans
    ((s.sidesMet_perm line g).map _).symm)

/-- What is collected of other things is the same. -/
theorem notBuilding_collected_eq (hs : s.IsSealed) (hs' : s'.IsSealed)
    (h : s.SameSurroundings s') (line : Segment K) (g : K) :
    (s'.collected line g).filter notBuilding = (s.collected line g).filter notBuilding := by
  rw [collected, collected, List.filter_append, List.filter_append,
    (hs.filter_crossings line g).2, (hs'.filter_crossings line g).2, h.sameGround.crossing?_eq,
    h.walls, h.regions, h.sameGround.terrainPoints_eq]

/-- Between the ends of a section there is the same that is not of a building, in the same
    order. -/
theorem notBuilding_interior_eq (hs : s.IsSealed) (hs' : s'.IsSealed)
    (h : s.SameSurroundings s') (line : Segment K) (g : K) :
    (s'.interior line g).filter notBuilding = (s.interior line g).filter notBuilding := by
  have harranged : ∀ {r : Site K}, r.IsSealed →
      Arranged line ((r.interior line g).filter notBuilding) := by
    intro r hr
    have hsub : ((r.interior line g).filter notBuilding).Sublist (r.sectionPoints line g) :=
      (List.filter_sublist.trans (List.sublist_append_left _ _)).trans (List.sublist_cons_self _ _)
    exact (hr.arranged_sectionPoints line g).sublist hsub
  apply (harranged hs').eq_of_filter_spot (harranged hs)
  intro m
  -- At a spot the points are those that were collected.
  have hcollected : ∀ r : Site K,
      ((r.interior line g).filter notBuilding).filter (fun c => c.spot = m) =
        ((r.collected line g).filter notBuilding).filter fun c => c.spot = m := by
    intro r
    rw [List.filter_filter, List.filter_filter]
    apply filter_interior
    · intro c hc
      simpa [notBuilding] using (Bool.and_eq_true_iff.mp hc).2
    · intro a b ha hb
      have hspot : a.spot = b.spot := by
        rw [Bool.and_eq_true, decide_eq_true_eq] at ha hb
        exact ha.1.trans hb.1.symm
      exact congrArg Prod.snd hspot
  rw [hcollected, hcollected, notBuilding_collected_eq hs hs' h]

/-! ## Profiles -/

section
variable (source receiver : Point3 K) (g : K)

/-- Renumbered buildings leave the points of a profile that are not of buildings as they are. -/
theorem notBuilding_profile_eq (hs : s.IsSealed) (hs' : s'.IsSealed)
    (h : s.SameSurroundings s') :
    (s'.profile source receiver g).points.filter notBuilding =
      (s.profile source receiver g).points.filter notBuilding := by
  have hsection : (s'.sectionPoints ⟨source, receiver⟩ g).filter notBuilding =
      (s.sectionPoints ⟨source, receiver⟩ g).filter notBuilding := by
    rw [sectionPoints, sectionPoints, List.filter_cons, List.filter_cons, List.filter_append,
      List.filter_append, notBuilding_interior_eq hs hs' h, h.sameGround.groundAt_eq]
  rw [hs.filter_notBuilding_profile, hs'.filter_notBuilding_profile, hsection, h.settings,
    h.sameGround.groundAhead_eq]

/-- The points of a profile: crossings of sides and their feet, and the others. -/
theorem profile_perm (s : Site K) (source receiver : Point3 K) (g : K) :
    (s.profile source receiver g).points.Perm
      ((s.sidesMet ⟨source, receiver⟩ g ++ s.framing ⟨source, receiver⟩ g) ++
        (s.profile source receiver g).points.filter notBuilding) := by
  have hsplit := (List.filter_append_perm isBuilding (s.profile source receiver g).points).symm
  rw [s.filter_building_profile] at hsplit
  exact hsplit.trans ((s.filter_building_interior _ g).append_right _)

/-- Two profiles agree up to the numbers of buildings exactly if their feet do. -/
theorem profile_perm_iff (hs : s.IsSealed) (hs' : s'.IsSealed) (h : s.SameSurroundings s')
    (hσ : Renumbers σ s.buildings s'.buildings) :
    (s'.profile source receiver g).points.Perm
        ((s.profile source receiver g).points.map (renumber σ)) ↔
      (s'.framing ⟨source, receiver⟩ g).Perm
        ((s.framing ⟨source, receiver⟩ g).map (renumber σ)) := by
  have hothers : ((s.profile source receiver g).points.filter notBuilding).map (renumber σ) =
      (s'.profile source receiver g).points.filter notBuilding := by
    rw [notBuilding_profile_eq source receiver g hs hs' h]
    refine (List.map_congr_left fun c hc => ?_).trans (List.map_id _)
    exact renumber_of_notBuilding (List.mem_filter.mp hc).2
  have hsides : (s'.sidesMet ⟨source, receiver⟩ g).Perm
      ((s.sidesMet ⟨source, receiver⟩ g).map (renumber σ)) :=
    sidesMet_perm_renumber hs hs' h hσ ⟨source, receiver⟩ g
  have hpoints := (s.profile_perm source receiver g).map (renumber σ)
  rw [List.map_append, List.map_append, hothers] at hpoints
  have hpoints' := s'.profile_perm source receiver g
  constructor
  · intro hperm
    have hall := (hpoints'.symm.trans hperm).trans hpoints
    have hbuilding := (List.perm_append_right_iff _).mp hall
    exact (List.perm_append_left_iff _).mp ((hsides.symm.append_right _).trans hbuilding)
  · intro hfeet
    exact (hpoints'.trans ((hsides.append hfeet).append_right _)).trans hpoints.symm

/-- Where no sides of two buildings meet on the line, the feet that the crossings would have are
    the same under their new numbers: they are in order along the line, one at a spot. -/
theorem map_footOf_sidesMet (hs : s.IsSealed) (hs' : s'.IsSealed) (h : s.SameSurroundings s')
    (hσ : Renumbers σ s.buildings s'.buildings) {line : Segment K}
    (hapart : s.BuildingsApart line) :
    (s'.sidesMet line g).map s'.footOf =
      ((s.sidesMet line g).map s.footOf).map (renumber σ) := by
  have hfoot : ∀ c ∈ s.sidesMet line g,
      (s'.footOf ∘ renumber σ) c = (renumber σ ∘ s.footOf) c := by
    intro c hc
    have hcb : c.isBuilding = true := (s.mem_crossings_of_mem_sidesMet line g hc).2
    have hfb : (s.footOf c).isBuilding = true := hcb
    rw [Function.comp, Function.comp, renumber_of_building hcb, renumber_of_building hfb,
      h.sameGround.footOf_eq]
    rfl
  have hperm : ((s'.sidesMet line g).map s'.footOf).Perm
      (((s.sidesMet line g).map s.footOf).map (renumber σ)) := by
    have hmap := (sidesMet_perm_renumber hs hs' h hσ line g).map s'.footOf
    rwa [List.map_map, List.map_congr_left hfoot, ← List.map_map] at hmap
  have hfootSpot : ∀ (r : Site K) (c : SectionPoint K), (r.footOf c).spot = c.spot :=
    fun _ _ => rfl
  have hleft : Arranged line ((s'.sidesMet line g).map s'.footOf) := by
    rw [Arranged, List.pairwise_map]
    exact hs'.arranged_sidesMet line g
  have hright : Arranged line (((s.sidesMet line g).map s.footOf).map (renumber σ)) := by
    have hmet : (s.sidesMet line g).Pairwise fun a b => line.InOrder a.spot b.spot :=
      hs.arranged_sidesMet line g
    rw [Arranged, List.pairwise_map, List.pairwise_map]
    simpa [hfootSpot] using hmet
  apply List.Perm.eq_of_pairwise _ hleft hright hperm
  intro a b ha hb hab hba
  obtain ⟨a', ha', rfl⟩ := List.mem_map.mp (hperm.subset ha)
  obtain ⟨b', hb', rfl⟩ := List.mem_map.mp hb
  obtain ⟨c, hc, rfl⟩ := List.mem_map.mp ha'
  obtain ⟨d, hd, rfl⟩ := List.mem_map.mp hb'
  have hspot : (s.footOf c).spot = (s.footOf d).spot := by
    have h := hab.antisymm hba
    rwa [renumber_spot, renumber_spot] at h
  have hplan : c.position.plan = d.position.plan := congrArg Prod.snd hspot
  rw [hs.footOf_eq_of_apart hapart hc hd hplan]

/-- Where no sides of two buildings meet on the line, renumbered buildings have the same feet
    under their new numbers. -/
theorem framing_renumber (hs : s.IsSealed) (hs' : s'.IsSealed) (h : s.SameSurroundings s')
    (hσ : Renumbers σ s.buildings s'.buildings) {line : Segment K}
    (hapart : s.BuildingsApart line) :
    s'.framing line g = (s.framing line g).map (renumber σ) := by
  have hbuilding : ∀ a ∈ (s.sidesMet line g).map s.footOf, a.isBuilding = true ∧
      ∃ i < s.buildings.length, a.owner = some i := by
    intro a ha
    obtain ⟨c, hc, rfl⟩ := List.mem_map.mp ha
    obtain ⟨hc, hcb⟩ := s.mem_crossings_of_mem_sidesMet line g hc
    obtain ⟨_, _, i, B, _, _, hB, _, _, howner, _⟩ := hs.footOf_crossing hc hcb
    exact ⟨hcb, i, (List.getElem?_eq_some_iff.mp hB).1, howner⟩
  -- New numbers keep owners apart and together.
  have howner : ∀ a ∈ (s.sidesMet line g).map s.footOf,
      ∀ b ∈ (s.sidesMet line g).map s.footOf,
        (renumber σ a).owner = (renumber σ b).owner ↔ a.owner = b.owner := by
    intro a ha b hb
    obtain ⟨hab, i, hi, hai⟩ := hbuilding a ha
    obtain ⟨hbb, j, hj, hbj⟩ := hbuilding b hb
    rw [renumber_of_building hab, renumber_of_building hbb]
    simp only [hai, hbj, Option.map_some, Option.some.injEq]
    exact ⟨hσ.injOn i hi j hj, fun hij => by rw [hij]⟩
  rw [framing_eq, framing_eq, map_footOf_sidesMet g hs hs' h hσ hapart, feet_map howner, feet, feet,
    Function.id_comp, List.map_id]

end

/-- **Buildings in another order.** Two drafts are fed the same, except that the buildings come
    in two orders, and buildings are not ground as well. If one of them is sealed, the other is,
    and the numbers of its buildings are new ones. Every two profiles then have the same points
    that are not of buildings, in the same order, and the same crossings of sides under the new
    numbers. They are the same up to the numbers exactly if the feet are, and the feet are
    where no sides of two buildings meet on the line. -/
theorem profile_reordered [Triangulates K] {settings : Settings K}
    (hground : settings.buildingGround = none) {calls calls' : List (Draft.Call K)}
    (hothers : calls.filter (fun c => !c.isBuilding) = calls'.filter fun c => !c.isBuilding)
    (hbuildings : (calls.filter fun c => c.isBuilding).Perm
      (calls'.filter fun c => c.isBuilding)) {strict : Bool}
    (hs : (((Draft.empty settings).afterAll calls).build strict).result = .ok s) :
    ∃ s', (((Draft.empty settings).afterAll calls').build strict).result = .ok s' ∧
      (∃ σ, Renumbers σ s.buildings s'.buildings) ∧
      ∀ σ, Renumbers σ s.buildings s'.buildings → ∀ (source receiver : Point3 K) (g : K),
        let line : Segment K := ⟨source, receiver⟩
        let points := (s.profile source receiver g).points
        let points' := (s'.profile source receiver g).points
        points'.filter notBuilding = points.filter notBuilding ∧
        (s'.sidesMet line g).Perm ((s.sidesMet line g).map (renumber σ)) ∧
        (points'.Perm (points.map (renumber σ)) ↔
          (s'.framing line g).Perm ((s.framing line g).map (renumber σ))) ∧
        (s.BuildingsApart line → points'.Perm (points.map (renumber σ))) := by
  obtain ⟨s', hs', hsame, hσ⟩ := Draft.exists_build_of_reordered hground hothers hbuildings hs
  have hsealed : s.IsSealed := Draft.isSealed_of_build settings calls hs
  have hsealed' : s'.IsSealed := Draft.isSealed_of_build settings calls' hs'
  refine ⟨s', hs', hσ, fun σ hσ source receiver g => ?_⟩
  have hiff := profile_perm_iff source receiver g hsealed hsealed' hsame hσ
  refine ⟨notBuilding_profile_eq source receiver g hsealed hsealed' hsame,
    sidesMet_perm_renumber hsealed hsealed' hsame hσ _ g, hiff, fun hapart => hiff.mpr ?_⟩
  rw [framing_renumber g hsealed hsealed' hsame hσ hapart]

/-! ## Two houses side by side -/

/-- Exact scalars are their own exact values. -/
instance exact : Exact K K := ⟨id⟩

/-- A house on a rectangle. -/
def house (x x' : ℝ) (height : ℝ) (name : Int) : Draft.Call ℝ :=
  .building [⟨x, -10, 0⟩, ⟨x', -10, 0⟩, ⟨x', 10, 0⟩, ⟨x, 10, 0⟩] height [] name

theorem exists_house_plan {x x' height : ℝ} (hx : x < x') (hheight : 0 ≤ height) (name : Int) :
    ∃ b, (house x x' height name).building? = some b ∧
      b.plan = ⟨[⟨x, -10⟩, ⟨x', -10⟩, ⟨x', 10⟩, ⟨x, 10⟩]⟩ := by
  have hy : (-10 : ℝ) ≠ 10 := by norm_num
  simp [house, Draft.Call.building?, Building.ofFootprint?, dropRepeats, dropRepeats.go,
    Polygon.ofRing?, Polygon.openRing, Point3.samePlan, Point3.plan, Except.toOption,
    Point2.hasNaN_eq_false, hx.ne, hx.ne', hy, hy.symm, hheight.not_gt]

theorem exists_building_house {x x' height : ℝ} (hx : x < x') (hheight : 0 ≤ height)
    (name : Int) : ∃ b, (house x x' height name).building? = some b := by
  obtain ⟨b, hb, _⟩ := exists_house_plan hx hheight name
  exact ⟨b, hb⟩

/-- Two houses that share a side, in one order and the other. -/
theorem profile_reordered_houses :
    ∃ s s' : Site ℝ, s.buildings.length = 2 ∧ s'.buildings.length = 2 ∧
      (((Draft.empty Settings.default).afterAll
        [house 20 30 5 1, house 30 45 9 2]).build true).result = .ok s ∧
      (((Draft.empty Settings.default).afterAll
        [house 30 45 9 2, house 20 30 5 1]).build true).result = .ok s' ∧
      ∀ (source receiver : Point3 ℝ) (g : ℝ),
        (s'.profile source receiver g).points.filter notBuilding =
          (s.profile source receiver g).points.filter notBuilding := by
  have hground : (Settings.default : Settings ℝ).buildingGround = none := rfl
  have hothers : [house 20 30 5 1, house 30 45 9 2].filter (fun c => !c.isBuilding) =
      [house 30 45 9 2, house 20 30 5 1].filter fun c => !c.isBuilding := rfl
  have hbuildings : ([house 20 30 5 1, house 30 45 9 2].filter fun c => c.isBuilding).Perm
      ([house 30 45 9 2, house 20 30 5 1].filter fun c => c.isBuilding) := List.Perm.swap _ _ []
  obtain ⟨west, hwest⟩ := exists_building_house (by norm_num : (20 : ℝ) < 30)
    (by norm_num : (0 : ℝ) ≤ 5) 1
  obtain ⟨east, heast⟩ := exists_building_house (by norm_num : (30 : ℝ) < 45)
    (by norm_num : (0 : ℝ) ≤ 9) 2
  -- There is no topography, so the sealing goes through.
  set d := (Draft.empty (Settings.default : Settings ℝ)).afterAll
    [house 20 30 5 1, house 30 45 9 2] with hd
  have hdraft : d = { Draft.empty Settings.default with buildings := [west, east] } := by
    rw [hd, Draft.afterAll_eq hground, List.filterMap_cons_some hwest,
      List.filterMap_cons_some heast]
    rfl
  have hs : (d.build true).result = .ok (d.siteOver none) := by
    apply Draft.build_of_flat
    rw [hdraft]
    exact Nat.zero_lt_two
  have htwo : (d.siteOver none).buildings.length = 2 := by
    rw [hdraft]
    rfl
  obtain ⟨s', hs', ⟨σ, hσ⟩, hprofiles⟩ := profile_reordered hground hothers hbuildings hs
  exact ⟨_, s', htwo, hσ.length_eq.trans htwo, hs, hs', fun source receiver g =>
    (hprofiles σ hσ source receiver g).1⟩

end Site

end SiteSection
