import SiteSection.Proofs.Plan.Parity
import SiteSection.Proofs.Section.Blocks
import SiteSection.Proofs.Section.GroundSteps
import SiteSection.Proofs.Section.Renumbering

/-! # Crossings in pairs

  A line that traverses the plan of a building enters the building as often as it leaves it,
  so the profile has an even number of crossings of its sides. The same goes for the border of
  a polygon of a ground region. The sides of a building are over the edges of its plan, and
  the border of a polygon is made of its edges; every edge is filed once, the closing one
  included, and gives a crossing if the line meets it.
-/

namespace SiteSection

/-- In a numbered list an element is found once under its number. -/
theorem exists_zipIdx_eq {ι : Type} {l : List ι} {i : Nat} {a : ι} (h : l[i]? = some a) :
    ∃ before after, l.zipIdx = before ++ (a, i) :: after ∧ ∀ e ∈ before ++ after, e.2 ≠ i := by
  obtain ⟨before, after, hsplit⟩ := List.append_of_mem (List.mk_mem_zipIdx_iff_getElem?.mpr h)
  refine ⟨before, after, hsplit, ?_⟩
  have hnodup : ((before ++ (a, i) :: after).map Prod.snd).Nodup := by
    rw [← hsplit, List.zipIdx_map_snd]
    exact List.nodup_range'
  intro e he hnumber
  rw [(List.perm_middle.map Prod.snd).nodup_iff, List.map_cons, List.nodup_cons] at hnodup
  exact hnodup.1 (List.mem_map.mpr ⟨e, he, hnumber⟩)

/-- The border of one polygon of ground region number `i`. -/
def Polygon.border {α : Type} [Scalar α] (o : Polygon α) (i : Nat) : List (Boundary α) :=
  o.edges.map fun e => ⟨e.1.atZ Scalar.nan, e.2.atZ Scalar.nan, true, true, .region i⟩

namespace Site

open SectionPoint

variable {K : Type} [ExactCircular K] {s : Site K} {line : Segment K} {g : K} {i : Nat}

/-! ## Sides of a building -/

/-- Is the point one of building number `i`? -/
def isOf (i : Nat) (c : SectionPoint K) : Bool := c.isBuilding && c.owner == some i

/-- Does the line meet the boundary in a point of building number `i`? -/
def meetsOf (s : Site K) (line : Segment K) (g : K) (i : Nat) (b : Boundary K) : Bool :=
  ((s.crossing? line g b).map (isOf i)).getD false

/-- The sides of a building give points of this building, one for each that is met. -/
theorem meetsOf_of_mem_sides {B : Building K} {j : Nat} {b : Boundary K} (hb : b ∈ B.sides j) :
    s.meetsOf line g i b = ((line.intersect? b.segment).isSome && j == i) := by
  rw [meetsOf, s.crossing?_of_side line g (role_of_mem_sides hb)]
  cases line.intersect? b.segment with
  | none => rfl
  | some x => simp [isOf, isBuilding]

/-- Other boundaries give no points of buildings. -/
theorem countP_meetsOf_of_kind {bs : List (Boundary K)} (hbs : ∀ b ∈ bs, b.kind ≠ .building) :
    bs.countP (s.meetsOf line g i) = 0 := by
  rw [List.countP_eq_zero]
  intro b hb
  rw [meetsOf]
  cases hc : s.crossing? line g b with
  | none => simp
  | some c =>
    have hkind : c.kind ≠ .building := by
      rw [(s.crossing?_spec hc).2.1]
      exact hbs b hb
    simp [isOf, isBuilding, hkind]

/-- The sides of other buildings give no points of this one. -/
theorem countP_meetsOf_of_ne {bs : List (Building K × Nat)} (hbs : ∀ e ∈ bs, e.2 ≠ i) :
    (bs.flatMap fun (b, j) => b.sides j).countP (s.meetsOf line g i) = 0 := by
  rw [List.countP_eq_zero]
  intro b hb
  obtain ⟨⟨B, j⟩, hmem, hside⟩ := List.mem_flatMap.mp hb
  rw [meetsOf_of_mem_sides hside]
  simp [hbs _ hmem]

/-- The borders of regions give no points of buildings. -/
theorem countP_meetsOf_borders {rs : List (GroundRegion K × Nat)} :
    (rs.flatMap fun (G, j) => G.border j).countP (s.meetsOf line g i) = 0 :=
  countP_meetsOf_of_kind fun b hb => by rw [kind_of_mem_borders b hb]; decide

/-- The crossings of a building are where the line meets its sides. -/
theorem IsSealed.countP_crossings (h : s.IsSealed) {B : Building K}
    (hB : s.buildings[i]? = some B) :
    (s.crossings line g).countP (isOf i) =
      (B.sides i).countP fun b => (line.intersect? b.segment).isSome := by
  obtain ⟨before, after, hsplit, hother⟩ := exists_zipIdx_eq hB
  have hown : (B.sides i).countP (s.meetsOf line g i) =
      (B.sides i).countP fun b => (line.intersect? b.segment).isSome := by
    apply List.countP_congr
    intro b hb
    rw [meetsOf_of_mem_sides hb]
    simp
  have hwalls : s.walls.countP (s.meetsOf line g i) = 0 :=
    countP_meetsOf_of_kind fun b hb => by rw [h.kind_of_mem_walls b hb]; decide
  calc (s.crossings line g).countP (isOf i)
      = s.boundaries.countP (s.meetsOf line g i) := by
        rw [h.crossings_eq, List.countP_filterMap]
        rfl
    _ = (B.sides i).countP (s.meetsOf line g i) := by
        rw [h.boundaries_eq, hsplit, List.countP_append, List.countP_append, hwalls,
          countP_meetsOf_borders, List.flatMap_append, List.flatMap_cons, List.countP_append,
          List.countP_append,
          countP_meetsOf_of_ne fun e he => hother e (List.mem_append_left _ he),
          countP_meetsOf_of_ne fun e he => hother e (List.mem_append_right _ he)]
        simp only [Nat.zero_add, Nat.add_zero]
    _ = _ := hown

/-- The sides that the line meets are over the edges of the plan that it meets. -/
theorem IsSealed.countP_sides (h : s.IsSealed) {B : Building K} (hB : B ∈ s.buildings) :
    (B.sides i).countP (fun b => (line.intersect? b.segment).isSome) =
      line.meetings B.plan.ring := by
  have hedges : line.meetings B.plan.ring =
      B.plan.edges.countP fun e => (line.intersect? (Segment.flat e.1 e.2)).isSome := rfl
  rw [hedges, ← h.pathEdges_footprint hB, Building.sides, List.countP_map, List.countP_map]
  apply List.countP_congr
  intro e _
  have hsame : (line.intersect? ⟨e.1, e.2⟩).isSome =
      (line.intersect? (Segment.flat e.1.plan e.2.plan)).isSome :=
    line.isSome_intersect?_congr rfl rfl
  exact Bool.eq_iff_iff.mp hsame

/-! ## The border of a polygon -/

/-- Where the line passes through no corner of the polygon, every meeting with its border is a
    crossing. -/
theorem crossing?_of_border {o : Polygon K} (hoff : ∀ v ∈ o.ring, ¬ line.On v) {b : Boundary K}
    (hb : b ∈ o.border i) :
    s.crossing? line g b = (line.intersect? b.segment).map fun x =>
      ⟨x.plan.atZ (s.crossingZ b x.plan), .ground, some i, s.groundAhead line g x.plan, none,
        false⟩ := by
  obtain ⟨e, he, rfl⟩ := List.mem_map.mp hb
  obtain ⟨h0, h1⟩ := mem_of_mem_ringEdges he
  set b : Boundary K := ⟨e.1.atZ Scalar.nan, e.2.atZ Scalar.nan, true, true, .region i⟩ with hb
  cases hx : line.intersect? b.segment with
  | none => simp [crossing?, hx]
  | some x =>
    have hon : line.On x.plan := line.on_left_of_intersect? b.segment hx
    have hcorner : ∀ v ∈ o.ring, (x.plan == v) = false := by
      intro v hv
      rw [beq_eq_false_iff_ne]
      rintro rfl
      exact hoff _ hv hon
    have hend : b.hasEnd x.plan = false := by
      rw [Boundary.hasEnd, Bool.or_eq_false_iff]
      exact ⟨hcorner e.1 h0, hcorner e.2 h1⟩
    exact s.crossing?_of_region g rfl hx hend

/-- A line that passes through no corner of a polygon has a crossing for each edge of the border
    that it meets. -/
theorem length_crossings_border {o : Polygon K} (hoff : ∀ v ∈ o.ring, ¬ line.On v) :
    ((o.border i).filterMap (s.crossing? line g)).length = line.meetings o.ring := by
  rw [List.length_filterMap_eq_countP, Polygon.border, List.countP_map]
  apply List.countP_congr
  intro e he
  have hcrossing := crossing?_of_border (s := s) (g := g) hoff (i := i)
    (List.mem_map.mpr ⟨e, he, rfl⟩)
  simp only [Function.comp_apply, hcrossing, Option.isSome_map]
  exact Iff.rfl

/-- The border of a polygon is filed in one piece. -/
theorem IsSealed.border_infix (h : s.IsSealed) {G : GroundRegion K} (hG : s.regions[i]? = some G)
    {o : Polygon K} (ho : o ∈ G.polygons) : o.border i <:+: s.boundaries := by
  have hregion : o.border i <:+: G.border i :=
    List.infix_of_mem_flatten (List.mem_map_of_mem ho)
  have hmem : (G, i) ∈ s.regions.zipIdx := List.mk_mem_zipIdx_iff_getElem?.mpr hG
  rw [h.boundaries_eq]
  refine (hregion.trans ?_).trans (List.suffix_append _ _).isInfix
  exact List.infix_of_mem_flatten (List.mem_map.mpr ⟨(G, i), hmem, rfl⟩)

/-- What a line crosses there comes in one piece among the crossings. -/
theorem IsSealed.exists_crossings_border (h : s.IsSealed) (line : Segment K) (g : K)
    {G : GroundRegion K} (hG : s.regions[i]? = some G) {o : Polygon K} (ho : o ∈ G.polygons) :
    ∃ before after, s.boundaries = before ++ o.border i ++ after ∧
      s.crossings line g = before.filterMap (s.crossing? line g) ++
        (o.border i).filterMap (s.crossing? line g) ++ after.filterMap (s.crossing? line g) := by
  obtain ⟨before, after, hsplit⟩ := h.border_infix hG ho
  refine ⟨before, after, hsplit.symm, ?_⟩
  rw [h.crossings_eq, ← hsplit, List.filterMap_append, List.filterMap_append]

/-- A crossing of the border of a polygon is a ground point of its region. -/
theorem ground_of_mem_border {o : Polygon K} (hoff : ∀ v ∈ o.ring, ¬ line.On v)
    {c : SectionPoint K} (hc : c ∈ (o.border i).filterMap (s.crossing? line g)) :
    c.kind = .ground ∧ c.owner = some i := by
  obtain ⟨b, hb, hcrossing⟩ := List.mem_filterMap.mp hc
  rw [crossing?_of_border hoff hb] at hcrossing
  obtain ⟨x, _, rfl⟩ := Option.map_eq_some_iff.mp hcrossing
  exact ⟨rfl, rfl⟩

/-! ## Pairs -/

/-- In order along the line and among all that is collected, the points of a building are its
    crossings. -/
theorem countP_sortAlong :
    ((sortAlong line (s.collected line g)).filter isBuilding).countP (·.owner == some i) =
      (s.crossings line g).countP (isOf i) := by
  have hterrain : (s.terrainPoints line g).countP (isOf i) = 0 := by
    rw [List.countP_eq_zero]
    intro c hc
    obtain ⟨p, _, rfl⟩ := List.mem_map.mp hc
    simp [isOf, isBuilding]
  calc ((sortAlong line (s.collected line g)).filter isBuilding).countP (·.owner == some i)
      = (sortAlong line (s.collected line g)).countP (isOf i) := by
        rw [List.countP_filter]
        apply List.countP_congr
        intro c _
        rw [isOf, Bool.and_comm]
    _ = (s.collected line g).countP (isOf i) := (List.mergeSort_perm _ _).countP_eq _
    _ = (s.crossings line g).countP (isOf i) := by
        rw [collected, List.countP_append, hterrain, Nat.zero_add]

/-- **Crossings in pairs.** In the profile of a sealed site, a building has as many crossings as
    the line meets edges of its plan, not counting the feet of its blocks; if the line traverses
    the plan, this number is even. For each polygon of a ground region that the line traverses,
    the border is filed in one piece and gives a ground crossing of this region for each edge
    that the line meets, again an even number. -/
theorem IsSealed.crossings_in_pairs (h : s.IsSealed) (source receiver : Point3 K) (g : K) :
    let line : Segment K := ⟨source, receiver⟩
    let points := (s.profile source receiver g).points
    (∃ blocks : List (Block K),
      (∀ blocks', Splits s.footOf (points.filter isBuilding) blocks' ↔ blocks' = blocks) ∧
      ∀ i B, s.buildings[i]? = some B →
        let count := (blocks.flatMap Block.crossings).countP fun c => c.owner == some i
        count = line.meetings B.plan.ring ∧ (line.Traverses B.plan.ring → Even count)) ∧
    ∀ i G, s.regions[i]? = some G → ∀ o ∈ G.polygons, line.Traverses o.ring →
      ∃ before own after, s.boundaries = before ++ o.border i ++ after ∧
        s.crossings line g = before.filterMap (s.crossing? line g) ++ own ++
          after.filterMap (s.crossing? line g) ∧
        own = (o.border i).filterMap (s.crossing? line g) ∧
        (∀ c ∈ own, c.kind = .ground ∧ c.owner = some i) ∧
        own.length = line.meetings o.ring ∧ Even own.length := by
  intro line points
  constructor
  · obtain ⟨blocks, hframed, hcrossings⟩ := s.exists_framed_profile source receiver g
    have hsplits := hframed.splits s.footOf_kind
    refine ⟨blocks, fun blocks' => ⟨hsplits.unique s.footOf_owner, ?_⟩, ?_⟩
    · rintro rfl
      exact hsplits
    · intro i B hB
      have hcount : (blocks.flatMap Block.crossings).countP (fun c => c.owner == some i) =
          line.meetings B.plan.ring := by
        rw [hcrossings, countP_sortAlong, h.countP_crossings hB,
          h.countP_sides (List.mem_of_getElem? hB)]
      refine ⟨hcount, fun htraverses => ?_⟩
      rw [hcount]
      exact htraverses.even_meetings
  · intro i G hG o ho htraverses
    obtain ⟨before, after, hsplit, hpieces⟩ := h.exists_crossings_border line g hG ho
    have hlength : ((o.border i).filterMap (s.crossing? line g)).length = line.meetings o.ring :=
      length_crossings_border htraverses.off_corners
    refine ⟨before, _, after, hsplit, hpieces, rfl,
      fun c hc => ground_of_mem_border htraverses.off_corners hc, hlength, ?_⟩
    rw [hlength]
    exact htraverses.even_meetings

/-! A square of other ground in front of a house. -/

/-- The square. -/
noncomputable def lawn : Polygon ℝ := ⟨[⟨1, -2⟩, ⟨5, -2⟩, ⟨5, 2⟩, ⟨1, 2⟩]⟩

/-- The square and the house. -/
noncomputable def lawnAndHouse : Site ℝ :=
  ((Draft.empty Settings.default).afterAll
    [.region [lawn] 1, house 20 30 5 1]).siteOver none

/-- A line through the square and the house. -/
noncomputable def throughLawnAndHouse : Segment ℝ := ⟨⟨0, 0, 1⟩, ⟨40, 0, 1⟩⟩

theorem exists_lawnAndHouse : ∃ B : Building ℝ, lawnAndHouse.buildings = [B] ∧
    B.plan = ⟨[⟨20, -10⟩, ⟨30, -10⟩, ⟨30, 10⟩, ⟨20, 10⟩]⟩ ∧
    lawnAndHouse.regions = [⟨[lawn], 1⟩] := by
  obtain ⟨b, hb, hplan⟩ := exists_house_plan (by norm_num : (20 : ℝ) < 30)
    (by norm_num : (0 : ℝ) ≤ 5) 1
  have hground : (Draft.empty (Settings.default : Settings ℝ)).settings.buildingGround = none := rfl
  rw [lawnAndHouse, Draft.afterAll_eq hground, List.filterMap_cons_none rfl,
    List.filterMap_cons_some hb]
  exact ⟨Draft.placeBuilding none false b, rfl, hplan, rfl⟩

/-- The line traverses a rectangle that lies across it and within its reach. -/
theorem traverses_rectangle {x x' y : ℝ} (hx : 0 < x) (hxx' : x < x') (hx' : x' < 40)
    (hy : 0 < y) :
    throughLawnAndHouse.Traverses [⟨x, -y⟩, ⟨x', -y⟩, ⟨x', y⟩, ⟨x, y⟩] := by
  have hbox : ∀ {p : Point2 ℝ},
      Box2.contains (Box.ofPoints [⟨x, -y⟩, ⟨x', -y⟩, ⟨x', y⟩, ⟨x, y⟩]) p = true →
      x ≤ p.x ∧ p.x ≤ x' := by
    intro p hp
    have hall : ∀ v ∈ [(⟨x, -y⟩ : Point2 ℝ), ⟨x', -y⟩, ⟨x', y⟩, ⟨x, y⟩],
        Box2.contains (Box.ofCorners ⟨x, -y⟩ ⟨x', y⟩) v = true := by
      simp [Box2.contains_ofCorners, hxx'.le, hy.le]
    exact (Box2.contains_ofCorners.mp (Box2.contains_of_contains_ofPoints (by simp) hall hp)).1
  refine ⟨?_, ?_, ?_⟩
  · -- The line is on the axis, and the corners are off it.
    have haxis : ∀ {v : Point2 ℝ}, throughLawnAndHouse.On v → v.y = 0 := by
      rintro _ ⟨t, _, _, rfl⟩
      simp [throughLawnAndHouse]
    intro v hv hon
    have hcorner : v.y = y ∨ v.y = -y := by
      simp only [List.mem_cons, List.not_mem_nil, or_false] at hv
      rcases hv with rfl | rfl | rfl | rfl <;> simp
    rw [haxis hon] at hcorner
    rcases hcorner with h | h <;> linarith
  · rw [Bool.eq_false_iff]
    intro hin
    exact absurd (hbox hin).1 (not_le.mpr hx)
  · rw [Bool.eq_false_iff]
    intro hin
    exact absurd (hbox hin).2 (not_le.mpr hx')

/-- The line enters and leaves the house, and the square. -/
theorem crossings_in_pairs_lawnAndHouse :
    lawnAndHouse.IsSealed ∧ ∃ B, lawnAndHouse.buildings = [B] ∧
      throughLawnAndHouse.Traverses B.plan.ring ∧ throughLawnAndHouse.Traverses lawn.ring ∧
      (∃ blocks, Splits lawnAndHouse.footOf ((lawnAndHouse.profile throughLawnAndHouse.p0
          throughLawnAndHouse.p1 0).points.filter isBuilding) blocks ∧
        Even ((blocks.flatMap Block.crossings).countP fun c => c.owner == some 0)) ∧
      Even ((lawn.border 0).filterMap (lawnAndHouse.crossing? throughLawnAndHouse 0)).length := by
  have hsealed : lawnAndHouse.IsSealed := ⟨_, _, none, rfl⟩
  obtain ⟨B, hbuildings, hplan, hregions⟩ := exists_lawnAndHouse
  have hhouse : throughLawnAndHouse.Traverses B.plan.ring := by
    rw [hplan]
    exact traverses_rectangle (by norm_num) (by norm_num) (by norm_num) (by norm_num)
  have hlawn : throughLawnAndHouse.Traverses lawn.ring :=
    traverses_rectangle (by norm_num) (by norm_num) (by norm_num) (by norm_num)
  obtain ⟨⟨blocks, hblocks, hpairs⟩, hborders⟩ :=
    hsealed.crossings_in_pairs throughLawnAndHouse.p0 throughLawnAndHouse.p1 0
  obtain ⟨_, own, _, _, _, rfl, _, _, heven⟩ :=
    hborders 0 ⟨[lawn], 1⟩ (by rw [hregions]; rfl) lawn (by simp) hlawn
  exact ⟨hsealed, B, hbuildings, hhouse, hlawn,
    ⟨blocks, (hblocks blocks).mpr rfl, (hpairs 0 B (by rw [hbuildings]; rfl)).2 hhouse⟩, heven⟩

end Site

end SiteSection
