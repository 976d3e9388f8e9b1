import SiteSection.Proofs.Section.Pairs
import SiteSection.Proofs.Section.Scan
import SiteSection.Proofs.Site.Ownership

/-! # What is visited on the way

  A line visits buildings and walls by their boxes: the buildings whose boxes meet that of a
  piece of the line, and the walls whose boxes meet that of the whole line. The profile of the
  line is cut through a third index, that of the boundaries.

  In exact arithmetic the visits cover the profile. A place of the line that is in the box of a
  building is in the box of some piece as well, so the building is visited; and what the line
  crosses of a building, and what of the line is inside of it, is in the box of its plan. The
  length of the pieces is of no account, as long as there is room for them.
-/

namespace SiteSection

/-! ## Visits by number -/

section
variable {β : Type} {l : List β} {ids : List Nat}

theorem mem_filterMap_numbered {i : Nat} {b : β} :
    (i, b) ∈ ids.filterMap (fun i => l[i]?.map (i, ·)) ↔ i ∈ ids ∧ l[i]? = some b := by
  simp only [List.mem_filterMap, Option.map_eq_some_iff, Prod.mk.injEq]
  constructor
  · rintro ⟨_, hi, _, hb, rfl, rfl⟩
    exact ⟨hi, hb⟩
  · rintro ⟨hi, hb⟩
    exact ⟨i, hi, b, hb, rfl, rfl⟩

/-- Increasing numbers are visited in their order. -/
theorem pairwise_filterMap_numbered (hids : ids.Pairwise (· < ·)) :
    (ids.filterMap fun i => l[i]?.map (i, ·)).Pairwise fun a b => a.1 < b.1 := by
  refine List.Pairwise.filterMap _ (fun i j hij a ha b hb => ?_) hids
  obtain ⟨_, _, rfl⟩ := Option.map_eq_some_iff.mp ha
  obtain ⟨_, _, rfl⟩ := Option.map_eq_some_iff.mp hb
  exact hij

end

namespace Site

section
variable {α : Type} [Circular α] {s : Site α} {line : Segment α} {i : Nat}

/-- The buildings that are visited are those whose boxes meet that of a piece of the line. -/
theorem IsSealed.mem_buildingsAlong_iff (h : s.IsSealed) {B : Building α} :
    (i, B) ∈ s.buildingsAlong line ↔ s.buildings[i]? = some B ∧
      ∃ piece ∈ line.split s.settings.pieceLength,
        (Envelope.ofBox B.box).meets (Envelope.ofBox piece.box) = true := by
  rw [buildingsAlong, mem_filterMap_numbered, and_comm]
  apply and_congr_right
  intro hB
  rw [mem_alongPieces, h.buildingIndex_eq]
  simp only [BoxIndex.mem_query_zipIdx hB]

/-- The walls that are visited are those whose boxes meet that of the line. -/
theorem IsSealed.mem_wallsAlong_iff (h : s.IsSealed) {w : Boundary α} :
    (i, w) ∈ s.wallsAlong line ↔ s.walls[i]? = some w ∧
      (Envelope.ofBox w.box).meets (Envelope.ofBox line.box) = true := by
  rw [wallsAlong, mem_filterMap_numbered, and_comm]
  apply and_congr_right
  intro hw
  rw [mem_sortedOnce, h.wallIndex_eq, BoxIndex.mem_query_zipIdx hw]

end

/-! ## Visits of what is met -/

section
variable {K : Type} [ExactCircular K] {s : Site K} {line : Segment K} {p : Point2 K} {i : Nat}

/-- A building is visited if its box holds a place of the line, whatever the pieces. -/
theorem IsSealed.mem_buildingsAlong_of_contains (h : s.IsSealed) {B : Building K}
    (hB : s.buildings[i]? = some B) (hline : line.On p) (hbox : B.box.contains p = true) :
    (i, B) ∈ s.buildingsAlong line := by
  obtain ⟨piece, hpiece, hon⟩ := line.exists_piece_on s.settings.pieceLength hline
  exact h.mem_buildingsAlong_iff.mpr
    ⟨hB, piece, hpiece, Envelope.meets_of_contains hbox (piece.contains_of_on hon)⟩

/-- The box of a building holds the places of its sides. -/
theorem IsSealed.contains_of_on_side (h : s.IsSealed) {B : Building K} (hB : B ∈ s.buildings)
    {e : Point3 K × Point3 K} (he : e ∈ pathEdges B.footprint)
    (hside : (⟨e.1, e.2⟩ : Segment K).On p) : B.box.contains p = true := by
  have hedge : (e.1.plan, e.2.plan) ∈ B.plan.edges := by
    rw [← h.pathEdges_footprint hB]
    exact List.mem_map.mpr ⟨e, he, rfl⟩
  have hon : (Segment.flat e.1.plan e.2.plan).On p := (Segment.on_congr rfl rfl).mp hside
  exact Segment.contains_of_on_edge hedge hon

/-- A building whose side meets the line is visited. -/
theorem IsSealed.mem_buildingsAlong_of_owns (h : s.IsSealed) {o : Segment K} {x : Point3 K}
    (howns : s.Owns .building i o) (hx : line.intersect? o = some x) :
    ∃ B, (i, B) ∈ s.buildingsAlong line := by
  cases howns with
  | side hB he =>
    have hbox := h.contains_of_on_side (List.mem_of_getElem? hB) he
      (line.on_right_of_intersect? _ hx)
    exact ⟨_, h.mem_buildingsAlong_of_contains hB (line.on_left_of_intersect? _ hx) hbox⟩

/-- A wall that meets the line is visited. -/
theorem IsSealed.mem_wallsAlong_of_owns (h : s.IsSealed) {o : Segment K} {x : Point3 K}
    (howns : s.Owns .wall i o) (hx : line.intersect? o = some x) :
    ∃ w, (i, w) ∈ s.wallsAlong line := by
  cases howns with
  | wall hw =>
    refine ⟨_, h.mem_wallsAlong_iff.mpr ⟨hw, ?_⟩⟩
    exact Envelope.meets_of_contains (Segment.contains_of_on _ (line.on_right_of_intersect? _ hx))
      (line.contains_of_on (line.on_left_of_intersect? _ hx))

/-- A point of a profile that has a building or a wall is where the line meets an edge of it. -/
theorem IsSealed.exists_owns_of_mem_profile (h : s.IsSealed) {source receiver : Point3 K} {g : K}
    {c : SectionPoint K} (hc : c ∈ (s.profile source receiver g).points)
    (hkind : c.kind.isOwned = true) : ∃ i o x, c.owner = some i ∧ s.Owns c.kind i o ∧
      (⟨source, receiver⟩ : Segment K).intersect? o = some x := by
  have hshows := h.showsOwner_of_mem_profile hc
  rw [if_pos hkind] at hshows
  obtain ⟨b, _, x, hb, howner, howns, hx, _⟩ := hshows
  exact ⟨b.owner, b.segment, x, howner, hb ▸ howns, hx⟩

end

/-! ## Visits and profiles -/

section
variable {K : Type} [ExactCircular K] {s : Site K}

/-- **Visits cover the profile.** Let the room be for fewer pieces than can be counted. Along a line
    the buildings of a sealed site are visited unless its length has that of the pieces in it more
    often than there is room for; the walls are always visited. Visits are in the order of the
    numbers, each at most once; the index gives no wall twice. Every building of which the profile
    of the line has a point is visited, and every wall; and every building that has a place of the
    line inside its plan. So it is for pieces of any length. -/
theorem IsSealed.visits_cover_profile (h : s.IsSealed) {room : Nat}
    (hroom : room < Scalar.greatestCount) (limit : K) (source receiver : Point3 K) :
    let line : Segment K := ⟨source, receiver⟩
    let t := s.withPieceLength limit
    let walls := t.wallsAlong line
    (t.buildingsAlong? room line = none ↔
      0 < limit ∧ limit ≤ line.planLength ∧ room < line.planLength / limit) ∧
    (∀ buildings, t.buildingsAlong? room line = some buildings →
      buildings.Pairwise (fun a b => a.1 < b.1) ∧
      (∀ i B, (i, B) ∈ buildings → s.buildings[i]? = some B) ∧
      (∀ g p, t.profile? room source receiver g = some p → ∀ c ∈ p.points,
        c.kind = .building → ∃ i B, c.owner = some i ∧ (i, B) ∈ buildings) ∧
      ∀ i B, s.buildings[i]? = some B → (∃ p, line.On p ∧ B.plan.inside p = true) →
        (i, B) ∈ buildings) ∧
    walls.Pairwise (fun a b => a.1 < b.1) ∧ (s.wallIndex.query line.box).Nodup ∧
    (∀ i w, (i, w) ∈ walls → s.walls[i]? = some w) ∧
    ∀ g p, t.profile? room source receiver g = some p → ∀ c ∈ p.points,
      c.kind = .wall → ∃ i w, c.owner = some i ∧ (i, w) ∈ walls := by
  intro line t walls
  have h' : t.IsSealed := h.withPieceLength limit
  refine ⟨answerAlong?_eq_none_iff_lt hroom, fun buildings hbuildings => ?_,
    pairwise_filterMap_numbered (pairwise_sortedOnce _), ?_,
    fun i w hw => (h'.mem_wallsAlong_iff.mp hw).1, fun g p hp c hc hkind => ?_⟩
  · obtain rfl : buildings = t.buildingsAlong line := eq_of_answerAlong? hbuildings
    refine ⟨pairwise_filterMap_numbered (pairwise_sortedOnce _),
      fun i B hB => (h'.mem_buildingsAlong_iff.mp hB).1, fun g p hp c hc hkind => ?_, ?_⟩
    · -- The owner has a side where the point is.
      obtain rfl : p = t.profile source receiver g := eq_of_answerAlong? hp
      obtain ⟨i, o, x, howner, howns, hx⟩ := h'.exists_owns_of_mem_profile hc (by rw [hkind]; rfl)
      obtain ⟨B, hB⟩ := h'.mem_buildingsAlong_of_owns (hkind ▸ howns) hx
      exact ⟨i, B, howner, hB⟩
    · rintro i B hB ⟨p, hline, hinside⟩
      exact h'.mem_buildingsAlong_of_contains hB hline (Polygon.contains_of_inside hinside)
  · rw [h.wallIndex_eq]
    exact BoxIndex.nodup_query_zipIdx _ _ _
  · obtain rfl : p = t.profile source receiver g := eq_of_answerAlong? hp
    obtain ⟨i, o, x, howner, howns, hx⟩ := h'.exists_owns_of_mem_profile hc (by rw [hkind]; rfl)
    obtain ⟨w, hw⟩ := h'.mem_wallsAlong_of_owns (hkind ▸ howns) hx
    exact ⟨i, w, howner, hw⟩

/-- A way from one room of the house to another. -/
noncomputable def insideHouse : Segment ℝ := ⟨⟨22, 0, 1⟩, ⟨28, 0, 1⟩⟩

/-- A way within a house crosses none of its sides, and visits it all the same. With pieces of
    `10 ^ (-20)` there is no visit. -/
theorem visits_cover_profile_insideHouse :
    lawnAndHouse.IsSealed ∧ (∃ B buildings, lawnAndHouse.buildings = [B] ∧
      insideHouse.On ⟨25, 0⟩ ∧ B.plan.inside ⟨25, 0⟩ = true ∧
      (lawnAndHouse.withPieceLength 1).buildingsAlong? 6 insideHouse = some buildings ∧
      (0, B) ∈ buildings) ∧
    (lawnAndHouse.withPieceLength (1 / 10 ^ 20)).buildingsAlong? ((2 ^ 63 - 1) / 48)
      insideHouse = none := by
  have hsealed : lawnAndHouse.IsSealed := ⟨_, _, none, rfl⟩
  have hlength : (⟨insideHouse.p0, insideHouse.p1⟩ : Segment ℝ).planLength = 6 :=
    Segment.planLength_eq_of_mul_self _ (by norm_num) (by norm_num [insideHouse, Point2.normSq])
  refine ⟨hsealed, ?_, ?_⟩
  · obtain ⟨B, hbuildings, hplan, _⟩ := exists_lawnAndHouse
    have hon : insideHouse.On ⟨25, 0⟩ := by
      refine ⟨1 / 2, by norm_num, by norm_num, ?_⟩
      ext <;> norm_num [insideHouse]
    have hinside : B.plan.inside ⟨25, 0⟩ = true := by
      rw [hplan]
      norm_num [Polygon.inside, Ring.inside, Ring.winding, ringEdges, Ring.windingOf, Ring.side,
        Point2.cross]
    obtain ⟨hnone, hvisits, -⟩ := hsealed.visits_cover_profile
      (by decide : 6 < Scalar.greatestCount) 1 insideHouse.p0 insideHouse.p1
    obtain ⟨buildings, hsome⟩ := Option.ne_none_iff_exists'.mp
      (mt hnone.mp (by rw [hlength]; norm_num))
    exact ⟨B, buildings, hbuildings, hon, hinside, hsome,
      (hvisits buildings hsome).2.2.2 0 B (by rw [hbuildings]; rfl) ⟨_, hon, hinside⟩⟩
  · have hmany := hsealed.visits_cover_profile
      (by decide : (2 ^ 63 - 1) / 48 < Scalar.greatestCount) (1 / 10 ^ 20) insideHouse.p0
      insideHouse.p1
    refine hmany.1.mpr ?_
    rw [hlength]
    norm_num

end

end Site

end SiteSection
