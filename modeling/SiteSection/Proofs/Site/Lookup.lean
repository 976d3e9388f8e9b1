import SiteSection.Proofs.Plan.Boxes
import SiteSection.Proofs.Plan.Meeting
import SiteSection.Proofs.Plan.Splitting
import SiteSection.Proofs.Section.Ends
import SiteSection.Proofs.Site.Sealed

/-! # What the indexes of a site give

  A site is asked through its indexes, which filter by boxes. On a sealed site nothing gets
  lost: every boundary that a line meets is looked up along the line, and the ground away from
  all borders is that of the highest region with a polygon around the location.

  From there on a location can be moved: the ground stays the same along a segment that meets
  no border, if both of its ends are clear of the borders.
-/

namespace SiteSection

/-! ## Queries -/

section
variable {α : Type} [Scalar α]

theorem Site.mem_alongPieces {s : Site α} {x : BoxIndex α Nat} {line : Segment α} {k : Nat} :
    k ∈ s.alongPieces x line ↔
      ∃ piece ∈ line.split s.settings.pieceLength, k ∈ x.query piece.box := by
  simp [alongPieces]

end

namespace Site

/-! ## Borders -/

section
variable {α : Type} (s : Site α)

/-- The edges of all polygons of the ground regions. -/
def borderEdges : List (Point2 α × Point2 α) :=
  s.regions.flatMap fun r => r.polygons.flatMap fun g => ringEdges g.ring

/-- The corners of all polygons of the ground regions. -/
def borderCorners : List (Point2 α) := s.regions.flatMap fun r => r.polygons.flatMap (·.ring)

theorem mem_borderEdges {e : Point2 α × Point2 α} :
    e ∈ s.borderEdges ↔ ∃ r ∈ s.regions, ∃ g ∈ r.polygons, e ∈ ringEdges g.ring := by
  simp [borderEdges]

/-- The ends of border edges are corners. -/
theorem mem_borderCorners {e : Point2 α × Point2 α} (h : e ∈ s.borderEdges) :
    e.1 ∈ s.borderCorners ∧ e.2 ∈ s.borderCorners := by
  obtain ⟨r, hr, g, hg, he⟩ := s.mem_borderEdges.mp h
  have hends := mem_of_mem_ringEdges he
  simp only [borderCorners, List.mem_flatMap]
  exact ⟨⟨r, hr, g, hg, hends.1⟩, r, hr, g, hg, hends.2⟩

end

section
variable {α : Type} [Circular α] {s : Site α}

/-- Buildings are filed by their boxes. -/
theorem IsSealed.buildingIndex_eq (h : s.IsSealed) :
    s.buildingIndex = BoxIndex.ofList (s.buildings.zipIdx.map fun (b, i) => (b.box, i)) := by
  obtain ⟨settings, calls, terrain, rfl⟩ := h
  rfl

/-- Walls are filed by their boxes. -/
theorem IsSealed.wallIndex_eq (h : s.IsSealed) :
    s.wallIndex = BoxIndex.ofList (s.walls.zipIdx.map fun (w, i) => (w.box, i)) := by
  obtain ⟨settings, calls, terrain, rfl⟩ := h
  rfl

/-- Boundaries are filed by their boxes. -/
theorem IsSealed.boundaryIndex_eq (h : s.IsSealed) :
    s.boundaryIndex = BoxIndex.ofList (s.boundaries.zipIdx.map fun (w, i) => (w.box, i)) := by
  obtain ⟨settings, calls, terrain, rfl⟩ := h
  rfl

/-- Polygons are filed by their boxes. -/
theorem IsSealed.regionIndex_eq (h : s.IsSealed) :
    s.regionIndex = BoxIndex.ofList (s.regions.zipIdx.flatMap fun (g, r) =>
      g.polygons.zipIdx.map fun (p, i) => (p.box, (r, i))) := by
  obtain ⟨settings, calls, terrain, rfl⟩ := h
  rfl

/-- Every border edge is a boundary. -/
theorem IsSealed.exists_border (h : s.IsSealed) {e : Point2 α × Point2 α}
    (he : e ∈ s.borderEdges) :
    ∃ i, ⟨e.1.atZ Scalar.nan, e.2.atZ Scalar.nan, true, true, .region i⟩ ∈ s.boundaries := by
  obtain ⟨settings, calls, terrain, rfl⟩ := h
  obtain ⟨r, hr, g, hg, he⟩ := (mem_borderEdges _).mp he
  obtain ⟨i, hi⟩ := List.mem_iff_getElem?.mp hr
  refine ⟨i, List.mem_append_right _ (List.mem_flatMap.mpr ⟨(r, i), ?_, ?_⟩)⟩
  · exact List.mk_mem_zipIdx_iff_getElem?.mpr hi
  · exact List.mem_flatMap.mpr ⟨g, hg, List.mem_map.mpr ⟨e, he, rfl⟩⟩

/-- A boundary of a region is a border edge. -/
theorem IsSealed.segment_of_region (h : s.IsSealed) {b : Boundary α} (hb : b ∈ s.boundaries)
    (hkind : b.kind = .ground) : ∃ e ∈ s.borderEdges, b.segment = Segment.flat e.1 e.2 := by
  obtain ⟨settings, calls, terrain, rfl⟩ := h
  rcases List.mem_append.mp hb with hb | hb
  · -- Sides of buildings and free-standing walls bound no ground.
    exfalso
    rcases List.mem_append.mp hb with hb | hb
    · obtain ⟨b', _, hside⟩ := List.mem_flatMap.mp hb
      obtain ⟨e, _, rfl⟩ := List.mem_map.mp hside
      cases hkind
    · obtain ⟨w, hw, rfl⟩ := List.mem_map.mp hb
      have hwall : w.kind = .ground := hkind
      rw [(Draft.sound_afterAll settings calls).2 w hw] at hwall
      cases hwall
  · obtain ⟨⟨r, i⟩, hr, hborder⟩ := List.mem_flatMap.mp hb
    obtain ⟨g, hg, hedge⟩ := List.mem_flatMap.mp hborder
    obtain ⟨e, he, rfl⟩ := List.mem_map.mp hedge
    exact ⟨e, (mem_borderEdges _).mpr ⟨r, List.fst_mem_of_mem_zipIdx hr, g, hg, he⟩, rfl⟩

end

section
variable {K : Type} [ExactCircular K] {s : Site K} {p q : Point2 K} {line : Segment K} {g : K}

/-! ## Boundaries along a line -/

/-- There is no answer along a line if, and only if, its length has the limit of the pieces in it
    more often than there is room for. -/
theorem answerAlong?_eq_none_iff_lt {β : Type} {room : Nat} (hroom : room < Scalar.greatestCount)
    {answer : Unit → β} : s.answerAlong? room line answer = none ↔
      0 < s.settings.pieceLength ∧ s.settings.pieceLength ≤ line.planLength ∧
        room < line.planLength / s.settings.pieceLength := by
  rw [answerAlong?, Option.map_eq_none_iff, Segment.split?_eq_none_iff_lt hroom]

/-- What a line meets is looked up: the piece with the meeting place has a box that meets that
    of the boundary. -/
theorem IsSealed.mem_alongPieces_of_intersect? (h : s.IsSealed) {i : Nat} {b : Boundary K}
    {x : Point3 K} (hb : s.boundaries[i]? = some b) (hx : line.intersect? b.segment = some x) :
    i ∈ s.alongPieces s.boundaryIndex line := by
  obtain ⟨piece, hpiece, hon⟩ :=
    line.exists_piece_on s.settings.pieceLength (line.on_left_of_intersect? b.segment hx)
  have hmeets : (Envelope.ofBox b.box).meets (Envelope.ofBox piece.box) = true :=
    Envelope.meets_of_contains
      (b.segment.contains_of_on (line.on_right_of_intersect? b.segment hx))
      (piece.contains_of_on hon)
  have hquery : i ∈ s.boundaryIndex.query piece.box := by
    rw [h.boundaryIndex_eq]
    exact (BoxIndex.mem_query_zipIdx hb).mpr hmeets
  exact mem_alongPieces.mpr ⟨piece, hpiece, hquery⟩

/-- A boundary that a line meets gives a crossing. -/
theorem IsSealed.mem_crossings (h : s.IsSealed) {b : Boundary K} {c : SectionPoint K}
    (hb : b ∈ s.boundaries) (hc : s.crossing? line g b = some c) : c ∈ s.crossings line g := by
  obtain ⟨⟨x, hx, _⟩, _⟩ := s.crossing?_spec hc
  obtain ⟨k, hk⟩ := List.mem_iff_getElem?.mp hb
  have hfiled : k ∈ s.alongPieces s.boundaryIndex line := h.mem_alongPieces_of_intersect? hk hx
  exact List.mem_filterMap.mpr ⟨b, List.mem_filterMap.mpr ⟨k, hfiled, hk⟩, hc⟩

/-! ## Locations clear of the borders -/

/-- The location is on the border of some region. -/
def OnBorder (s : Site K) (y : Point2 K) : Prop :=
  ∃ e ∈ s.borderEdges, (Segment.flat e.1 e.2).On y

/-- The location is farther from every border than the tolerance within which a location
    counts as on it. -/
def ClearOfBorders (s : Site K) (p : Point2 K) : Prop :=
  ∀ y, s.OnBorder y → Ring.boundaryTolerance < p.dist y

theorem ClearOfBorders.not_onBorder (h : s.ClearOfBorders p) : ¬ s.OnBorder p := by
  intro hon
  have hdist := h p hon
  rw [Point2.dist_eq_zero.mpr rfl] at hdist
  exact absurd hdist (not_lt.mpr (Scalar.negPowTen_pos 9).le)

/-- Where a location is clear of the borders, a polygon covers it if it is inside. -/
theorem ClearOfBorders.covers_eq (h : s.ClearOfBorders p) {r : GroundRegion K}
    (hr : r ∈ s.regions) {o : Polygon K} (ho : o ∈ r.polygons) : o.covers p = o.inside p := by
  have hoff : Ring.onBoundary o.ring p = false := by
    rw [Ring.onBoundary, List.any_eq_false]
    intro e he
    rw [decide_eq_true_eq, not_le, Segment.distTo, Point2.dist_comm]
    exact h _ ⟨e, s.mem_borderEdges.mpr ⟨r, hr, o, ho, he⟩, Segment.on_nearest _ p⟩
  rw [Polygon.covers, hoff, Bool.or_false]

/-! ## The ground -/

/-- The regions at a location, as entries of the index. -/
theorem regionAt?_eq (s : Site K) (p : Point2 K) :
    s.regionAt? p = ((s.regionIndex.entries.filter fun e =>
      s.regionCovers p e.2 && e.1.meets (Envelope.ofBox (Box.ofPoint p))).map
        fun e => e.2.1).max? := by
  rw [regionAt?, BoxIndex.queryPoint, BoxIndex.query, List.filter_map, List.filter_filter,
    List.map_map]
  rfl

/-- Every entry of the index is that of a polygon. -/
theorem IsSealed.exists_polygon (h : s.IsSealed) {e : Envelope K × Nat × Nat}
    (he : e ∈ s.regionIndex.entries) :
    ∃ r ∈ s.regions, ∃ o ∈ r.polygons, e.1 = Envelope.ofBox o.box ∧
      ∀ p, s.regionCovers p e.2 = o.covers p := by
  rw [h.regionIndex_eq] at he
  obtain ⟨item, hitem, rfl⟩ := List.mem_map.mp he
  obtain ⟨⟨r, i⟩, hr, hpolygon⟩ := List.mem_flatMap.mp hitem
  obtain ⟨⟨o, j⟩, ho, rfl⟩ := List.mem_map.mp hpolygon
  have hi := List.mk_mem_zipIdx_iff_getElem?.mp hr
  have hj := List.mk_mem_zipIdx_iff_getElem?.mp ho
  refine ⟨r, List.mem_of_getElem? hi, o, List.mem_of_getElem? hj, rfl, fun p => ?_⟩
  simp [regionCovers, hi, hj]

/-- **Ground between borders.** The ground at two locations clear of the borders is the same
    if no place of the segment between them is on a border. -/
theorem IsSealed.groundAt_eq (h : s.IsSealed) (hp : s.ClearOfBorders p)
    (hq : s.ClearOfBorders q) (happart : ∀ y, (Segment.flat p q).On y → ¬ s.OnBorder y)
    (g : K) : s.groundAt p g = s.groundAt q g := by
  -- At a clear location an entry counts if the location is inside its polygon.
  have hentry : ∀ {o : Polygon K} {u : Point2 K}, (o.inside u &&
      (Envelope.ofBox o.box).meets (Envelope.ofBox (Box.ofPoint u))) = o.inside u := by
    intro o u
    cases hin : o.inside u with
    | false => rfl
    | true =>
      rw [Bool.true_and]
      exact Envelope.meets_of_contains (Polygon.contains_of_inside hin) (Box2.contains_ofPoint u)
  -- No edge separates the locations, so each polygon has both inside or neither.
  have hsame : ∀ e ∈ s.regionIndex.entries,
      (s.regionCovers p e.2 && e.1.meets (Envelope.ofBox (Box.ofPoint p))) =
        (s.regionCovers q e.2 && e.1.meets (Envelope.ofBox (Box.ofPoint q))) := by
    intro e he
    obtain ⟨r, hr, o, ho, hbox, hcovers⟩ := h.exists_polygon he
    have hwinding : Ring.winding o.ring p = Ring.winding o.ring q :=
      Ring.winding_eq_of_apart o.ring fun e he y hy hy' =>
        happart y hy ⟨e, s.mem_borderEdges.mpr ⟨r, hr, o, ho, he⟩, hy'⟩
    rw [hcovers, hcovers, hp.covers_eq hr ho, hq.covers_eq hr ho, hbox, hentry, hentry,
      Polygon.inside, Polygon.inside, Ring.inside, Ring.inside, hwinding]
  rw [groundAt, groundAt, regionAt?_eq, regionAt?_eq, List.filter_congr hsame]

end

end Site

end SiteSection
