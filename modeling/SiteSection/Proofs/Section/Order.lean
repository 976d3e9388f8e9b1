import SiteSection.Proofs.Terrain.Walk
import SiteSection.Proofs.Section.Crossings

/-! # The order of a section

  The interior points of a profile are in order along the line. They are sorted before the
  feet of buildings are inserted, but a foot has the plan location of its crossing, and the
  passes that follow only remove points.

  The order needs no more of the arithmetic than a total order to sort by. In exact
  arithmetic every point is also a place of the line, so the source is the least point of a
  profile and the receiver its greatest.
-/

namespace SiteSection

/-! ## The order along a line -/

section
variable {α : Type} [Scalar α]

/-- The order of plan locations along a line: by projection, then by location. -/
def Segment.placeOrder (line : Segment α) (p q : Point2 α) : Ordering :=
  (Scalar.totalCmp (line.project p) (line.project q)).then (Coordinates.compare p q)

variable [Std.TransCmp (Scalar.totalCmp : α → α → Ordering)]

instance : Std.TransCmp (Coordinates.compare : Point2 α → Point2 α → Ordering) :=
  have := transCmp_on (Scalar.totalCmp : α → α → Ordering) Point2.x
  have := transCmp_on (Scalar.totalCmp : α → α → Ordering) Point2.y
  inferInstanceAs (Std.TransCmp (compareLex (fun p q : Point2 α => Scalar.totalCmp p.x q.x)
    fun p q => Scalar.totalCmp p.y q.y))

instance (line : Segment α) : Std.TransCmp line.placeOrder :=
  have := transCmp_on (Scalar.totalCmp : α → α → Ordering) line.project
  inferInstanceAs (Std.TransCmp (compareLex
    (fun p q => Scalar.totalCmp (line.project p) (line.project q)) Coordinates.compare))

instance (line : Segment α) : Std.TransCmp (Site.alongOrder line) :=
  transCmp_on line.placeOrder fun c : SectionPoint α => c.position.plan

/-- Doubles are totally ordered by their bits. -/
instance : Std.TransCmp (Scalar.totalCmp : Float → Float → Ordering) :=
  transCmp_on (compare : Int → Int → Ordering) fun x : Float => Double.totalKey x.toBits.toNat

end

/-! ## Framing keeps an order -/

/-- A foot that has the key of its crossing stands in order beside it. -/
theorem SectionPoint.pairwise_frameAfter {α κ : Type} {base : SectionPoint α → SectionPoint α}
    (key : SectionPoint α → κ) (le : κ → κ → Prop) (hrefl : ∀ k, le k k)
    (hkey : ∀ c, key (base c) = key c) {previous : Option (SectionPoint α)}
    {points : List (SectionPoint α)} (h : points.Pairwise fun a b => le (key a) (key b)) :
    (frameAfter base previous points).Pairwise fun a b => le (key a) (key b) := by
  induction points generalizing previous with
  | nil => exact List.Pairwise.nil
  | cons c rest ih =>
    obtain ⟨hc, hrest⟩ := List.pairwise_cons.mp h
    -- A framed point is one of the rest, or has the key of one.
    have hframed : ∀ {previous}, ∀ d ∈ frameAfter base previous rest, le (key c) (key d) := by
      intro previous d hd
      rcases mem_frameAfter base hd with hd | ⟨b, hb, _, rfl⟩
      · exact hc d hd
      · rw [hkey]
        exact hc b hb
    have hfoot : ∀ {p : Bool}, ∀ d ∈ (if p then [base c] else []), key d = key c := by
      intro p d hd
      split at hd
      · rw [List.mem_singleton.mp hd, hkey]
      · cases hd
    have hfeet : ∀ {p : Bool},
        (if p then [base c] else []).Pairwise fun a b => le (key a) (key b) := by
      intro p
      split <;> simp
    rw [frameAfter]
    split
    · -- A building point: a foot before it, the point, a foot after it, the framed rest.
      refine List.pairwise_append.mpr ⟨hfeet, List.pairwise_cons.mpr ⟨?_, ?_⟩, ?_⟩
      · intro d hd
        rcases List.mem_append.mp hd with hd | hd
        · rw [hfoot d hd]
          exact hrefl _
        · exact hframed d hd
      · refine List.pairwise_append.mpr ⟨hfeet, ih hrest, fun a ha d hd => ?_⟩
        rw [hfoot a ha]
        exact hframed d hd
      · intro a ha d hd
        rw [hfoot a ha]
        rcases List.mem_cons.mp hd with rfl | hd
        · exact hrefl _
        · rcases List.mem_append.mp hd with hd | hd
          · rw [hfoot d hd]
            exact hrefl _
          · exact hframed d hd
    · exact List.pairwise_cons.mpr ⟨hframed, ih hrest⟩

namespace Site

/-! ## The interior is in order -/

section
variable {α : Type} [Scalar α] [Std.TransCmp (Scalar.totalCmp : α → α → Ordering)]
  (s : Site α) (line : Segment α) (g : α)

theorem pairwise_sortAlong (points : List (SectionPoint α)) :
    (sortAlong line points).Pairwise fun a b => (alongOrder line a b).isLE := by
  refine List.pairwise_mergeSort (fun _ _ _ => Std.TransCmp.isLE_trans) (fun a b => ?_) points
  have hswap : alongOrder line b a = (alongOrder line a b).swap := Std.OrientedCmp.eq_swap
  rw [hswap]
  cases alongOrder line a b <;> rfl

theorem pairwise_interior :
    (s.interior line g).Pairwise fun a b => (alongOrder line a b).isLE := by
  have hrefl : ∀ p : Point2 α, (line.placeOrder p p).isLE := fun p => by
    have heq : line.placeOrder p p = .eq := Std.ReflCmp.compare_self
    rw [heq]
    rfl
  exact SectionPoint.pairwise_frameAfter (fun c => c.position.plan)
    (fun p q => (line.placeOrder p q).isLE) hrefl s.footOf_plan (pairwise_sortAlong line _)

end

/-! ## Every point is a place of the line -/

section
variable {K : Type} [ExactScalar K] (s : Site K) {line : Segment K} {g : K}
  {c : SectionPoint K}

theorem on_of_mem_terrainPoints (h : c ∈ s.terrainPoints line g) : line.On c.position.plan := by
  obtain ⟨x, hx, rfl⟩ := List.mem_map.mp h
  replace hx := (thin_sublist _ _).subset hx
  rw [terrainSamples] at hx
  split at hx
  · cases hx
  · next t _ => exact t.on_of_mem_walk hx

theorem on_of_crossing? {b : Boundary K} (h : s.crossing? line g b = some c) :
    line.On c.position.plan := by
  obtain ⟨⟨x, hx, hplan⟩, _⟩ := s.crossing?_spec h
  rw [hplan]
  exact line.on_left_of_intersect? b.segment hx

theorem on_of_mem_collected (h : c ∈ s.collected line g) : line.On c.position.plan := by
  rcases List.mem_append.mp h with h | h
  · exact s.on_of_mem_terrainPoints h
  · obtain ⟨b, _, hb⟩ := s.exists_of_mem_crossings h
    exact s.on_of_crossing? hb

theorem on_of_mem_interior (h : c ∈ s.interior line g) : line.On c.position.plan := by
  rcases s.mem_interior h with h | ⟨b, hb, _, rfl⟩
  · exact s.on_of_mem_collected h
  · rw [footOf_plan]
    exact s.on_of_mem_collected hb

/-- Every point of a profile is a place of its line. -/
theorem on_of_mem_profile {source receiver : Point3 K}
    (h : c ∈ (s.profile source receiver g).points) :
    (⟨source, receiver⟩ : Segment K).On c.position.plan := by
  rcases s.mem_sectionPoints ((s.profile_sublist source receiver g).subset h) with
    rfl | rfl | h | ⟨b, hb, _, rfl⟩
  · exact Segment.on_p0 _
  · exact Segment.on_p1 _
  · exact s.on_of_mem_collected h
  · rw [footOf_plan]
    exact s.on_of_mem_collected hb

/-- Every point of a profile projects into the line, between the source and the receiver. -/
theorem project_of_mem_profile {source receiver : Point3 K}
    (h : c ∈ (s.profile source receiver g).points) :
    let line : Segment K := ⟨source, receiver⟩
    0 ≤ line.project c.position.plan ∧ line.project c.position.plan ≤ 1 ∧
      line.project source.plan ≤ line.project c.position.plan ∧
      line.project c.position.plan ≤ line.project receiver.plan := by
  intro line
  have hon : line.On c.position.plan := s.on_of_mem_profile h
  exact ⟨(line.project_mem hon).1, (line.project_mem hon).2, line.project_p0_le hon,
    line.project_le_p1 hon⟩

/-- No point of a profile projects before an earlier one. -/
theorem pairwise_project_profile (source receiver : Point3 K) (g : K) :
    (s.profile source receiver g).points.Pairwise fun a b =>
      (⟨source, receiver⟩ : Segment K).project a.position.plan ≤
        (⟨source, receiver⟩ : Segment K).project b.position.plan := by
  have hrange := fun c => @project_of_mem_profile K _ s g c source receiver
  obtain ⟨inner, hinner, hpoints⟩ := s.profile_points source receiver g
  rw [hpoints] at hrange ⊢
  -- The order of the interior has projection as its first key; the ends have the range.
  refine List.pairwise_cons.mpr ⟨fun c hc => (hrange c (List.mem_cons_of_mem _ hc)).2.2.1, ?_⟩
  refine List.pairwise_append.mpr ⟨?_, List.pairwise_singleton _ _, fun c hc r hr => ?_⟩
  · exact ((s.pairwise_interior _ g).sublist hinner).imp fun h =>
      Scalar.isLE_totalCmp.mp (Ordering.isLE_left_of_isLE_then h)
  · rw [List.mem_singleton.mp hr]
    exact (hrange c (by simp [hc])).2.2.2

end

/-! ## The order of a profile -/

/-- **Ordering.** The points between the ends of a profile are in order along the line,
    whatever the arithmetic. In exact arithmetic every point of the profile projects into the
    line, not before the source and not beyond the receiver, and no point projects before an
    earlier one. -/
theorem profile_ordered :
    (∀ (α : Type) [Scalar α] [Std.TransCmp (Scalar.totalCmp : α → α → Ordering)] (s : Site α)
      (source receiver : Point3 α) (g : α),
      (s.profile source receiver g).points.tail.dropLast.Pairwise fun a b =>
        (alongOrder ⟨source, receiver⟩ a b).isLE) ∧
    (∀ (K : Type) [ExactScalar K] (s : Site K) (source receiver : Point3 K) (g : K),
      let line : Segment K := ⟨source, receiver⟩
      ((s.profile source receiver g).points.Pairwise fun a b =>
        line.project a.position.plan ≤ line.project b.position.plan) ∧
      ∀ c ∈ (s.profile source receiver g).points,
        0 ≤ line.project c.position.plan ∧ line.project c.position.plan ≤ 1 ∧
        line.project source.plan ≤ line.project c.position.plan ∧
        line.project c.position.plan ≤ line.project receiver.plan) := by
  constructor
  · intro α _ _ s source receiver g
    obtain ⟨inner, hinner, hpoints⟩ := s.profile_points source receiver g
    rw [hpoints, List.tail_cons, List.dropLast_concat]
    exact (s.pairwise_interior _ g).sublist hinner
  · intro K _ s source receiver g line
    exact ⟨s.pairwise_project_profile source receiver g, fun c hc => s.project_of_mem_profile hc⟩

/-! ## Behind three walls

  The line goes west through a house, and then meets three walls at one place. Its crossings are
  looked up in order, so that sorting leaves them as they are. -/

/-- Three walls that cross at one place, and a house behind them. -/
def walledHouse : Site Float :=
  ((Draft.empty Settings.default).afterAll
    [.building [⟨20, -5, 0⟩, ⟨30, -5, 0⟩, ⟨30, 5, 0⟩, ⟨20, 5, 0⟩] 3 [] 1,
     .wall [⟨10, -4, 0⟩, ⟨10, 4, 0⟩] 2 [] 2,
     .wall [⟨8, -4, 0⟩, ⟨12, 4, 0⟩] 2 [] 3,
     .wall [⟨12, -4, 0⟩, ⟨8, 4, 0⟩] 2 [] 4]).siteOver none

/-- A line through the house and the walls. -/
def throughWalledHouse : Segment Float := ⟨⟨40, 0, 1⟩, ⟨0, 0, 1⟩⟩

/-- A point of the line on an obstacle. -/
def onObstacle (kind : PointKind) (owner : Nat) (x z : Float) : SectionPoint Float :=
  ⟨⟨x, 0, z⟩, kind, some owner, 0.5, some [], false⟩

theorem alongPieces_walledHouse :
    walledHouse.alongPieces walledHouse.boundaryIndex throughWalledHouse = [1, 3, 4, 5, 6] := by
  have hquery : (throughWalledHouse.split walledHouse.settings.pieceLength).flatMap
      (fun piece => walledHouse.boundaryIndex.query piece.box) = [1, 3, 4, 5, 6] := by
    decide +kernel
  rw [alongPieces, hquery, sortedOnce_of_pairwise (by decide)]

theorem collected_walledHouse : walledHouse.collected throughWalledHouse 0.5 =
    [onObstacle .building 0 30 3, onObstacle .building 0 20 3, onObstacle .wall 0 10 2,
     onObstacle .wall 1 10 2, onObstacle .wall 2 10 2] := by
  rw [collected, crossings, alongPieces_walledHouse]
  decide +kernel

theorem sortAlong_walledHouse :
    sortAlong throughWalledHouse (walledHouse.collected throughWalledHouse 0.5) =
      walledHouse.collected throughWalledHouse 0.5 := by
  rw [collected_walledHouse]
  exact List.mergeSort_of_pairwise (by decide +kernel)

/-- The house has its feet, and of the three walls two are left. -/
theorem inner_walledHouse :
    (walledHouse.profile throughWalledHouse.p0 throughWalledHouse.p1 0.5).points.tail.dropLast =
      [onObstacle .building 0 30 0, onObstacle .building 0 30 3, onObstacle .building 0 20 3,
       onObstacle .building 0 20 0, onObstacle .wall 0 10 2, onObstacle .wall 1 10 2] := by
  have hline : (⟨throughWalledHouse.p0, throughWalledHouse.p1⟩ : Segment Float) =
      throughWalledHouse := rfl
  rw [profile, anchor_sectionPoints, hline, sectionPoints, interior, sortAlong_walledHouse,
    collected_walledHouse]
  decide +kernel

/-- The house and the walls are in order along the line, and so is, in exact arithmetic, the near
    side of a square of other ground between the ends of a line into it. -/
theorem profile_ordered_walledHouse :
    [onObstacle .building 0 30 0, onObstacle .building 0 30 3, onObstacle .building 0 20 3,
      onObstacle .building 0 20 0, onObstacle .wall 0 10 2, onObstacle .wall 1 10 2].Pairwise
        (fun a b => (alongOrder throughWalledHouse a b).isLE) ∧
    ∃ points, points = (squareSite.profile intoSquare.p0 intoSquare.p1 0).points ∧
      (∃ c ∈ points, c.kind = .ground ∧ c.position.plan = ⟨1, 0⟩) ∧
      points.Pairwise fun a b =>
        intoSquare.project a.position.plan ≤ intoSquare.project b.position.plan := by
  refine ⟨?_, _, rfl, exists_ground_point_square, (profile_ordered.2 ℝ squareSite _ _ 0).1⟩
  rw [← inner_walledHouse]
  exact profile_ordered.1 Float walledHouse _ _ 0.5

end Site

end SiteSection
