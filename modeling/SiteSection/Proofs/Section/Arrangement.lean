import Mathlib.Data.List.Sort
import SiteSection.Proofs.Section.Groups
import SiteSection.Proofs.Section.Order
import SiteSection.Proofs.Site.Lookup

/-! # How a section is arranged

  In exact arithmetic the points of a section stand in order along the line, and those at one
  location in the order of their kinds: terrain, buildings, walls, ground. Boundaries are filed
  in this order, and sorting is stable.

  So points of one kind at one location are neighbours, wherever they come from. A group of
  neighbours is all that there is of its kind at its location, and the clean-up of a section
  can be followed one kind and one location at a time.
-/

namespace SiteSection

/-! ## Looking up and sorting -/

/-- Elements that are looked up by increasing numbers come in their order. Where nothing that
    counts is left out, it is as if all had been looked up. -/
theorem filterMap_of_increasing {β γ : Type} {l : List β} {ids : List Nat} (f : β → Option γ)
    (hids : ids.Pairwise (· < ·))
    (hall : ∀ i b, l[i]? = some b → (f b).isSome = true → i ∈ ids) :
    (ids.filterMap (l[·]?)).filterMap f = l.filterMap f := by
  have hrange : l.filterMap f = (List.range l.length).filterMap fun i => (l[i]?).bind f := by
    clear hall
    induction l with
    | nil => rfl
    | cons b l ih =>
      rw [List.length_cons, List.range_succ_eq_map, List.filterMap_cons, List.filterMap_cons,
        List.filterMap_map, ih]
      rfl
  -- Only the numbers that count matter, and these are the same increasing numbers.
  have hcount : ∀ js : List Nat, js.filterMap (fun i => (l[i]?).bind f) =
      (js.filter fun i => ((l[i]?).bind f).isSome).filterMap fun i => (l[i]?).bind f := by
    intro js
    rw [List.filterMap_filter]
    apply List.filterMap_congr
    intro i _
    cases (l[i]?).bind f <;> simp
  have hsame : ids.filter (fun i => ((l[i]?).bind f).isSome) =
      (List.range l.length).filter fun i => ((l[i]?).bind f).isSome := by
    apply (hids.filter _).eq_of_mem_iff (List.pairwise_lt_range.filter _)
    intro i
    rw [List.mem_filter, List.mem_filter, and_congr_left_iff, List.mem_range]
    intro hsome
    obtain ⟨c, hc⟩ := Option.isSome_iff_exists.mp hsome
    obtain ⟨b, hb, hf⟩ := Option.bind_eq_some_iff.mp hc
    have hlt : i < l.length := (List.getElem?_eq_some_iff.mp hb).1
    have hmem : i ∈ ids := hall i b hb (by rw [hf]; rfl)
    exact iff_of_true hmem hlt
  rw [List.filterMap_filterMap, hrange, hcount ids, hcount (List.range l.length), hsame]

/-- Sorting leaves elements that are in order already in their order. -/
theorem filter_mergeSort {ι : Type} {le : ι → ι → Bool}
    (htrans : ∀ a b c, le a b = true → le b c = true → le a c = true)
    (htotal : ∀ a b, (le a b || le b a) = true) {q : ι → Bool} {l : List ι}
    (hsorted : (l.filter q).Pairwise fun a b => le a b = true) :
    (l.mergeSort le).filter q = l.filter q := by
  have hsub : (l.filter q).Sublist ((l.mergeSort le).filter q) := by
    have h := (List.sublist_mergeSort htrans htotal hsorted List.filter_sublist).filter q
    simpa using h
  exact (hsub.eq_of_length ((List.mergeSort_perm l le).filter q).length_eq.symm).symm

/-- Sorting leaves points that are in order along the line in their order. -/
theorem Site.filter_sortAlong_of_pairwise {α : Type} [Scalar α]
    [Std.TransCmp (Scalar.totalCmp : α → α → Ordering)] {line : Segment α}
    {q : SectionPoint α → Bool} {points : List (SectionPoint α)}
    (hsorted : (points.filter q).Pairwise fun a b => (alongOrder line a b).isLE = true) :
    (sortAlong line points).filter q = points.filter q := by
  refine filter_mergeSort (fun _ _ _ => Std.TransCmp.isLE_trans) (fun a b => ?_) hsorted
  have hswap : alongOrder line b a = (alongOrder line a b).swap := Std.OrientedCmp.eq_swap
  rw [hswap]
  cases alongOrder line a b <;> rfl

/-! ## Kinds in order -/

/-- The place of a kind among points at one location. -/
def PointKind.rank : PointKind → Nat
  | .source => 0
  | .terrain => 1
  | .building => 2
  | .wall => 3
  | .ground => 4
  | .receiver => 5

theorem PointKind.rank_inj {j k : PointKind} (h : j.rank = k.rank) : j = k := by
  cases j <;> cases k <;> first | rfl | cases h

namespace Site

section
variable {α : Type} [Circular α] {s : Site α}

/-- The boundaries of a sealed site are the sides of its buildings, its walls, and the borders
    of its regions. -/
theorem IsSealed.boundaries_eq (h : s.IsSealed) :
    s.boundaries = (s.buildings.zipIdx.flatMap fun (b, i) => b.sides i) ++ s.walls ++
      s.regions.zipIdx.flatMap fun (g, i) => g.border i := by
  obtain ⟨settings, calls, terrain, rfl⟩ := h
  rfl

theorem IsSealed.kind_of_mem_walls (h : s.IsSealed) : ∀ w ∈ s.walls, w.kind = .wall := by
  obtain ⟨settings, calls, terrain, rfl⟩ := h
  intro w hw
  obtain ⟨w', hw', rfl⟩ := List.mem_map.mp hw
  exact (Draft.sound_afterAll settings calls).2 w' hw'

omit [Circular α] in
theorem kind_of_mem_sides {bs : List (Building α × Nat)} :
    ∀ b ∈ bs.flatMap (fun (b, i) => b.sides i), b.kind = .building := by
  intro b hb
  obtain ⟨_, _, hside⟩ := List.mem_flatMap.mp hb
  obtain ⟨e, _, rfl⟩ := List.mem_map.mp hside
  rfl

theorem kind_of_mem_borders {rs : List (GroundRegion α × Nat)} :
    ∀ b ∈ rs.flatMap (fun (g, i) => g.border i), b.kind = .ground := by
  intro b hb
  obtain ⟨_, _, hborder⟩ := List.mem_flatMap.mp hb
  obtain ⟨_, _, hedge⟩ := List.mem_flatMap.mp hborder
  obtain ⟨e, _, rfl⟩ := List.mem_map.mp hedge
  rfl

/-- The boundaries are filed by kind. -/
theorem IsSealed.pairwise_boundaries (h : s.IsSealed) :
    s.boundaries.Pairwise fun a b => a.kind.rank ≤ b.kind.rank := by
  have hone : ∀ {k : PointKind} {bs : List (Boundary α)}, (∀ b ∈ bs, b.kind = k) →
      bs.Pairwise fun a b => a.kind.rank ≤ b.kind.rank := by
    intro k bs hk
    apply List.pairwise_of_forall_mem_list
    intro a ha b hb
    rw [hk a ha, hk b hb]
  rw [h.boundaries_eq]
  refine List.pairwise_append.mpr ⟨List.pairwise_append.mpr ⟨hone kind_of_mem_sides,
    hone h.kind_of_mem_walls, ?_⟩, hone kind_of_mem_borders, ?_⟩
  · intro a ha b hb
    rw [kind_of_mem_sides a ha, h.kind_of_mem_walls b hb]
    decide
  · intro a ha b hb
    rw [kind_of_mem_borders b hb]
    rcases List.mem_append.mp ha with ha | ha
    · rw [kind_of_mem_sides a ha]
      decide
    · rw [h.kind_of_mem_walls a ha]
      decide

end

section
variable {K : Type} [ExactCircular K] {s : Site K}

/-- The crossings of a line are those of all boundaries, in the order of the boundaries. -/
theorem IsSealed.crossings_eq (h : s.IsSealed) (line : Segment K) (g : K) :
    s.crossings line g = s.boundaries.filterMap (s.crossing? line g) := by
  apply filterMap_of_increasing _ (pairwise_sortedOnce _)
  intro i b hb hsome
  obtain ⟨c, hc⟩ := Option.isSome_iff_exists.mp hsome
  obtain ⟨⟨x, hx, _⟩, _⟩ := s.crossing?_spec hc
  exact h.mem_alongPieces_of_intersect? hb hx

/-- What a line meets is collected by kind. -/
theorem IsSealed.pairwise_collected (h : s.IsSealed) (line : Segment K) (g : K) :
    (s.collected line g).Pairwise fun a b => a.kind.rank ≤ b.kind.rank := by
  have hterrain : ∀ c ∈ s.terrainPoints line g, c.kind = .terrain := by
    intro c hc
    obtain ⟨p, _, rfl⟩ := List.mem_map.mp hc
    rfl
  refine List.pairwise_append.mpr ⟨?_, ?_, ?_⟩
  · apply List.pairwise_of_forall_mem_list
    intro a ha b hb
    rw [hterrain a ha, hterrain b hb]
  · rw [h.crossings_eq]
    refine List.pairwise_filterMap.mpr (h.pairwise_boundaries.imp ?_)
    intro a b hab c hc d hd
    rw [(s.crossing?_spec hc).2.1, (s.crossing?_spec hd).2.1]
    exact hab
  · intro a ha b hb
    obtain ⟨w, _, hw⟩ := List.mem_filterMap.mp hb
    rw [hterrain a ha]
    rcases (s.crossing?_spec hw).2.2 with ⟨hkind, _⟩ | ⟨hkind, _⟩ | ⟨hkind, _⟩ <;>
      (rw [hkind]; decide)

end

end Site

/-! ## Spots

  A spot is a kind and a plan location. The points at one spot are those at one place. -/

/-- The kind and the plan location of a point. -/
def SectionPoint.spot {α : Type} (c : SectionPoint α) : PointKind × Point2 α :=
  (c.kind, c.position.plan)

section
variable {K : Type} [ExactScalar K] {line : Segment K} {l m n : PointKind × Point2 K}

theorem SectionPoint.samePlace_iff_spot {a b : SectionPoint K} :
    a.samePlace b = true ↔ a.spot = b.spot := by
  rw [samePlace_iff, Point2.beq_eq_true, spot, spot, Prod.mk.injEq]

/-- The order of spots along a line: by projection, and at one location by kind. -/
def Segment.InOrder (line : Segment K) (m n : PointKind × Point2 K) : Prop :=
  line.project m.2 < line.project n.2 ∨ m.2 = n.2 ∧ m.1.rank ≤ n.1.rank

namespace Segment.InOrder

theorem refl (m : PointKind × Point2 K) : line.InOrder m m := .inr ⟨rfl, le_refl _⟩

theorem project_le (h : line.InOrder m n) : line.project m.2 ≤ line.project n.2 := by
  rcases h with h | ⟨h, _⟩
  · exact h.le
  · rw [h]

theorem trans (h : line.InOrder l m) (h' : line.InOrder m n) : line.InOrder l n := by
  rcases h with h | ⟨h, hrank⟩
  · exact .inl (lt_of_lt_of_le h h'.project_le)
  · rcases h' with h' | ⟨h', hrank'⟩
    · exact .inl (h ▸ h')
    · exact .inr ⟨h.trans h', hrank.trans hrank'⟩

theorem antisymm (h : line.InOrder m n) (h' : line.InOrder n m) : m = n := by
  rcases h with h | ⟨h, hrank⟩
  · exact absurd h (not_lt.mpr h'.project_le)
  · rcases h' with h' | ⟨_, hrank'⟩
    · rw [h] at h'
      exact absurd h' (lt_irrefl _)
    · exact Prod.ext (PointKind.rank_inj (le_antisymm hrank hrank')) h

end Segment.InOrder

end

/-! ## Sections in order -/

section
variable {K : Type} [ExactScalar K] {line : Segment K} {points : List (SectionPoint K)}

/-- Places of a line with one projection are one place. -/
theorem Segment.eq_of_project_eq {p q : Point2 K} (hp : line.On p) (hq : line.On q)
    (h : line.project p = line.project q) : p = q := by
  rw [← line.pointAt_project hp, ← line.pointAt_project hq, h]

/-- Points stand in order along a line. -/
def SectionPoint.Arranged (line : Segment K) (points : List (SectionPoint K)) : Prop :=
  points.Pairwise fun a b => line.InOrder a.spot b.spot

/-- Sorting leaves points at one location in their order. -/
theorem Site.filter_sortAlong {q : SectionPoint K → Bool}
    (hq : ∀ a b, q a = true → q b = true → a.position.plan = b.position.plan)
    (points : List (SectionPoint K)) : (sortAlong line points).filter q = points.filter q := by
  apply filter_sortAlong_of_pairwise
  refine List.pairwise_of_forall_mem_list fun a ha b hb => ?_
  have hrefl : alongOrder line b b = .eq := Std.ReflCmp.compare_self
  have heq : alongOrder line a b = alongOrder line b b := by
    rw [alongOrder, alongOrder, hq a b (List.mem_filter.mp ha).2 (List.mem_filter.mp hb).2]
  rw [heq, hrefl]
  rfl

open SectionPoint in
theorem Site.arranged_sortAlong (hon : ∀ c ∈ points, line.On c.position.plan)
    (hrank : points.Pairwise fun a b => a.kind.rank ≤ b.kind.rank) :
    Arranged line (sortAlong line points) := by
  rw [Arranged, List.pairwise_iff_forall_sublist]
  intro a b hab
  have ha : a ∈ points := List.mem_mergeSort.mp (hab.subset (by simp))
  have hb : b ∈ points := List.mem_mergeSort.mp (hab.subset (by simp))
  have hproject : line.project a.position.plan ≤ line.project b.position.plan :=
    Scalar.isLE_totalCmp.mp (Ordering.isLE_left_of_isLE_then
      (List.pairwise_iff_forall_sublist.mp (pairwise_sortAlong line points) hab))
  rcases lt_or_eq_of_le hproject with hlt | heq
  · exact .inl hlt
  · -- Points at one location are in the order in which they were collected.
    have hplan : a.position.plan = b.position.plan :=
      Segment.eq_of_project_eq (hon a ha) (hon b hb) heq
    refine .inr ⟨hplan, ?_⟩
    have hfilter : (sortAlong line points).filter (fun c => c.position.plan = b.position.plan) =
        points.filter fun c => c.position.plan = b.position.plan := by
      apply filter_sortAlong
      intro c d hc hd
      rw [of_decide_eq_true hc, of_decide_eq_true hd]
    have hsub := hab.filter fun c => decide (c.position.plan = b.position.plan)
    rw [hfilter] at hsub
    simp only [hplan, decide_true, List.filter_cons_of_pos, List.filter_nil] at hsub
    exact List.pairwise_iff_forall_sublist.mp hrank (hsub.trans List.filter_sublist)

end

section
variable {K : Type} [ExactCircular K] {s : Site K}

open SectionPoint in
/-- A section is in order, its ends included. -/
theorem Site.IsSealed.arranged_sectionPoints (h : s.IsSealed) (line : Segment K) (g : K) :
    Arranged line (s.sectionPoints line g) := by
  have hfoot : ∀ c, (s.footOf c).spot = c.spot := fun _ => rfl
  have hinterior : Arranged line (s.interior line g) :=
    pairwise_frameAfter spot line.InOrder Segment.InOrder.refl hfoot
      (arranged_sortAlong (fun c hc => s.on_of_mem_collected hc)
        (h.pairwise_collected line g))
  -- The ends project not before 0 and not beyond 1, and their kinds have the ends of the ranks.
  have hsource : ∀ c ∈ s.interior line g,
      line.InOrder (s.sourcePoint line.p0 g).spot c.spot := by
    intro c hc
    have hon : line.On c.position.plan := s.on_of_mem_interior hc
    rcases lt_or_eq_of_le (line.project_p0_le hon) with hlt | heq
    · exact .inl hlt
    · exact .inr ⟨Segment.eq_of_project_eq line.on_p0 hon heq, Nat.zero_le _⟩
  have hreceiver : ∀ c : SectionPoint K, line.On c.position.plan → c.kind.rank ≤ 5 →
      line.InOrder c.spot (s.receiverPoint line.p1 g).spot := by
    intro c hon hrank
    rcases lt_or_eq_of_le (line.project_le_p1 hon) with hlt | heq
    · exact .inl hlt
    · exact .inr ⟨Segment.eq_of_project_eq hon line.on_p1 heq, hrank⟩
  have hrank : ∀ k : PointKind, k.rank ≤ 5 := fun k => by cases k <;> decide
  refine List.pairwise_cons.mpr ⟨?_, List.pairwise_append.mpr
    ⟨hinterior, List.pairwise_singleton _ _, ?_⟩⟩
  · intro c hc
    rcases List.mem_append.mp hc with hc | hc
    · exact hsource c hc
    · rw [List.mem_singleton.mp hc]
      exact hreceiver (s.sourcePoint line.p0 g) line.on_p0 (hrank _)
  · intro c hc r hr
    rw [List.mem_singleton.mp hr]
    exact hreceiver c (s.on_of_mem_interior hc) (hrank _)

end

/-! ## Groups of points in order -/

namespace SectionPoint

section
variable {K : Type} [ExactScalar K] {line : Segment K} {points G : List (SectionPoint K)}

/-- The points of a group are at one spot. -/
theorem spot_eq_of_mem_places (hG : G ∈ places points) {a b : SectionPoint K} (ha : a ∈ G)
    (hb : b ∈ G) : a.spot = b.spot := by
  rcases eq_or_samePlace hG ha hb with rfl | hab
  · rfl
  · exact samePlace_iff_spot.mp hab

/-- Where points stand in order, no two groups are at one place. -/
theorem Arranged.pairwise_apart (h : Arranged line points) : (places points).Pairwise Apart := by
  -- From group to group the points go on, and never come back.
  let goesOn := fun G H : List (SectionPoint K) => G ≠ [] ∧ H ≠ [] ∧
    ∀ a ∈ G, ∀ b ∈ H, line.InOrder a.spot b.spot ∧ a.spot ≠ b.spot
  have hflatten : (places points).flatten = points := List.flatten_splitBy _ _
  have hbetween : (places points).Pairwise fun G H =>
      ∀ a ∈ G, ∀ b ∈ H, line.InOrder a.spot b.spot := by
    rw [Arranged, ← hflatten] at h
    exact (List.pairwise_flatten.mp h).2
  have hchain : (places points).IsChain goesOn := by
    rw [List.isChain_iff_forall_rel_of_append_cons_cons]
    intro G H front back hsplit
    have horder := List.isChain_iff_forall_rel_of_append_cons_cons.mp hbetween.isChain hsplit
    have hapart := List.isChain_iff_forall_rel_of_append_cons_cons.mp (isChain_apart points) hsplit
    have hG : G ∈ places points := by simp [hsplit]
    have hH : H ∈ places points := by simp [hsplit]
    refine ⟨List.ne_nil_of_mem_splitBy hG, List.ne_nil_of_mem_splitBy hH, ?_⟩
    intro a ha b hb
    refine ⟨horder a ha b hb, fun hab => ?_⟩
    have hfalse := hapart a ha b hb
    rw [samePlace_iff_spot.mpr hab] at hfalse
    cases hfalse
  have htrans : ∀ {F G H}, goesOn F G → goesOn G H → goesOn F H := by
    intro F G H hFG hGH
    refine ⟨hFG.1, hGH.2.1, fun a ha c hc => ?_⟩
    obtain ⟨b, hb⟩ := List.exists_mem_of_ne_nil G hGH.1
    have hab := hFG.2.2 a ha b hb
    have hbc := hGH.2.2 b hb c hc
    refine ⟨hab.1.trans hbc.1, fun hac => hab.2 ?_⟩
    exact hab.1.antisymm (hac ▸ hbc.1)
  have : Trans goesOn goesOn goesOn := ⟨htrans⟩
  apply hchain.pairwise.imp
  intro G H hGH a ha b hb
  apply Bool.eq_false_iff.mpr
  intro hab
  exact (hGH.2.2 a ha b hb).2 (samePlace_iff_spot.mp hab)

end

/-! ## Clean-up spot by spot -/

section
variable {α : Type} {G : List (SectionPoint α)}

/-- Does the point mark something else than a building? -/
def notBuilding (c : SectionPoint α) : Bool := !c.isBuilding

theorem filter_notBuilding_of_building (h : ∀ c ∈ G, c.isBuilding = true) :
    G.filter notBuilding = [] :=
  List.filter_eq_nil_iff.mpr fun c hc => by simp [notBuilding, h c hc]

/-- Framing adds building points only. -/
theorem filter_frameAfter {base : SectionPoint α → SectionPoint α} {q : SectionPoint α → Bool}
    (hq : ∀ c, q c = true → c.isBuilding = false) (hbase : ∀ c, (base c).kind = c.kind)
    (previous : Option (SectionPoint α)) (points : List (SectionPoint α)) :
    (frameAfter base previous points).filter q = points.filter q := by
  have hout : ∀ c : SectionPoint α, c.isBuilding = true → q c = false := by
    intro c hc
    apply Bool.eq_false_iff.mpr
    intro hqc
    rw [hq c hqc] at hc
    cases hc
  induction points generalizing previous with
  | nil => rfl
  | cons c rest ih =>
    rw [frameAfter]
    by_cases hc : c.isBuilding = true
    · have hfoot : q (base c) = false := hout _ (by rw [isBuilding, hbase]; exact hc)
      have hfeet : ∀ {p : Bool}, (if p then [base c] else []).filter q = [] := by
        intro p
        cases p <;> simp [hfoot]
      rw [if_pos hc, List.filter_append, hfeet, List.nil_append, List.filter_cons, hout c hc,
        List.filter_append, hfeet, ih, List.filter_cons, hout c hc]
      rfl
    · rw [if_neg hc, List.filter_cons, List.filter_cons, ih]

end

section
variable {K : Type} [ExactScalar K] {groups : List (List (SectionPoint K))}
  {points : List (SectionPoint K)}
  (policy : ConflictPolicy) (ahead : Point2 K → K)

/-- Groups of neighbours, no two of them at one place. -/
structure Grouped (groups : List (List (SectionPoint K))) : Prop where
  /-- The points of a group are at one spot. -/
  spot_eq : ∀ G ∈ groups, ∀ a ∈ G, ∀ b ∈ G, a.spot = b.spot
  /-- The groups are at different places. -/
  apart : groups.Pairwise Apart

namespace Grouped

theorem of_arranged {line : Segment K} (h : Arranged line points) : Grouped (places points) where
  spot_eq := fun _ hG _ ha _ hb => spot_eq_of_mem_places hG ha hb
  apart := h.pairwise_apart

variable {G : List (SectionPoint K)}

theorem tail (h : Grouped (G :: groups)) : Grouped groups where
  spot_eq := fun H hH => h.spot_eq H (List.mem_cons_of_mem G hH)
  apart := h.apart.tail

/-- Behind a group there is no point at its spot. -/
theorem spot_ne (h : Grouped (G :: groups)) {a b : SectionPoint K} (ha : a ∈ G)
    (hb : b ∈ groups.flatten) : b.spot ≠ a.spot := by
  obtain ⟨H, hH, hb⟩ := List.mem_flatten.mp hb
  intro hspot
  have hapart : a.samePlace b = false := List.rel_of_pairwise_cons h.apart hH a ha b hb
  rw [samePlace_iff_spot.mpr hspot.symm] at hapart
  cases hapart

/-- The points of a group are all of a building or none is. -/
theorem isBuilding_eq (h : Grouped groups) (hG : G ∈ groups) {a b : SectionPoint K}
    (ha : a ∈ G) (hb : b ∈ G) : a.isBuilding = b.isBuilding := by
  have hkind : a.kind = b.kind := congrArg Prod.fst (h.spot_eq G hG a ha b hb)
  rw [isBuilding, isBuilding, hkind]

end Grouped

/-- What is left of some groups, capped and settled, is left of the groups. -/
theorem mem_flatten_of_settleGroups {k : Nat} {c : SectionPoint K}
    (h : c ∈ (settleGroups policy ahead k (groups.map capRuns)).flatten) :
    c ∈ groups.flatten := by
  obtain ⟨O, hO, hc⟩ := List.mem_flatten.mp h
  obtain ⟨G', hG', j, rfl⟩ := mem_settleGroups hO
  obtain ⟨G, hG, rfl⟩ := List.mem_map.mp hG'
  have hc : c ∈ capRuns G := (settleGroup_sublist policy ahead j _).subset hc
  exact List.mem_flatten.mpr ⟨G, hG, (capRuns_sublist G).subset hc⟩

/-- What is left of a group of building points, and that it counts nothing. -/
theorem settleGroup_capRuns_of_building (k : Nat) {G : List (SectionPoint K)}
    (h : ∀ c ∈ G, c.isBuilding = true) : settleGroup policy ahead k (capRuns G) = (G, k) := by
  rw [capRuns, capAfter_of_building [] h]
  apply settleGroup_of_isChain
  apply List.Pairwise.isChain
  apply List.pairwise_of_forall_mem_list
  intro a ha b _
  simp [conflicts, h a ha]

/-- Of the points at one spot there is left what is left of them by themselves, for some number
    of conflicts settled before. -/
theorem filter_spot_settleGroups (h : Grouped groups) (m : PointKind × Point2 K) (k : Nat) :
    ∃ j, ((settleGroups policy ahead k (groups.map capRuns)).flatten.filter fun c => c.spot = m) =
      (settleGroup policy ahead j (capRuns (groups.flatten.filter fun c => c.spot = m))).1 := by
  induction groups generalizing k with
  | nil => exact ⟨0, by cases policy <;> simp [settleGroups, settleGroup]⟩
  | cons G groups ih =>
    obtain ⟨j, hj⟩ := ih h.tail (settleGroup policy ahead k (capRuns G)).2
    have hsub : (settleGroup policy ahead k (capRuns G)).1.Sublist G :=
      (settleGroup_sublist policy ahead k _).trans (capRuns_sublist G)
    rw [List.map_cons, settleGroups, List.flatten_cons, List.flatten_cons, List.filter_append,
      List.filter_append]
    by_cases hm : ∃ a ∈ G, a.spot = m
    · -- All of the group is at the spot, and nothing behind it.
      obtain ⟨a, ha, rfl⟩ := hm
      have hhere : ∀ b ∈ G, decide (b.spot = a.spot) = true := fun b hb =>
        decide_eq_true (h.spot_eq G List.mem_cons_self b hb a ha)
      have hrest : groups.flatten.filter (fun c => c.spot = a.spot) = [] :=
        List.filter_eq_nil_iff.mpr fun b hb => by simpa using h.spot_ne ha hb
      have hleft : (settleGroups policy ahead (settleGroup policy ahead k (capRuns G)).2
          (groups.map capRuns)).flatten.filter (fun c => c.spot = a.spot) = [] :=
        List.filter_eq_nil_iff.mpr fun b hb => by
          simpa using h.spot_ne ha (mem_flatten_of_settleGroups policy ahead hb)
      refine ⟨k, ?_⟩
      rw [hrest, hleft, List.append_nil, List.append_nil, List.filter_eq_self.mpr hhere,
        List.filter_eq_self.mpr fun b hb => hhere b (hsub.subset hb)]
    · have hnone : ∀ b ∈ G, ¬ decide (b.spot = m) = true := fun b hb hbm =>
        hm ⟨b, hb, of_decide_eq_true hbm⟩
      refine ⟨j, ?_⟩
      rw [List.filter_eq_nil_iff.mpr hnone,
        List.filter_eq_nil_iff.mpr fun b hb => hnone b (hsub.subset hb), List.nil_append,
        List.nil_append, hj]

/-- A group is of buildings, or of nothing that is of a building. -/
theorem Grouped.building_or_all (h : Grouped groups) {G : List (SectionPoint K)}
    (hG : G ∈ groups) : (∀ c ∈ G, c.isBuilding = true) ∨ G.all notBuilding = true := by
  by_cases hb : ∃ a ∈ G, a.isBuilding = true
  · obtain ⟨a, ha, hbuilding⟩ := hb
    exact .inl fun c hc => (h.isBuilding_eq hG hc ha).trans hbuilding
  · refine .inr (List.all_eq_true.mpr fun c hc => ?_)
    cases hbuilding : c.isBuilding with
    | true => exact absurd ⟨c, hc, hbuilding⟩ hb
    | false => simp [notBuilding, hbuilding]

/-- The points of the groups that are not of buildings. -/
theorem Grouped.filter_flatten (h : Grouped groups) :
    groups.flatten.filter notBuilding = (groups.filter (·.all notBuilding)).flatten := by
  induction groups with
  | nil => rfl
  | cons G groups ih =>
    rw [List.flatten_cons, List.filter_append, ih h.tail, List.filter_cons]
    by_cases hall : G.all notBuilding = true
    · rw [if_pos hall, List.flatten_cons, List.filter_eq_self.mpr (List.all_eq_true.mp hall)]
    · have hbuilding := (h.building_or_all List.mem_cons_self).resolve_right hall
      rw [if_neg hall, filter_notBuilding_of_building hbuilding, List.nil_append]

/-- The other points are left as if there were no building points. -/
theorem filter_notBuilding_settleGroups (h : Grouped groups) (k : Nat) :
    (settleGroups policy ahead k (groups.map capRuns)).flatten.filter notBuilding =
      (settleGroups policy ahead k
        ((groups.filter (·.all notBuilding)).map capRuns)).flatten := by
  induction groups generalizing k with
  | nil => rfl
  | cons G groups ih =>
    rw [List.map_cons, settleGroups, List.flatten_cons, List.filter_append, ih h.tail,
      List.filter_cons]
    by_cases hall : G.all notBuilding = true
    · have hsub : (settleGroup policy ahead k (capRuns G)).1.Sublist G :=
        (settleGroup_sublist policy ahead k _).trans (capRuns_sublist G)
      rw [if_pos hall, List.map_cons, settleGroups, List.flatten_cons,
        List.filter_eq_self.mpr fun c hc => List.all_eq_true.mp hall c (hsub.subset hc)]
    · -- A group of building points goes, and leaves the count as it was.
      have hbuilding := (h.building_or_all List.mem_cons_self).resolve_right hall
      rw [if_neg hall, settleGroup_capRuns_of_building policy ahead k hbuilding,
        filter_notBuilding_of_building hbuilding, List.nil_append]

/-- Without building points the other groups stay what they are. -/
theorem places_filter_notBuilding (h : Grouped (places points)) :
    places (points.filter notBuilding) = (places points).filter (·.all notBuilding) := by
  have hpoints : (places points).flatten = points := List.flatten_splitBy _ _
  have hfilter : points.filter notBuilding =
      ((places points).filter (·.all notBuilding)).flatten := by
    rw [← h.filter_flatten, hpoints]
  have hmem : ∀ {G}, G ∈ (places points).filter (·.all notBuilding) → G ∈ places points :=
    fun hG => (List.mem_filter.mp hG).1
  rw [hfilter]
  apply List.splitBy_flatten
  · intro hnil
    exact List.nil_notMem_splitBy _ _ (hmem hnil)
  · intro G hG
    exact List.isChain_of_mem_splitBy (hmem hG)
  · apply (h.apart.filter _).isChain.imp_of_mem_imp
    intro G H hG hH hapart
    have hGne : G ≠ [] := List.ne_nil_of_mem_splitBy (hmem hG)
    have hHne : H ≠ [] := List.ne_nil_of_mem_splitBy (hmem hH)
    exact ⟨hGne, hHne, hapart _ (List.getLast_mem hGne) _ (List.head_mem hHne)⟩

end

/-- Points in order are known from the points at each spot. -/
theorem Arranged.eq_of_filter_spot {K : Type} [ExactScalar K] {line : Segment K}
    {points points' : List (SectionPoint K)} (h : Arranged line points)
    (h' : Arranged line points')
    (hspot : ∀ m, points.filter (fun c => c.spot = m) = points'.filter fun c => c.spot = m) :
    points = points' := by
  have hmem : ∀ {l l' : List (SectionPoint K)}, (∀ m, l.filter (fun c => c.spot = m) =
      l'.filter fun c => c.spot = m) → ∀ c ∈ l, c ∈ l' := by
    intro l l' hll c hc
    have hfilter : c ∈ l.filter fun d => d.spot = c.spot := List.mem_filter.mpr ⟨hc, by simp⟩
    rw [hll] at hfilter
    exact (List.mem_filter.mp hfilter).1
  induction points generalizing points' with
  | nil =>
    apply Eq.symm
    apply List.eq_nil_iff_forall_not_mem.mpr
    intro c hc
    exact List.not_mem_nil (hmem (fun m => (hspot m).symm) c hc)
  | cons a points ih =>
    match points', h', hspot with
    | [], _, hspot => exact absurd (hmem hspot a List.mem_cons_self) List.not_mem_nil
    | b :: points', h', hspot =>
      -- Each list begins with a least spot, so with the same, and there with the same point.
      have hab : line.InOrder a.spot b.spot := by
        rcases List.mem_cons.mp (hmem (fun m => (hspot m).symm) b List.mem_cons_self) with hb | hb
        · rw [hb]
          exact .refl _
        · exact List.rel_of_pairwise_cons h hb
      have hba : line.InOrder b.spot a.spot := by
        rcases List.mem_cons.mp (hmem hspot a List.mem_cons_self) with ha | ha
        · rw [ha]
          exact .refl _
        · exact List.rel_of_pairwise_cons h' ha
      have heq : a.spot = b.spot := hab.antisymm hba
      have hhead : a = b := by
        have hfilter := hspot b.spot
        rw [List.filter_cons_of_pos (by simpa using heq), List.filter_cons_of_pos (by simp),
          List.cons_eq_cons] at hfilter
        exact hfilter.1
      subst hhead
      have htail : points = points' := by
        apply ih (List.Pairwise.of_cons h) (List.Pairwise.of_cons h')
        intro m
        have hfilter := hspot m
        rw [List.filter_cons, List.filter_cons] at hfilter
        split at hfilter
        · exact (List.cons_eq_cons.mp hfilter).2
        · exact hfilter
      rw [htail]

end SectionPoint

/-! ## Profiles spot by spot -/

namespace Site

variable {K : Type} [ExactCircular K] {s : Site K} {source receiver : Point3 K} {g : K}

open SectionPoint

/-- What is not of a building stands between the ends as it was collected. -/
theorem filter_interior (s : Site K) (line : Segment K) (g : K) {q : SectionPoint K → Bool}
    (hq : ∀ c, q c = true → c.isBuilding = false)
    (hplan : ∀ a b, q a = true → q b = true → a.position.plan = b.position.plan) :
    (s.interior line g).filter q = (s.collected line g).filter q := by
  rw [interior, frame, filter_frameAfter hq s.footOf_kind, filter_sortAlong hplan]

theorem IsSealed.grouped (h : s.IsSealed) (line : Segment K) (g : K) :
    Grouped (places (s.sectionPoints line g)) :=
  .of_arranged (h.arranged_sectionPoints line g)

theorem flatten_places (points : List (SectionPoint K)) : (places points).flatten = points :=
  List.flatten_splitBy _ _

/-- The other points of a profile are those of the section without building points, cleaned
    up. -/
theorem IsSealed.filter_notBuilding_profile (h : s.IsSealed) :
    (s.profile source receiver g).points.filter notBuilding =
      (settleGroups s.settings.policy (s.groundAhead ⟨source, receiver⟩ g) 0
        ((places ((s.sectionPoints ⟨source, receiver⟩ g).filter notBuilding)).map
          capRuns)).flatten := by
  rw [s.points_eq_flatten, filter_notBuilding_settleGroups _ _ (h.grouped _ g),
    places_filter_notBuilding (h.grouped _ g)]

/-- A wall or the border of a region is met where a profile says so, and what the profile says
    of it is what is left of all that is met of this kind at this location. -/
theorem IsSealed.filter_spot_profile (h : s.IsSealed) {m : PointKind × Point2 K}
    (hm : m.1 = .wall ∨ m.1 = .ground) :
    ∃ j, ((s.profile source receiver g).points.filter fun c => c.spot = m) =
      (settleGroup s.settings.policy (s.groundAhead ⟨source, receiver⟩ g) j
        (capRuns ((s.crossings ⟨source, receiver⟩ g).filter fun c => c.spot = m))).1 := by
  obtain ⟨j, hj⟩ := filter_spot_settleGroups s.settings.policy
    (s.groundAhead ⟨source, receiver⟩ g) (h.grouped ⟨source, receiver⟩ g) m 0
  refine ⟨j, ?_⟩
  have hkind : ∀ c : SectionPoint K, c.kind ≠ .wall → c.kind ≠ .ground → ¬ c.spot = m := by
    intro c hwall hground hc
    rw [← hc] at hm
    exact hm.elim hwall hground
  have hcollected : (s.interior ⟨source, receiver⟩ g).filter (fun c => c.spot = m) =
      (s.collected ⟨source, receiver⟩ g).filter fun c => c.spot = m := by
    apply filter_interior
    · intro c hc
      rw [decide_eq_true_eq] at hc
      rw [← hc] at hm
      rcases hm with hm | hm <;> simp [isBuilding, show c.kind = _ from hm]
    · intro a b ha hb
      rw [decide_eq_true_eq] at ha hb
      exact congrArg Prod.snd (ha.trans hb.symm)
  have hterrain : (s.terrainPoints ⟨source, receiver⟩ g).filter (fun c => c.spot = m) = [] := by
    apply List.filter_eq_nil_iff.mpr
    intro c hc
    obtain ⟨p, _, rfl⟩ := List.mem_map.mp hc
    simpa using hkind (.plain p .terrain _) (by simp) (by simp)
  have hsection : (s.sectionPoints ⟨source, receiver⟩ g).filter (fun c => c.spot = m) =
      (s.crossings ⟨source, receiver⟩ g).filter fun c => c.spot = m := by
    have hsource := hkind (s.sourcePoint source g) (by simp [sourcePoint]) (by simp [sourcePoint])
    have hreceiver := hkind (s.receiverPoint receiver g) (by simp [receiverPoint])
      (by simp [receiverPoint])
    have hlist : s.sectionPoints ⟨source, receiver⟩ g = s.sourcePoint source g ::
        (s.interior ⟨source, receiver⟩ g ++ [s.receiverPoint receiver g]) := rfl
    rw [hlist, List.filter_cons_of_neg (by simpa using hsource), List.filter_append, hcollected,
      List.filter_cons_of_neg (by simpa using hreceiver), List.filter_nil, List.append_nil,
      collected, List.filter_append, hterrain, List.nil_append]
  rw [s.points_eq_flatten, hj, flatten_places, hsection]

end Site

end SiteSection
