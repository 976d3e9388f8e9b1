import SiteSection.Proofs.Section.Feet
import SiteSection.Proofs.Section.GroundSteps

/-! # Sections read backwards

  In exact arithmetic a line and the line turned around meet the same boundaries at the same
  places, unless a boundary runs along them. Only the ground ahead of a border depends on the
  direction. The feet of buildings are the same as well, if no sides of two buildings meet on
  the line: whether a crossing begins or ends a block is told by its neighbours, and their
  order is reversed.

  But sorting is stable, and boundaries are filed by kind. So the places of a section come in
  the opposite order, and the points at one place do not: in either direction buildings come
  first, then walls, then borders. A section is thus told by its stops, each a place with the
  kinds that are met there.
-/

namespace SiteSection

/-! ## A line turned around -/

namespace Segment

variable {K : Type} [ExactScalar K] (s o : Segment K)

/-- A segment meets another in one place at most, so neither runs along the other. -/
def MeetsOnce : Prop := ∀ p q, s.On p → o.On p → s.On q → o.On q → p = q

variable {s o}

/-- Met once, a segment is met at the same place from the other end. -/
theorem MeetsOnce.intersect?_turned (h : s.MeetsOnce o) :
    (s.turned.intersect? o).map Point3.plan = (s.intersect? o).map Point3.plan := by
  cases hx : s.intersect? o with
  | none =>
    cases hy : s.turned.intersect? o with
    | none => rfl
    | some y =>
      -- What is met from the other end would be met from this one.
      have hs : s.On y.plan := s.on_turned.mp (s.turned.on_left_of_intersect? o hy)
      obtain ⟨x, hx'⟩ := s.exists_intersect? o hs (s.turned.on_right_of_intersect? o hy)
      rw [hx] at hx'
      cases hx'
  | some x =>
    have hs : s.On x.plan := s.on_left_of_intersect? o hx
    have ho : o.On x.plan := s.on_right_of_intersect? o hx
    obtain ⟨y, hy⟩ := s.turned.exists_intersect? o (s.on_turned.mpr hs) ho
    have hs' : s.On y.plan := s.on_turned.mp (s.turned.on_left_of_intersect? o hy)
    rw [hy, Option.map_some, Option.map_some, Option.some.injEq]
    exact h _ _ hs' (s.turned.on_right_of_intersect? o hy) hs ho

end Segment

/-! ## What is left of the points at one spot -/

theorem PointKind.ne_building {k : PointKind} (h : k = .wall ∨ k = .ground) : k ≠ .building := by
  rcases h with rfl | rfl <;> decide

namespace SectionPoint

section
variable {K : Type} [ExactScalar K] {G : List (SectionPoint K)} {m : PointKind × Point2 K}
  (policy : ConflictPolicy) (ahead : Point2 K → K)

/-- The points at a spot are as many as the spot is found. -/
theorem length_filter_spot (points : List (SectionPoint K)) (m : PointKind × Point2 K) :
    (points.filter fun c => c.spot = m).length = (points.map spot).count m := by
  rw [List.count, List.countP_map, List.countP_eq_length_filter]
  congr 2
  funext c
  rw [Bool.eq_iff_iff, decide_eq_true_eq, Function.comp, beq_iff_eq]

/-- Settling by the ground ahead asks for it where the points are. -/
theorem settleAhead_congr {ahead ahead' : Point2 K → K} {points : List (SectionPoint K)}
    (h : ∀ c ∈ points, ahead c.position.plan = ahead' c.position.plan) :
    settleAhead ahead points = settleAhead ahead' points := by
  induction points using settleAhead_cases ahead with
  | nil => simp
  | single a => simp
  | pass a b rest hab ih =>
    rw [settleAhead_pass ahead rest hab, settleAhead_pass ahead' rest hab,
      ih fun c hc => h c (List.mem_cons_of_mem a hc)]
  | earlier a b rest hab hp ih =>
    have hp' : prevails ahead' a b = true := by
      rw [← hp, prevails, prevails, h a List.mem_cons_self]
    rw [settleAhead_earlier ahead rest hab hp, settleAhead_earlier ahead' rest hab hp']
    apply ih
    intro c hc
    exact h c (by rcases List.mem_cons.mp hc with rfl | hc <;> simp [*])
  | later a b rest hab hp ih =>
    have hp' : prevails ahead' a b = false := by
      rw [← hp, prevails, prevails, h a List.mem_cons_self]
    rw [settleAhead_later ahead rest hab hp, settleAhead_later ahead' rest hab hp',
      ih fun c hc => h c (List.mem_cons_of_mem a hc)]

section
variable (hspot : ∀ c ∈ G, c.spot = m) (hm : m.1 ≠ .building)
include hspot hm

theorem conflicts_iff_at_spot {a b : SectionPoint K} (ha : a ∈ G) (hb : b ∈ G) :
    a.conflicts b = true ↔ a.ground ≠ b.ground := by
  have hplace : a.samePlace b = true :=
    samePlace_iff_spot.mpr ((hspot a ha).trans (hspot b hb).symm)
  have hkind : a.isBuilding = false := by
    have hne : a.kind ≠ .building := by
      rw [← hspot a ha] at hm
      exact hm
    simpa [isBuilding] using hne
  simp [conflicts, hplace, hkind]

/-- Of points over one ground at one spot two are left. -/
theorem length_left_of_agreeing (hground : ∀ a ∈ G, ∀ b ∈ G, a.ground = b.ground) (k : Nat) :
    (settleGroup policy ahead k (capRuns G)).1.length = min G.length 2 := by
  have hevent : ∀ a ∈ G, ∀ b ∈ G, a.sameEvent b = true := by
    intro a ha b hb
    have hplace : a.samePlace b = true :=
      samePlace_iff_spot.mpr ((hspot a ha).trans (hspot b hb).symm)
    simp [sameEvent, hplace, hground a ha b hb]
  have hkind : ∀ a ∈ G, a.isBuilding = false := by
    intro a ha
    have hne : a.kind ≠ .building := by
      rw [← hspot a ha] at hm
      exact hm
    simpa [isBuilding] using hne
  have hcap : (capRuns G).length = min G.length 2 := by
    rw [capRuns_of_repeats (List.pairwise_of_forall_mem_list hevent) hkind, List.length_take,
      Nat.min_comm]
  have hchain : (capRuns G).IsChain fun a b => a.conflicts b = false := by
    apply List.Pairwise.isChain
    apply List.pairwise_of_forall_mem_list
    intro a ha b hb
    have ha : a ∈ G := (capRuns_sublist G).subset ha
    have hb : b ∈ G := (capRuns_sublist G).subset hb
    apply Bool.eq_false_iff.mpr
    intro hconflict
    exact (conflicts_iff_at_spot hspot hm ha hb).mp hconflict (hground a ha b hb)
  rw [settleGroup_of_isChain policy ahead k hchain, hcap]

/-- Of two points over different grounds at one spot one is left. -/
theorem length_left_of_disagreeing (hlength : G.length ≤ 2)
    (hground : ¬ ∀ a ∈ G, ∀ b ∈ G, a.ground = b.ground) (k : Nat) :
    (settleGroup policy ahead k (capRuns G)).1.length = 1 := by
  match G, hlength with
  | [], _ => simp at hground
  | [a], _ => simp at hground
  | [a, b], _ =>
    have hab : a.conflicts b = true := by
      rw [conflicts_iff_at_spot hspot hm (by simp) (by simp)]
      intro hab
      apply hground
      simp [hab]
    have hcap : capRuns [a, b] = [a, b] := by
      simp [capRuns_cons, capAfter, repeatsBoth]
    rw [hcap]
    cases policy with
    | groundAhead =>
      simp only [settleGroup, settleAhead, hab, if_true]
      split <;> simp
    | alternate =>
      simp only [settleGroup, settleTurns, hab, if_true]
      split <;> simp

end

end

end SectionPoint

/-! ## Stops -/

/-- A place of a section, with the kinds of what is met there, one after the other. -/
structure Stop (α : Type) where
  /-- The place. -/
  place : Point2 α
  /-- The kinds. -/
  kinds : List PointKind

/-- The spots of a stop. -/
def Stop.spots {α : Type} (x : Stop α) : List (PointKind × Point2 α) :=
  x.kinds.map fun k => (k, x.place)

section
variable {K : Type} [ExactScalar K] {line : Segment K} {stops : List (Stop K)}

/-- Stops along a line: the places are in order, and what is met at one place is in the order
    building, wall, ground. -/
structure Segment.Passes (line : Segment K) (stops : List (Stop K)) : Prop where
  /-- The places are in order. -/
  increasing : stops.Pairwise fun x y => line.project x.place < line.project y.place
  /-- Something is met at every stop. -/
  kinds_ne_nil : ∀ x ∈ stops, x.kinds ≠ []
  /-- Buildings, walls and the borders of ground regions are met. -/
  kinds_met : ∀ x ∈ stops, ∀ k ∈ x.kinds, k = .building ∨ k = .wall ∨ k = .ground
  /-- They are met in this order. -/
  sorted : ∀ x ∈ stops, x.kinds.Pairwise fun j k => j.rank ≤ k.rank

namespace Segment

section
variable {k : PointKind} {x : Stop K}

/-- Something can be met at the first stop, before what is met there. -/
theorem Passes.cons_kind (h : line.Passes (x :: stops))
    (hk : k = .building ∨ k = .wall ∨ k = .ground) (hrank : ∀ j ∈ x.kinds, k.rank ≤ j.rank) :
    line.Passes (⟨x.place, k :: x.kinds⟩ :: stops) := by
  obtain ⟨hfirst, hrest⟩ := List.pairwise_cons.mp h.increasing
  have hne := List.forall_mem_cons.mp h.kinds_ne_nil
  have hmet := List.forall_mem_cons.mp h.kinds_met
  have hsorted := List.forall_mem_cons.mp h.sorted
  constructor
  · exact List.pairwise_cons.mpr ⟨hfirst, hrest⟩
  · exact List.forall_mem_cons.mpr ⟨List.cons_ne_nil _ _, hne.2⟩
  · exact List.forall_mem_cons.mpr ⟨List.forall_mem_cons.mpr ⟨hk, hmet.1⟩, hmet.2⟩
  · exact List.forall_mem_cons.mpr ⟨List.pairwise_cons.mpr ⟨hrank, hsorted.1⟩, hsorted.2⟩

/-- There can be a stop before all others. -/
theorem Passes.cons_stop (h : line.Passes stops) {place : Point2 K}
    (hk : k = .building ∨ k = .wall ∨ k = .ground)
    (hbefore : ∀ y ∈ stops, line.project place < line.project y.place) :
    line.Passes (⟨place, [k]⟩ :: stops) := by
  constructor
  · exact List.pairwise_cons.mpr ⟨hbefore, h.increasing⟩
  · exact List.forall_mem_cons.mpr ⟨List.cons_ne_nil _ _, h.kinds_ne_nil⟩
  · exact List.forall_mem_cons.mpr ⟨by simpa using hk, h.kinds_met⟩
  · exact List.forall_mem_cons.mpr ⟨List.pairwise_singleton _ _, h.sorted⟩

end

/-- Spots in order along a line are those of some stops. -/
theorem exists_passes {spots : List (PointKind × Point2 K)} (h : spots.Pairwise line.InOrder)
    (hkind : ∀ m ∈ spots, m.1 = .building ∨ m.1 = .wall ∨ m.1 = .ground) :
    ∃ stops, line.Passes stops ∧ stops.flatMap Stop.spots = spots := by
  induction spots with
  | nil => exact ⟨[], ⟨.nil, by simp, by simp, by simp⟩, rfl⟩
  | cons m spots ih =>
    obtain ⟨hm, hspots⟩ := List.pairwise_cons.mp h
    obtain ⟨stops, hpasses, rfl⟩ := ih hspots fun n hn => hkind n (List.mem_cons_of_mem m hn)
    have hmkind := hkind m List.mem_cons_self
    -- The spot is in order with every kind at every stop behind it.
    have horder : ∀ x ∈ stops, ∀ k ∈ x.kinds, line.InOrder m (k, x.place) := by
      intro x hx k hk
      exact hm _ (List.mem_flatMap.mpr ⟨x, hx, List.mem_map_of_mem hk⟩)
    match stops, hpasses, horder with
    | [], hpasses, _ => exact ⟨[⟨m.2, [m.1]⟩], hpasses.cons_stop hmkind (by simp), rfl⟩
    | x :: stops, hpasses, horder =>
      by_cases hplace : m.2 = x.place
      · -- The spot is at the first stop.
        refine ⟨⟨x.place, m.1 :: x.kinds⟩ :: stops, hpasses.cons_kind hmkind ?_, ?_⟩
        · intro j hj
          rcases horder x List.mem_cons_self j hj with hlt | ⟨_, hrank⟩
          · rw [hplace] at hlt
            exact absurd hlt (lt_irrefl _)
          · exact hrank
        · simp [Stop.spots, ← hplace]
      · -- The spot is before all stops.
        obtain ⟨k, hk⟩ := List.exists_mem_of_ne_nil _ (hpasses.kinds_ne_nil x List.mem_cons_self)
        have hbefore : line.project m.2 < line.project x.place := by
          rcases horder x List.mem_cons_self k hk with hlt | ⟨heq, _⟩
          · exact hlt
          · exact absurd heq hplace
        refine ⟨⟨m.2, [m.1]⟩ :: x :: stops, hpasses.cons_stop hmkind ?_, rfl⟩
        have hfirst := (List.pairwise_cons.mp hpasses.increasing).1
        exact List.forall_mem_cons.mpr ⟨hbefore, fun y hy => hbefore.trans (hfirst y hy)⟩

end Segment

/-- In the opposite order the stops are those of spots in order along the line turned around. -/
theorem Segment.Passes.pairwise_reverse (h : line.Passes stops) :
    (stops.reverse.flatMap Stop.spots).Pairwise line.turned.InOrder := by
  rw [List.pairwise_flatMap]
  constructor
  · intro x hx
    rw [Stop.spots, List.pairwise_map]
    apply (h.sorted x (List.mem_reverse.mp hx)).imp
    intro j k hjk
    exact .inr ⟨rfl, hjk⟩
  · rw [List.pairwise_reverse]
    apply h.increasing.imp
    intro x y hxy m hm n hn
    obtain ⟨j, _, rfl⟩ := List.mem_map.mp hm
    obtain ⟨k, _, rfl⟩ := List.mem_map.mp hn
    exact .inl (line.project_turned_lt_iff.mpr hxy)

end

/-! ## Reading backwards -/

/-- The kind of a point where the source and the receiver are exchanged. -/
def PointKind.exchanged : PointKind → PointKind
  | .source => .receiver
  | .receiver => .source
  | k => k

/-- Spots read backwards, with the source and the receiver exchanged. -/
def SectionPoint.readBackwards {α : Type} (spots : List (PointKind × Point2 α)) :
    List (PointKind × Point2 α) :=
  spots.reverse.map fun m => (m.1.exchanged, m.2)

/-- Where every stop has one kind, the stops in the opposite order are the spots read
    backwards. -/
theorem Segment.Passes.readBackwards_eq {K : Type} [ExactScalar K] {line : Segment K}
    {stops : List (Stop K)} (h : line.Passes stops)
    (hone : ∀ x ∈ stops, ∀ j ∈ x.kinds, ∀ k ∈ x.kinds, j = k) :
    SectionPoint.readBackwards (stops.reverse.flatMap Stop.spots) =
      stops.flatMap Stop.spots := by
  have hstop : ∀ x ∈ stops, SectionPoint.readBackwards x.spots = x.spots := by
    intro x hx
    have hkinds : x.kinds.reverse = x.kinds := by
      cases hk : x.kinds with
      | nil => rfl
      | cons k rest =>
        have hreplicate : x.kinds = List.replicate x.kinds.length k :=
          List.eq_replicate_iff.mpr ⟨rfl, fun j hj => hone x hx j hj k (by simp [hk])⟩
        rw [← hk, hreplicate, List.reverse_replicate]
    have hsame : ∀ k ∈ x.kinds, k.exchanged = k := by
      intro k hk
      rcases h.kinds_met x hx k hk with rfl | rfl | rfl <;> rfl
    rw [SectionPoint.readBackwards, Stop.spots, ← List.map_reverse, hkinds, List.map_map]
    apply List.map_congr_left
    intro k hk
    rw [Function.comp, hsame k hk]
  rw [SectionPoint.readBackwards, List.reverse_flatMap, List.reverse_reverse, List.map_flatMap]
  exact List.flatMap_congr fun x hx => hstop x hx

/-! ## What is met from either end -/

namespace Site

open SectionPoint

section
variable {K : Type} [ExactCircular K] {s : Site K} {line : Segment K} {g : K}

/-- Where a line and the line turned around meet a boundary at one place, they give the same
    point, but for the ground ahead of a border. -/
theorem crossing?_turned {b : Boundary K} (h : line.MeetsOnce b.segment) :
    (s.crossing? line.turned g b).map spot = (s.crossing? line g b).map spot ∧
      (b.kind ≠ .ground → s.crossing? line.turned g b = s.crossing? line g b) := by
  have hmeet := h.intersect?_turned
  cases hx : line.intersect? b.segment with
  | none =>
    rw [hx, Option.map_none, Option.map_eq_none_iff] at hmeet
    simp [crossing?, hx, hmeet]
  | some x =>
    rw [hx, Option.map_some, Option.map_eq_some_iff] at hmeet
    obtain ⟨y, hy, hplan⟩ := hmeet
    cases hrole : b.role with
    | side i a => simp [crossing?, hx, hy, hplan, hrole]
    | freestanding i height a name => simp [crossing?, hx, hy, hplan, hrole]
    | region i =>
      have hkind : b.kind = .ground := by rw [Boundary.kind, hrole]
      refine ⟨?_, fun hne => absurd hkind hne⟩
      by_cases hend : b.hasEnd x.plan = true
      · simp [crossing?, hx, hy, hplan, hrole, hend]
      · simp [crossing?, hx, hy, hplan, hrole, hend, spot]
    | terrain i => simp [crossing?, hx, hy, hrole]

/-- No boundary is met in two places of a line: none runs along it. -/
def MetOnce (s : Site K) (line : Segment K) : Prop :=
  ∀ b ∈ s.boundaries, line.MeetsOnce b.segment

/-- Turned around, a line meets the same spots, in the order of the boundaries. -/
theorem IsSealed.spots_turned (h : s.IsSealed) (honce : s.MetOnce line) (g : K) :
    (s.crossings line.turned g).map spot = (s.crossings line g).map spot := by
  rw [h.crossings_eq, h.crossings_eq, List.map_filterMap, List.map_filterMap]
  apply List.filterMap_congr
  intro b hb
  exact (crossing?_turned (honce b hb)).1

/-- Turned around, a line meets the same buildings and walls. -/
theorem IsSealed.filter_crossings_turned (h : s.IsSealed) (honce : s.MetOnce line) (g : K)
    {q : SectionPoint K → Bool} (hq : ∀ c, q c = true → c.kind ≠ .ground) :
    (s.crossings line.turned g).filter q = (s.crossings line g).filter q := by
  rw [h.crossings_eq, h.crossings_eq, List.filter_filterMap, List.filter_filterMap]
  apply List.filterMap_congr
  intro b hb
  by_cases hkind : b.kind = .ground
  · have hnone : ∀ line, (s.crossing? line g b).filter q = none := by
      intro line
      rw [Option.filter_eq_none_iff]
      intro c hc hqc
      exact hq c hqc ((s.crossing?_spec hc).2.1.trans hkind)
    rw [hnone, hnone]
  · rw [(crossing?_turned (honce b hb)).2 hkind]

/-! ## Feet from either end -/

/-- Turned around, a line meets the sides of buildings in some other order. -/
theorem IsSealed.sidesMet_turned_perm (h : s.IsSealed) (honce : s.MetOnce line) (g : K) :
    (s.sidesMet line.turned g).Perm (s.sidesMet line g) := by
  have hsame : (s.crossings line.turned g).filter isBuilding =
      (s.crossings line g).filter isBuilding := by
    apply h.filter_crossings_turned honce
    intro c hc hkind
    simp [isBuilding, hkind] at hc
  have hperm := s.sidesMet_perm line.turned g
  rw [hsame] at hperm
  exact hperm.trans (s.sidesMet_perm line g).symm

/-- The feet that the crossings would have are in the opposite order. -/
theorem IsSealed.feet_turned (h : s.IsSealed) (honce : s.MetOnce line)
    (hapart : s.BuildingsApart line) (g : K) :
    (s.sidesMet line.turned g).map s.footOf = ((s.sidesMet line g).map s.footOf).reverse := by
  have hspot : ∀ c, (s.footOf c).spot = c.spot := fun _ => rfl
  have hkind : ∀ line, ∀ c ∈ s.sidesMet line g, c.kind = .building := by
    intro line c hc
    have hbuilding := (s.mem_crossings_of_mem_sidesMet line g hc).2
    simpa [isBuilding] using hbuilding
  have hleft : Arranged line.turned ((s.sidesMet line.turned g).map s.footOf) := by
    rw [Arranged, List.pairwise_map]
    exact h.arranged_sidesMet line.turned g
  -- Points of one kind are in order along the line turned around if they are along the line
  -- in the opposite order.
  have hright : Arranged line.turned ((s.sidesMet line g).map s.footOf).reverse := by
    have hmet : (s.sidesMet line g).Pairwise fun a b => line.InOrder a.spot b.spot :=
      h.arranged_sidesMet line g
    rw [Arranged, List.pairwise_reverse, List.pairwise_map]
    apply hmet.imp_of_mem
    intro a b ha hb hab
    rw [hspot, hspot]
    rcases hab with hlt | ⟨heq, _⟩
    · exact .inl (line.project_turned_lt_iff.mpr hlt)
    · refine .inr ⟨heq.symm, ?_⟩
      rw [spot, spot, hkind line a ha, hkind line b hb]
  have hperm : ((s.sidesMet line.turned g).map s.footOf).Perm
      ((s.sidesMet line g).map s.footOf).reverse :=
    ((h.sidesMet_turned_perm honce g).map _).trans (List.reverse_perm _).symm
  apply List.Perm.eq_of_pairwise _ hleft hright hperm
  intro a b ha hb hab hba
  obtain ⟨c, hc, rfl⟩ := List.mem_map.mp ha
  obtain ⟨d, hd, rfl⟩ := List.mem_map.mp (List.mem_reverse.mp hb)
  have hcd : c.spot = d.spot := hab.antisymm hba
  have hplan : d.position.plan = c.position.plan := (congrArg Prod.snd hcd).symm
  exact (h.footOf_eq_of_apart hapart hd hc hplan).symm

/-- Turned around, a line passes the same crossings of sides and the same feet. -/
theorem IsSealed.building_interior_turned (h : s.IsSealed) (honce : s.MetOnce line)
    (hapart : s.BuildingsApart line) (g : K) :
    ((s.interior line.turned g).filter isBuilding).Perm
      ((s.interior line g).filter isBuilding) := by
  have hframing : (s.framing line.turned g).Perm (s.framing line g) := by
    rw [framing_eq, framing_eq, h.feet_turned honce hapart]
    exact feet_perm_reverse id _
  exact (s.filter_building_interior line.turned g).trans
    (((h.sidesMet_turned_perm honce g).append hframing).trans
      (s.filter_building_interior line g).symm)

/-! ## Profiles from either end -/

/-- At every place of a line the walls that are met come to the same from either end: there are
    two at most, or they are over one ground, or their conflicts are settled by the ground
    ahead, and that is the same. -/
def WallsSettle (s : Site K) (line : Segment K) (g : K) : Prop :=
  ∀ p, let met := (s.crossings line g).filter fun c => c.spot = (PointKind.wall, p)
    met.length ≤ 2 ∨ (∀ a ∈ met, ∀ b ∈ met, a.ground = b.ground) ∨
      s.settings.policy = .groundAhead ∧
        s.groundAhead line g p = s.groundAhead line.turned g p

/-- The points of borders at one place are over the ground ahead of it. -/
theorem ground_eq_of_mem_crossings {p : Point2 K} {a b : SectionPoint K}
    (ha : a ∈ (s.crossings line g).filter fun c => c.spot = (PointKind.ground, p))
    (hb : b ∈ (s.crossings line g).filter fun c => c.spot = (PointKind.ground, p)) :
    a.ground = b.ground := by
  have hahead : ∀ c ∈ (s.crossings line g).filter fun c => c.spot = (PointKind.ground, p),
      c.ground = s.groundAhead line g p := by
    intro c hc
    obtain ⟨hc, hspot⟩ := List.mem_filter.mp hc
    rw [decide_eq_true_eq, spot, Prod.mk.injEq] at hspot
    obtain ⟨w, _, hw⟩ := List.mem_filterMap.mp hc
    rcases (s.crossing?_spec hw).2.2 with ⟨hkind, _⟩ | ⟨hkind, _⟩ | ⟨_, hground⟩
    · rw [hkind] at hspot
      cases hspot.1
    · rw [hkind] at hspot
      cases hspot.1
    · rw [hground, hspot.2]
  rw [hahead a ha, hahead b hb]

section
variable {source receiver : Point3 K} {m : PointKind × Point2 K}

/-- The building points of a profile at a spot are those of the section. -/
theorem length_filter_building (s : Site K) (hm : m.1 = .building) :
    ((s.profile source receiver g).points.filter fun c => c.spot = m).length =
      (((s.interior ⟨source, receiver⟩ g).filter isBuilding).filter
        fun c => c.spot = m).length := by
  rw [← s.filter_building_profile, List.filter_filter]
  congr 1
  apply List.filter_congr
  intro c _
  by_cases hc : c.spot = m
  · have hkind : c.kind = .building := (congrArg Prod.fst hc).trans hm
    simp [hc, isBuilding, hkind]
  · simp [hc]

section
variable (hm : m.1 = .wall ∨ m.1 = .ground)
include hm

/-- Of walls or borders over one ground at one place a profile has two. -/
theorem IsSealed.length_filter_of_agreeing (h : s.IsSealed)
    (hground : ∀ a ∈ (s.crossings ⟨source, receiver⟩ g).filter (fun c => c.spot = m),
      ∀ b ∈ (s.crossings ⟨source, receiver⟩ g).filter (fun c => c.spot = m),
        a.ground = b.ground) :
    ((s.profile source receiver g).points.filter fun c => c.spot = m).length =
      min (((s.crossings ⟨source, receiver⟩ g).map spot).count m) 2 := by
  obtain ⟨j, hj⟩ := h.filter_spot_profile hm
  rw [hj, ← length_filter_spot]
  apply length_left_of_agreeing _ _ _ (PointKind.ne_building hm) hground
  intro c hc
  exact of_decide_eq_true (List.mem_filter.mp hc).2

/-- Where conflicts are settled by the ground ahead, it tells what a profile has of walls or
    borders at one place. -/
theorem IsSealed.filter_of_groundAhead (h : s.IsSealed)
    (hpolicy : s.settings.policy = .groundAhead) :
    ((s.profile source receiver g).points.filter fun c => c.spot = m) =
      settleAhead (s.groundAhead ⟨source, receiver⟩ g)
        (capRuns ((s.crossings ⟨source, receiver⟩ g).filter fun c => c.spot = m)) := by
  obtain ⟨j, hj⟩ := h.filter_spot_profile hm
  rw [hj, hpolicy]
  rfl

/-- Of two walls over different grounds at one place a profile has one. -/
theorem IsSealed.length_filter_of_disagreeing (h : s.IsSealed)
    (hfew : ((s.crossings ⟨source, receiver⟩ g).filter fun c => c.spot = m).length ≤ 2)
    (hground : ¬ ∀ a ∈ (s.crossings ⟨source, receiver⟩ g).filter (fun c => c.spot = m),
      ∀ b ∈ (s.crossings ⟨source, receiver⟩ g).filter (fun c => c.spot = m),
        a.ground = b.ground) :
    ((s.profile source receiver g).points.filter fun c => c.spot = m).length = 1 := by
  obtain ⟨j, hj⟩ := h.filter_spot_profile hm
  rw [hj]
  apply length_left_of_disagreeing _ _ _ (PointKind.ne_building hm) hfew hground
  intro c hc
  exact of_decide_eq_true (List.mem_filter.mp hc).2

end

/-- Where the walls met at one place come to the same from either end, as many are left of
    them. -/
theorem IsSealed.length_filter_wall_turned (h : s.IsSealed)
    (honce : s.MetOnce ⟨source, receiver⟩) (hwalls : s.WallsSettle ⟨source, receiver⟩ g)
    (hm : m.1 = .wall) :
    ((s.profile receiver source g).points.filter fun c => c.spot = m).length =
      ((s.profile source receiver g).points.filter fun c => c.spot = m).length := by
  have hspots : (s.crossings ⟨receiver, source⟩ g).map spot =
      (s.crossings ⟨source, receiver⟩ g).map spot := h.spots_turned honce g
  -- The same walls are met from either end.
  have hsame : (s.crossings ⟨receiver, source⟩ g).filter (fun c => c.spot = m) =
      (s.crossings ⟨source, receiver⟩ g).filter fun c => c.spot = m := by
    apply h.filter_crossings_turned honce
    intro c hc hkind
    have hwall : c.kind = .wall := (congrArg Prod.fst (of_decide_eq_true hc)).trans hm
    rw [hwall] at hkind
    cases hkind
  have hmet := hwalls m.2
  rw [← hm] at hmet
  by_cases hground : ∀ a ∈ (s.crossings ⟨source, receiver⟩ g).filter (fun c => c.spot = m),
      ∀ b ∈ (s.crossings ⟨source, receiver⟩ g).filter (fun c => c.spot = m),
        a.ground = b.ground
  · rw [h.length_filter_of_agreeing (.inl hm) hground,
      h.length_filter_of_agreeing (.inl hm) (hsame ▸ hground), hspots]
  · rcases hmet with hfew | hagree | ⟨hpolicy, hahead⟩
    · rw [h.length_filter_of_disagreeing (.inl hm) hfew hground,
        h.length_filter_of_disagreeing (.inl hm) (hsame ▸ hfew) (hsame ▸ hground)]
    · exact absurd hagree hground
    · rw [h.filter_of_groundAhead (.inl hm) hpolicy, h.filter_of_groundAhead (.inl hm) hpolicy,
        hsame]
      congr 1
      apply settleAhead_congr
      intro c hc
      have hspot : c.spot = m :=
        of_decide_eq_true (List.mem_filter.mp ((capRuns_sublist _).subset hc)).2
      have hplan : c.position.plan = m.2 := congrArg Prod.snd hspot
      rw [hplan]
      exact hahead.symm

/-- A profile and the profile from the other end have every spot of a boundary equally often. -/
theorem IsSealed.count_spot_turned (h : s.IsSealed) (honce : s.MetOnce ⟨source, receiver⟩)
    (hapart : s.BuildingsApart ⟨source, receiver⟩) (hwalls : s.WallsSettle ⟨source, receiver⟩ g)
    (hm : m.1 = .building ∨ m.1 = .wall ∨ m.1 = .ground) :
    ((s.profile receiver source g).points.map spot).count m =
      ((s.profile source receiver g).points.map spot).count m := by
  rw [← length_filter_spot, ← length_filter_spot]
  rcases hm with hm | hm | hm
  · rw [s.length_filter_building hm, s.length_filter_building hm]
    exact ((h.building_interior_turned honce hapart g).filter _).length_eq
  · exact h.length_filter_wall_turned honce hwalls hm
  · -- In either direction the borders are all over the ground ahead.
    have hspots : (s.crossings ⟨receiver, source⟩ g).map spot =
        (s.crossings ⟨source, receiver⟩ g).map spot := h.spots_turned honce g
    have hpair : m = (.ground, m.2) := by rw [← hm]
    have hground : ∀ line, ∀ a ∈ (s.crossings line g).filter (fun c => c.spot = m),
        ∀ b ∈ (s.crossings line g).filter (fun c => c.spot = m), a.ground = b.ground := by
      intro line a ha b hb
      rw [hpair] at ha hb
      exact ground_eq_of_mem_crossings ha hb
    rw [h.length_filter_of_agreeing (.inr hm) (hground _),
      h.length_filter_of_agreeing (.inr hm) (hground _), hspots]

end

/-- A profile is in order along its line. -/
theorem IsSealed.arranged_profile (h : s.IsSealed) (source receiver : Point3 K) (g : K) :
    Arranged ⟨source, receiver⟩ (s.profile source receiver g).points := by
  obtain ⟨inner, hinner, hpoints⟩ := s.profile_points source receiver g
  rw [hpoints]
  have hsub : (s.sourcePoint source g :: (inner ++ [s.receiverPoint receiver g])).Sublist
      (s.sectionPoints ⟨source, receiver⟩ g) := (hinner.append_right _).cons_cons _
  exact (h.arranged_sectionPoints ⟨source, receiver⟩ g).sublist hsub

/-- Where there is no terrain, a profile has buildings, walls and borders between its ends, in
    order along the line. -/
theorem IsSealed.exists_inner_spots (h : s.IsSealed) (hterrain : s.terrain = none)
    (source receiver : Point3 K) (g : K) :
    ∃ inner, (s.profile source receiver g).points.map spot =
        (.source, source.plan) :: (inner ++ [(.receiver, receiver.plan)]) ∧
      inner.Pairwise (⟨source, receiver⟩ : Segment K).InOrder ∧
      ∀ m ∈ inner, m.1 = .building ∨ m.1 = .wall ∨ m.1 = .ground := by
  obtain ⟨inner, hinner, hpoints⟩ := s.profile_points source receiver g
  refine ⟨inner.map spot, ?_, ?_, ?_⟩
  · rw [hpoints, List.map_cons, List.map_append]
    rfl
  · have harranged := h.arranged_profile source receiver g
    rw [hpoints] at harranged
    rw [List.pairwise_map]
    exact (List.pairwise_append.mp (List.Pairwise.of_cons harranged)).1
  · have hcollected : ∀ c ∈ s.collected ⟨source, receiver⟩ g,
        c.kind = .building ∨ c.kind = .wall ∨ c.kind = .ground := by
      intro c hc
      have hnone : s.terrainPoints ⟨source, receiver⟩ g = [] := by
        rw [terrainPoints, terrainSamples, hterrain]
        rfl
      rw [collected, hnone, List.nil_append] at hc
      obtain ⟨w, _, hw⟩ := List.mem_filterMap.mp hc
      rcases (s.crossing?_spec hw).2.2 with ⟨hkind, _⟩ | ⟨hkind, _⟩ | ⟨hkind, _⟩
      · exact .inl hkind
      · exact .inr (.inl hkind)
      · exact .inr (.inr hkind)
    intro m hm
    obtain ⟨c, hc, rfl⟩ := List.mem_map.mp hm
    rcases s.mem_interior (hinner.subset hc) with hc | ⟨b, hb, _, rfl⟩
    · exact hcollected c hc
    · exact hcollected b hb

/-- **Reversal.** A line of a site without terrain runs along no boundary, meets no sides of
    two buildings at one place, and the walls that it meets at one place come to the same from
    either end. Then the profile and the profile from the other end pass the same stops,
    in opposite orders. At each stop the same kinds are met equally often, but in the order
    building, wall, ground from either end. So the profiles are equally long, and one is the
    other read backwards if no two kinds are met at one place. -/
theorem profile_reversed (h : s.IsSealed) (hterrain : s.terrain = none)
    (source receiver : Point3 K) (g : K) (honce : s.MetOnce ⟨source, receiver⟩)
    (hapart : s.BuildingsApart ⟨source, receiver⟩)
    (hwalls : s.WallsSettle ⟨source, receiver⟩ g) :
    let forward := (s.profile source receiver g).points.map spot
    let backward := (s.profile receiver source g).points.map spot
    ∃ stops : List (Stop K), (⟨source, receiver⟩ : Segment K).Passes stops ∧
      forward = (.source, source.plan) ::
        (stops.flatMap Stop.spots ++ [(.receiver, receiver.plan)]) ∧
      backward = (.source, receiver.plan) ::
        (stops.reverse.flatMap Stop.spots ++ [(.receiver, source.plan)]) ∧
      backward.length = forward.length ∧
      ((∀ x ∈ stops, ∀ j ∈ x.kinds, ∀ k ∈ x.kinds, j = k) →
        readBackwards backward = forward) := by
  intro forward backward
  obtain ⟨inner, hforward, harranged, hkind⟩ := h.exists_inner_spots hterrain source receiver g
  obtain ⟨inner', hbackward, harranged', hkind'⟩ :=
    h.exists_inner_spots hterrain receiver source g
  obtain ⟨stops, hpasses, rfl⟩ := Segment.exists_passes harranged hkind
  -- The spots between the ends are the same, and their order along the line turned around
  -- leaves one way to arrange them.
  have hperm : inner'.Perm (stops.flatMap Stop.spots) := by
    rw [List.perm_iff_count]
    intro m
    by_cases hm : m.1 = .building ∨ m.1 = .wall ∨ m.1 = .ground
    · have hcount := h.count_spot_turned honce hapart hwalls hm
      have hends : ∀ p q : Point2 K, ∀ l : List (PointKind × Point2 K),
          ((PointKind.source, p) :: (l ++ [(PointKind.receiver, q)])).count m = l.count m := by
        intro p q l
        have hsource : ((PointKind.source, p) == m) = false := by
          rw [beq_eq_false_iff_ne]
          rintro rfl
          simp at hm
        have hreceiver : ((PointKind.receiver, q) == m) = false := by
          rw [beq_eq_false_iff_ne]
          rintro rfl
          simp at hm
        simp [List.count_cons, List.count_append, hsource, hreceiver]
      rwa [hforward, hbackward, hends, hends] at hcount
    · have hin' : m ∉ inner' := fun hin => hm (hkind' m hin)
      have hin : m ∉ stops.flatMap Stop.spots := fun hin => hm (hkind m hin)
      rw [List.count_eq_zero.mpr hin', List.count_eq_zero.mpr hin]
  have hreverse : (stops.reverse.flatMap Stop.spots).Perm (stops.flatMap Stop.spots) :=
    (List.reverse_perm stops).flatMap_right _
  have hinner' : inner' = stops.reverse.flatMap Stop.spots := by
    apply List.Perm.eq_of_pairwise _ harranged' hpasses.pairwise_reverse
      (hperm.trans hreverse.symm)
    intro m n _ _ hmn hnm
    exact hmn.antisymm hnm
  subst hinner'
  refine ⟨stops, hpasses, hforward, hbackward, ?_, ?_⟩
  · simp only [forward, backward, hforward, hbackward, List.length_cons, List.length_append,
      hreverse.length_eq]
  · intro hone
    simp only [forward, backward, hforward, hbackward, ← hpasses.readBackwards_eq hone]
    simp [readBackwards, PointKind.exchanged]

end

/-! ## A wall on a border

  From either end the wall comes before the border that it stands on. -/

/-- A wall along the near side of a square ground region. -/
noncomputable def wallAtBorder : Site ℝ :=
  ((Draft.empty Settings.default).afterAll
    [.wall [⟨5, -5, 0⟩, ⟨5, 5, 0⟩] 2 [] 1,
     .region [⟨[⟨5, -5⟩, ⟨15, -5⟩, ⟨15, 5⟩, ⟨5, 5⟩]⟩] 1]).siteOver none

/-- A line across the wall and the near side of the square. -/
noncomputable def acrossBorder : Segment ℝ := ⟨⟨0, 0, 1⟩, ⟨10, 0, 1⟩⟩

/-- The wall, placed on the ground. -/
noncomputable def borderWall : Boundary ℝ :=
  Draft.placeWall none ⟨⟨5, -5, 0⟩, ⟨5, 5, 0⟩, false, false, .freestanding 0 2 [] 1⟩

/-- A side of the square. -/
noncomputable def squareSide (a b : Point2 ℝ) : Boundary ℝ :=
  ⟨a.atZ Scalar.nan, b.atZ Scalar.nan, true, true, .region 0⟩

theorem boundaries_wallAtBorder : wallAtBorder.boundaries =
    [borderWall, squareSide ⟨5, -5⟩ ⟨15, -5⟩, squareSide ⟨15, -5⟩ ⟨15, 5⟩,
      squareSide ⟨15, 5⟩ ⟨5, 5⟩, squareSide ⟨5, 5⟩ ⟨5, -5⟩] := by
  have hfault : Draft.wallFault? [(⟨5, -5, 0⟩ : Point3 ℝ), ⟨5, 5, 0⟩] 2 = none := by
    simp [Draft.wallFault?, Coordinates.hasNaN, Coordinates.toList, not_lt.mpr zero_le_two]
  have hfirst : (Draft.empty (Settings.default : Settings ℝ)).after
      (.wall [⟨5, -5, 0⟩, ⟨5, 5, 0⟩] 2 [] 1) =
        { Draft.empty (Settings.default : Settings ℝ) with
          walls := Draft.wallSegments [⟨5, -5, 0⟩, ⟨5, 5, 0⟩] 2 [] 1 0 } := by
    simp [Draft.after, Draft.Call.outcome, Draft.addWall, hfault, Draft.empty]
  rw [wallAtBorder, Draft.afterAll, List.foldl_cons, hfirst]
  rfl

theorem on_borderWall {p : Point2 ℝ} :
    borderWall.segment.On p ↔ (squareSide ⟨5, -5⟩ ⟨5, 5⟩).segment.On p :=
  Segment.on_congr (Draft.placeWallEnd_plan none 2 _) (Draft.placeWallEnd_plan none 2 _)

theorem on_squareSide {a c p : Point2 ℝ} : (squareSide a c).segment.On p ↔
    ∃ t, 0 ≤ t ∧ t ≤ 1 ∧ a.x + (c.x - a.x) * t = p.x ∧ a.y + (c.y - a.y) * t = p.y := by
  simp [Segment.On, Point2.ext_iff, squareSide, Boundary.segment, Point2.atZ]

/-- The line meets the boundaries in one place only. -/
theorem eq_of_on_acrossBorder {b : Boundary ℝ} (hb : b ∈ wallAtBorder.boundaries) {p : Point2 ℝ}
    (hline : acrossBorder.On p) (hp : b.segment.On p) : p = ⟨5, 0⟩ := by
  have hy : p.y = 0 ∧ p.x ≤ 10 := by
    obtain ⟨t, ht, ht', rfl⟩ := hline
    simp only [Point3.plan_x, Point3.plan_y, Segment.pointAt_x, Segment.pointAt_y, acrossBorder]
    exact ⟨by ring, by linarith⟩
  have hside : ∃ a c : Point2 ℝ, (squareSide a c).segment.On p ∧
      (a.x = 5 ∧ c.x = 5 ∨ a.x = 15 ∧ c.x = 15 ∨ a.y = 5 ∧ c.y = 5 ∨ a.y = -5 ∧ c.y = -5) := by
    rw [boundaries_wallAtBorder] at hb
    simp only [List.mem_cons, List.not_mem_nil, or_false] at hb
    rcases hb with rfl | rfl | rfl | rfl | rfl
    · exact ⟨_, _, on_borderWall.mp hp, by simp⟩
    all_goals exact ⟨_, _, hp, by simp⟩
  obtain ⟨a, c, hon, hac⟩ := hside
  obtain ⟨t, _, _, hpx, hpy⟩ := on_squareSide.mp hon
  rcases hac with ⟨ha, hc⟩ | ⟨ha, hc⟩ | ⟨ha, hc⟩ | ⟨ha, hc⟩
  · rw [ha, hc, sub_self, zero_mul, add_zero] at hpx
    exact Point2.ext hpx.symm hy.1
  · rw [ha, hc, sub_self, zero_mul, add_zero] at hpx
    linarith
  · rw [ha, hc, sub_self, zero_mul, add_zero] at hpy
    linarith
  · rw [ha, hc, sub_self, zero_mul, add_zero] at hpy
    linarith

theorem metOnce_wallAtBorder : wallAtBorder.MetOnce acrossBorder := by
  intro b hb p q hp hbp hq hbq
  rw [eq_of_on_acrossBorder hb hp hbp, eq_of_on_acrossBorder hb hq hbq]

/-- The line meets the wall and the border. -/
theorem spots_wallAtBorder (g : ℝ) :
    (PointKind.wall, ⟨5, 0⟩) ∈ (wallAtBorder.crossings acrossBorder g).map spot ∧
      (PointKind.ground, ⟨5, 0⟩) ∈ (wallAtBorder.crossings acrossBorder g).map spot := by
  have hsealed : wallAtBorder.IsSealed := ⟨_, _, none, rfl⟩
  have hline : acrossBorder.On ⟨5, 0⟩ := by
    refine ⟨1 / 2, by norm_num, by norm_num, ?_⟩
    ext <;> norm_num [acrossBorder]
  -- Each of them has a crossing where it meets the line.
  have hmet : ∀ b ∈ wallAtBorder.boundaries, b.segment.On ⟨5, 0⟩ →
      (∀ x, x.plan = ⟨5, 0⟩ → acrossBorder.intersect? b.segment = some x →
        ∃ c, wallAtBorder.crossing? acrossBorder g b = some c) →
      (b.kind, ⟨5, 0⟩) ∈ (wallAtBorder.crossings acrossBorder g).map spot := by
    intro b hb hon hcrossing
    obtain ⟨x, hx⟩ := acrossBorder.exists_intersect? b.segment hline hon
    have hplan : x.plan = ⟨5, 0⟩ := eq_of_on_acrossBorder hb
      (acrossBorder.on_left_of_intersect? _ hx) (acrossBorder.on_right_of_intersect? _ hx)
    obtain ⟨c, hc⟩ := hcrossing x hplan hx
    obtain ⟨⟨y, hy, hcy⟩, hkind, _⟩ := wallAtBorder.crossing?_spec hc
    rw [hx, Option.some.injEq] at hy
    refine List.mem_map.mpr ⟨c, hsealed.mem_crossings hb hc, ?_⟩
    rw [spot, hkind, hcy, ← hy, hplan]
  rw [boundaries_wallAtBorder] at hmet
  constructor
  · apply hmet borderWall (by simp)
    · rw [on_borderWall, on_squareSide]
      exact ⟨1 / 2, by norm_num⟩
    · intro x _ hx
      have hrole : borderWall.role = .freestanding 0 2 [] 1 := rfl
      rw [crossing?, hx, hrole]
      exact ⟨_, rfl⟩
  · apply hmet (squareSide ⟨5, 5⟩ ⟨5, -5⟩) (by simp)
    · rw [on_squareSide]
      exact ⟨1 / 2, by norm_num⟩
    · intro x hplan hx
      have hend : (squareSide ⟨5, 5⟩ ⟨5, -5⟩).hasEnd x.plan = false := by
        have hne : ∀ z : ℝ, z ≠ 0 → ((⟨5, 0⟩ : Point2 ℝ) == ⟨5, z⟩) = false := by
          intro z hz
          apply beq_eq_false_iff_ne.mpr
          intro heq
          exact hz (congrArg Point2.y heq).symm
        rw [hplan, Boundary.hasEnd, Bool.or_eq_false_iff]
        exact ⟨hne 5 (by norm_num), hne (-5) (by norm_num)⟩
      exact ⟨_, wallAtBorder.crossing?_of_region g rfl hx hend⟩

/-- The profile across the wall is passed at the same stops from the other end. -/
theorem profile_reversed_wallAtBorder :
    wallAtBorder.IsSealed ∧ wallAtBorder.terrain = none ∧
    wallAtBorder.MetOnce acrossBorder ∧ wallAtBorder.BuildingsApart acrossBorder ∧
    wallAtBorder.WallsSettle acrossBorder 0 ∧
    (wallAtBorder.profile acrossBorder.p1 acrossBorder.p0 0).points.length =
      (wallAtBorder.profile acrossBorder.p0 acrossBorder.p1 0).points.length := by
  have hsealed : wallAtBorder.IsSealed := ⟨_, _, none, rfl⟩
  have hwall : ∀ b ∈ wallAtBorder.boundaries, b = borderWall ∨ b.kind = .ground := by
    intro b hb
    rw [boundaries_wallAtBorder] at hb
    simp only [List.mem_cons, List.not_mem_nil, or_false] at hb
    rcases hb with rfl | rfl | rfl | rfl | rfl
    · exact .inl rfl
    all_goals exact .inr rfl
  have hapart : wallAtBorder.BuildingsApart acrossBorder := by
    intro b hb _ _ hkind
    rcases hwall b hb with rfl | hground
    · cases hkind
    · rw [hground] at hkind
      cases hkind
  -- There is one wall, so what is met of walls at one place is over one ground.
  have hagree : wallAtBorder.WallsSettle acrossBorder 0 := by
    intro p
    refine .inr (.inl fun a ha b hb => ?_)
    have hcrossing : ∀ c ∈ (wallAtBorder.crossings acrossBorder 0).filter
        (fun c => c.spot = (PointKind.wall, p)),
          wallAtBorder.crossing? acrossBorder 0 borderWall = some c := by
      intro c hc
      obtain ⟨hc, hspot⟩ := List.mem_filter.mp hc
      rw [hsealed.crossings_eq] at hc
      obtain ⟨w, hw, hwc⟩ := List.mem_filterMap.mp hc
      rcases hwall w hw with rfl | hground
      · exact hwc
      · have hkind : c.kind = .wall := congrArg Prod.fst (of_decide_eq_true hspot)
        rw [(wallAtBorder.crossing?_spec hwc).2.1, hground] at hkind
        cases hkind
    have hab := (hcrossing a ha).symm.trans (hcrossing b hb)
    rw [Option.some.inj hab]
  obtain ⟨stops, _, _, _, hlength, _⟩ := profile_reversed hsealed rfl acrossBorder.p0
    acrossBorder.p1 0 metOnce_wallAtBorder hapart hagree
  rw [List.length_map, List.length_map] at hlength
  exact ⟨hsealed, rfl, metOnce_wallAtBorder, hapart, hagree, hlength⟩

/-- No border comes before a wall at its place. -/
theorem not_inOrder_ground_wall (line : Segment ℝ) (p : Point2 ℝ) :
    ¬ line.InOrder (.ground, p) (.wall, p) := by
  rintro (hlt | ⟨_, hrank⟩)
  · exact lt_irrefl _ hlt
  · have hranks : PointKind.ground.rank ≤ PointKind.wall.rank := hrank
    exact absurd hranks (by decide)

/-- But it is not the profile from the other end read backwards. -/
theorem readBackwards_profile_ne :
    wallAtBorder.IsSealed ∧ wallAtBorder.terrain = none ∧
    acrossBorder.p0.plan ≠ acrossBorder.p1.plan ∧ wallAtBorder.MetOnce acrossBorder ∧
    readBackwards ((wallAtBorder.profile acrossBorder.p1 acrossBorder.p0 0).points.map spot) ≠
      (wallAtBorder.profile acrossBorder.p0 acrossBorder.p1 0).points.map spot := by
  have hsealed : wallAtBorder.IsSealed := ⟨_, _, none, rfl⟩
  have hdistinct : acrossBorder.p0.plan ≠ acrossBorder.p1.plan := by
    intro heq
    have hx : (0 : ℝ) = 10 := congrArg Point2.x heq
    norm_num at hx
  refine ⟨hsealed, rfl, hdistinct, metOnce_wallAtBorder, ?_⟩
  intro heq
  set backward := (wallAtBorder.profile acrossBorder.p1 acrossBorder.p0 0).points.map spot
  have hforward : (readBackwards backward).Pairwise acrossBorder.InOrder := by
    rw [heq, List.pairwise_map]
    exact hsealed.arranged_profile acrossBorder.p0 acrossBorder.p1 0
  have hbackward : backward.Pairwise acrossBorder.turned.InOrder := by
    rw [List.pairwise_map]
    exact hsealed.arranged_profile acrossBorder.p1 acrossBorder.p0 0
  rw [readBackwards, List.pairwise_map, List.pairwise_reverse] at hforward
  -- From the other end the wall and the border are met as well.
  have hmet : ∀ m ∈ (wallAtBorder.crossings acrossBorder 0).map spot, m ∈ backward := by
    intro m hm
    rw [← hsealed.spots_turned metOnce_wallAtBorder] at hm
    obtain ⟨c, hc, rfl⟩ := List.mem_map.mp hm
    obtain ⟨c', hc', hkind, hplan⟩ := exists_mem_profile_of_crossing hc
    exact List.mem_map.mpr ⟨c', hc', Prod.ext hkind hplan⟩
  obtain ⟨hwall, hground⟩ := spots_wallAtBorder 0
  -- Whichever comes first, one of the two readings has the border before the wall.
  obtain ⟨front, back, hsplit⟩ := List.append_of_mem (hmet _ hwall)
  have hground := hmet _ hground
  rw [hsplit] at hground hforward hbackward
  rcases List.mem_append.mp hground with hfront | hback
  · have horder := (List.pairwise_append.mp hbackward).2.2 _ hfront _ List.mem_cons_self
    exact not_inOrder_ground_wall _ _ horder
  · have hback := (List.mem_cons.mp hback).resolve_left (by simp)
    have horder := List.rel_of_pairwise_cons (List.pairwise_append.mp hforward).2.1 hback
    exact not_inOrder_ground_wall _ _ horder

end Site

end SiteSection
