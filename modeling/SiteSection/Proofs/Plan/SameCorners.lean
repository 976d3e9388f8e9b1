import SiteSection.Proofs.Plan.Corners

/-! # Corner points however the footprint is given

  A footprint can be given from any of its corners and either way round, open or closed. The
  points beside its corners are the same ones: in the same order the other way round, and in the
  same cyclic order from another corner.

  What is left of a ring that is tidied is known by its edges. They are those of the given ring
  that lead to a different place, and neither their choice nor their cyclic order hangs on where
  the ring begins. The other way round the area is the opposite one, so that the ring is turned
  back just if it was not before.
-/

namespace SiteSection

open scoped List

/-! ## Cyclic order -/

section
variable {ι κ : Type}

/-- What is chosen of a ring is in the cyclic order of the ring. -/
theorem isRotated_filter {l l' : List ι} (h : l ~r l') (chosen : ι → Bool) :
    l.filter chosen ~r l'.filter chosen := by
  -- The ring is cut in two parts that are exchanged, and what is chosen of it is cut there too.
  obtain ⟨n, rfl⟩ := h
  rw [List.rotate_eq_drop_append_take_mod, List.filter_append]
  nth_rewrite 1 [← List.take_append_drop (n % l.length) l]
  rw [List.filter_append]
  exact List.isRotated_append

theorem ringEdges_rotate (ring : List ι) (n : Nat) :
    ringEdges (ring.rotate n) = (ringEdges ring).rotate n := by
  rw [ringEdges_eq_zip, ringEdges_eq_zip, zip_rotate (List.length_rotate ring 1).symm,
    List.rotate_rotate, List.rotate_rotate, Nat.add_comm]

/-- Every element of a ring has an edge that leads from it. -/
theorem map_fst_ringEdges (ring : List ι) : (ringEdges ring).map Prod.fst = ring := by
  rw [ringEdges_eq_zip, List.map_fst_zip (by simp)]

theorem map_turnedBack (f : ι → κ) (ring : List ι) :
    (turnedBack ring).map f = turnedBack (ring.map f) := by
  cases ring with
  | nil => rfl
  | cons i l => simp [turnedBack]

theorem turnedBack_turnedBack (ring : List ι) : turnedBack (turnedBack ring) = ring := by
  cases ring with
  | nil => rfl
  | cons i l => simp [turnedBack]

theorem head?_turnedBack (ring : List ι) : (turnedBack ring).head? = ring.head? := by
  cases ring <;> rfl

/-- The other way round too, a ring has one cyclic order. -/
theorem isRotated_turnedBack {l l' : List ι} (h : l ~r l') : turnedBack l ~r turnedBack l' := by
  have hback : ∀ l : List ι, turnedBack l ~r l.reverse := fun l =>
    turnedBack_eq l ▸ List.IsRotated.symm ⟨_, rfl⟩
  exact (hback l).trans (h.reverse.trans (hback l').symm)

/-- Two lists run once around the same ring, maybe from different elements, and are each closed
    by repeating their first one. -/
def SameAround (l l' : List ι) : Prop :=
  ∃ row row', l = row ++ row.head?.toList ∧ l' = row' ++ row'.head?.toList ∧ row ~r row'

end

/-! ## Edges that lead to a different place -/

section
variable {ι : Type} [BEq ι]

/-- The edges of a ring that lead from one element to a different one. -/
def properEdges (ring : List ι) : List (ι × ι) := (ringEdges ring).filter fun e => e.1 != e.2

theorem isRotated_properEdges (ring : List ι) (n : Nat) :
    properEdges ring ~r properEdges (ring.rotate n) := by
  rw [properEdges, properEdges, ringEdges_rotate]
  exact isRotated_filter ⟨n, rfl⟩ _

variable [LawfulBEq ι]

theorem properEdges_turnedBack (ring : List ι) :
    properEdges (turnedBack ring) = ((properEdges ring).map Prod.swap).reverse := by
  have hswap : (fun e : ι × ι => e.1 != e.2) ∘ Prod.swap = fun e => e.1 != e.2 := by
    funext e
    exact bne_comm
  rw [properEdges, properEdges, ringEdges_turnedBack, List.filter_reverse, List.filter_map, hswap]

/-- Without repeats a list goes the same way. -/
theorem pathEdges_dropRepeats (l : List ι) :
    pathEdges (dropRepeats (· == ·) l) = (pathEdges l).filter fun e => e.1 != e.2 := by
  cases l with
  | nil => rfl
  | cons i l =>
    induction l generalizing i with
    | nil => rfl
    | cons j l ih =>
      rw [dropRepeats_cons_cons, pathEdges_cons_cons, List.filter_cons]
      by_cases h : j = i
      · -- The repeat is dropped, and the edge that leads to it.
        rw [h, if_pos (beq_self_eq_true i), ih i]
        simp
      · obtain ⟨kept, hkept⟩ : ∃ kept, dropRepeats (· == ·) (j :: l) = j :: kept := ⟨_, rfl⟩
        rw [if_neg (by simpa using h), if_pos (by simpa using Ne.symm h), ← ih j, hkept,
          pathEdges_cons_cons]

/-- The last one kept is the last one. -/
theorem getLast?_dropRepeats (l : List ι) : (dropRepeats (· == ·) l).getLast? = l.getLast? := by
  induction l using List.reverseRecOn with
  | nil => rfl
  | append_singleton l j =>
    rw [dropRepeats_concat, List.getLast?_concat]
    cases hlast : (dropRepeats (· == ·) l).getLast? with
    | none => simp
    | some i =>
      by_cases h : j = i
      · simp [h, hlast]
      · simp [h]

end

namespace Polygon

variable {K : Type} [ExactScalar K] {ring : List (Point2 K)} {g : Polygon K}

/-- Tidying a ring changes nothing about the edges that lead to a different place. -/
theorem properEdges_tidied (ring : List (Point2 K)) :
    properEdges (tidied ring) = properEdges ring := by
  cases ring with
  | nil => rfl
  | cons first l =>
    have hclose : tidied (first :: l ++ [first]) = tidied (first :: l) :=
      tidied_close fun p _ => beq_self_eq_true p
    have hedges : pathEdges (dropRepeats (· == ·) (first :: l ++ [first])) =
        properEdges (first :: l) := pathEdges_dropRepeats _
    have hlast : (dropRepeats (· == ·) (first :: l ++ [first])).getLast? = some first := by
      rw [getLast?_dropRepeats, List.getLast?_concat]
    rw [← hclose, tidied, ← hedges]
    -- What is kept of the closed ring is its first corner only, or begins and ends with it.
    obtain ⟨kept, hkept⟩ : ∃ kept, dropRepeats (· == ·) (first :: l ++ [first]) = first :: kept :=
      ⟨_, rfl⟩
    rw [hkept] at hedges hlast ⊢
    cases hinner : kept using List.reverseRecOn with
    | nil => simp [openRing, properEdges, ringEdges]
    | append_singleton inner last =>
      rw [hinner, ← List.cons_append, List.getLast?_concat, Option.some.injEq] at hlast
      subst hlast
      rw [openRing_ends, if_pos (beq_self_eq_true last), properEdges, ringEdges_cons, ← hinner,
        hedges, properEdges, List.filter_filter]
      simp

/-- All edges of a tidy ring lead to a different place. -/
theorem IsTidy.properEdges_eq (h : IsTidy ring) : properEdges ring = ringEdges ring :=
  List.filter_eq_self.mpr fun e he => by simpa using h.apart e he

/-- What a polygon is made of is known by its edges: they are the edges of the ring that lead to a
    different place. Every ring with three of them makes a polygon. -/
theorem ofRing?_iff_properEdges :
    ofRing? ring = .ok g ↔ properEdges ring = ringEdges g.ring ∧ 3 ≤ g.ring.length := by
  have hedges : ∀ {g : Polygon K}, ofRing? ring = .ok g → properEdges ring = ringEdges g.ring := by
    intro g h
    rw [← (isTidy_of_ofRing? h).properEdges_eq, (ofRing?_eq_ok_iff.mp h).1, properEdges_tidied]
  refine ⟨fun h => ⟨hedges h, (isTidy_of_ofRing? h).three_le⟩, ?_⟩
  rintro ⟨hproper, hthree⟩
  -- The ring makes a polygon, and two polygons with the same edges have the same corners.
  have hleft : 3 ≤ (tidied ring).length := by
    calc 3 ≤ g.ring.length := hthree
      _ = (properEdges (tidied ring)).length := by
        rw [properEdges_tidied, hproper, length_ringEdges]
      _ ≤ (ringEdges (tidied ring)).length := List.length_filter_le _ _
      _ = (tidied ring).length := length_ringEdges _
  have hok : ofRing? ring = .ok ⟨tidied ring⟩ :=
    ofRing?_eq_ok_iff.mpr ⟨rfl, hleft, fun p _ => p.hasNaN_eq_false⟩
  have hsame : tidied ring = g.ring := by
    rw [← map_fst_ringEdges g.ring, ← hproper, hedges hok, map_fst_ringEdges]
  rw [hok, hsame]

/-- The other way round, a ring makes the polygon that goes the other way round. -/
theorem ofRing?_turnedBack (h : ofRing? ring = .ok g) :
    ofRing? (turnedBack ring) = .ok ⟨turnedBack g.ring⟩ := by
  obtain ⟨hproper, hthree⟩ := ofRing?_iff_properEdges.mp h
  rw [ofRing?_iff_properEdges, properEdges_turnedBack, hproper, ringEdges_turnedBack]
  exact ⟨rfl, hthree.trans_eq (turnedBack_perm g.ring).length_eq.symm⟩

/-- From another corner, a ring makes the polygon from another corner. -/
theorem exists_ofRing?_rotate (h : ofRing? ring = .ok g) (n : Nat) :
    ∃ m, ofRing? (ring.rotate n) = .ok ⟨g.ring.rotate m⟩ := by
  obtain ⟨hproper, hthree⟩ := ofRing?_iff_properEdges.mp h
  obtain ⟨m, hm⟩ := isRotated_properEdges ring n
  refine ⟨m, ofRing?_iff_properEdges.mpr ⟨?_, ?_⟩⟩
  · rw [← hm, hproper, ringEdges_rotate]
  · rwa [List.length_rotate]

end Polygon

/-! ## Counter-clockwise -/

namespace Ring

variable {K : Type} [ExactScalar K] {ring ring' : List (Point2 K)}

/-- Counter-clockwise a ring is the same whichever way round it is given. -/
theorem counterClockwise_turnedBack (h : signedArea ring ≠ 0) :
    counterClockwise (turnedBack ring) = counterClockwise ring := by
  rw [counterClockwise, counterClockwise, isCounterClockwise, isCounterClockwise,
    signedArea_turnedBack, turnedBack_turnedBack]
  rcases h.lt_or_gt with hneg | hpos
  · rw [decide_eq_true (neg_pos.mpr hneg), decide_eq_false hneg.not_gt]
    rfl
  · rw [decide_eq_false (neg_neg_of_pos hpos).not_gt, decide_eq_true hpos]
    rfl

/-- Counter-clockwise a ring has the same cyclic order from whichever corner it is given. -/
theorem isRotated_counterClockwise (h : ring ~r ring') :
    counterClockwise ring ~r counterClockwise ring' := by
  obtain ⟨n, rfl⟩ := h
  rw [counterClockwise, counterClockwise, isCounterClockwise, isCounterClockwise,
    signedArea_rotate]
  split
  · exact ⟨n, rfl⟩
  · exact isRotated_turnedBack ⟨n, rfl⟩

end Ring

namespace Building

/-! ## Footprints given differently -/

section
variable {α : Type}

/-- A footprint gives the corners in order: open, or closed by a corner at the place of the first,
    at whatever elevation. -/
inductive OpenOrClosed (corners : List (Point3 α)) : List (Point3 α) → Prop where
  | opened : OpenOrClosed corners corners
  | closed {first closing : Point3 α} (hfirst : corners.head? = some first)
      (hplace : closing.plan = first.plan) : OpenOrClosed corners (corners ++ [closing])

theorem OpenOrClosed.head?_eq {corners footprint : List (Point3 α)}
    (h : OpenOrClosed corners footprint) : footprint.head? = corners.head? := by
  cases h with
  | opened => rfl
  | closed hfirst _ =>
    rw [List.head?_append, hfirst]
    rfl

/-- Where the roof of a building comes to be hangs on its height and on its first corner. -/
theorem roofZ_place_congr [Scalar α] {b b' : Building α} {first first' : Point3 α}
    (hheight : b'.height = b.height) (hfirst : b.footprint.head? = some first)
    (hfirst' : b'.footprint.head? = some first') (hz : first'.z = first.z) (ground : α)
    (absolute : Bool) : (b'.place ground absolute).roofZ = (b.place ground absolute).roofZ := by
  have hroof : b'.roofZ = b.roofZ := by simp [roofZ, hfirst, hfirst', hz]
  rw [roofZ_place hfirst, roofZ_place hfirst', saysRoof, saysRoof, hroof, hheight]

end

section
variable {K : Type} [ExactScalar K] {corners footprint footprint' : List (Point3 K)} {height : K}
  {absorption : List K} {name : Int} {b b' : Building K}

theorem OpenOrClosed.ofRing?_eq (h : OpenOrClosed corners footprint) :
    Polygon.ofRing? (footprint.map Point3.plan) = Polygon.ofRing? (corners.map Point3.plan) := by
  cases h with
  | opened => rfl
  | @closed first closing hfirst hplace =>
    have hmap : (corners ++ [closing]).map Point3.plan =
        corners.map Point3.plan ++ (corners.map Point3.plan).head?.toList := by
      simp [hfirst, hplace]
    rw [hmap, Polygon.ofRing?, Polygon.ofRing?, ← Polygon.tidied, ← Polygon.tidied,
      Polygon.tidied_close fun p _ => beq_self_eq_true p]

/-- A footprint that makes a polygon makes a building of the height of one that was made. -/
theorem exists_made (hmade : ofFootprint? footprint height absorption name = .ok b)
    {plan : Polygon K} (hplan : Polygon.ofRing? (footprint'.map Point3.plan) = .ok plan) :
    ∃ b', ofFootprint? footprint' height absorption name = .ok b' ∧ b'.plan = plan := by
  obtain ⟨-, hheight, -⟩ := given_of_ofFootprint? hmade
  obtain ⟨b', hb'⟩ := (exists_ofFootprint?_iff hheight).mpr ⟨plan, hplan⟩
  exact ⟨b', hb', Except.ok.inj ((plan_of_ofFootprint? hb').1.symm.trans hplan)⟩

end

/-! ## The main result -/

section
variable {K : Type} [ExactCircular K] {corners footprint : List (Point3 K)} {height : K}
  {absorption : List K} {name : Int} {b b' : Building K}

theorem isRotated_pointsAround {ring ring' : List (Point2 K)} (h : ring ~r ring')
    (z least greatest eps : K) :
    pointsAround ring z least greatest eps ~r pointsAround ring' z least greatest eps := by
  obtain ⟨n, rfl⟩ := h
  rw [pointsAround, pointsAround, ringTriples_rotate]
  exact (isRotated_filter ⟨n, rfl⟩ _).map _

/-- The points beside the corners of two plans in one cyclic order are in one cyclic order. -/
theorem sameAround_cornerPoints (hmade : b.IsMade) (hmade' : b'.IsMade)
    (hring : b.plan.ring ~r b'.plan.ring) (least greatest eps : K) :
    SameAround ((b.cornerPoints least greatest eps).map Point3.plan)
        ((b'.cornerPoints least greatest eps).map Point3.plan) ∧
      (b'.roofZ = b.roofZ →
        SameAround (b.cornerPoints least greatest eps) (b'.cornerPoints least greatest eps)) := by
  have hturned := Ring.isRotated_counterClockwise hring
  rw [cornerPoints_eq hmade, cornerPoints_eq hmade']
  constructor
  · -- In plan it does not matter where the roofs are.
    have hplan : ∀ ring (z : K), (pointsAround ring z least greatest eps).map Point3.plan =
        (pointsAround ring 0 least greatest eps).map Point3.plan := by
      intro ring z
      rw [pointsAround, pointsAround, List.map_map, List.map_map]
      rfl
    have hclosed : ∀ points : List (Point3 K), (points ++ points.head?.toList).map Point3.plan =
        points.map Point3.plan ++ (points.map Point3.plan).head?.toList := by
      intro points
      cases points <;> simp
    refine ⟨_, _, hclosed _, hclosed _, ?_⟩
    rw [hplan, hplan _ (b'.roofZ + eps)]
    exact (isRotated_pointsAround hturned 0 least greatest eps).map _
  · intro hroof
    rw [hroof]
    exact ⟨_, _, rfl, rfl, isRotated_pointsAround hturned _ least greatest eps⟩

/-- **Corner points however the footprint is given.** If the corners of a footprint with an area
    are given the other way round from the same first corner, open or closed, they make a
    building with the very same points beside its corners. If they are given from another corner,
    the points are in the same places in the same cyclic order, closed by the first; they are
    the same points if the roof is the same, as it is if it follows from the height, or if all
    corners are given at one elevation. -/
theorem cornerPoints_redrawn (hgiven : OpenOrClosed corners footprint)
    (hmade : ofFootprint? footprint height absorption name = .ok b)
    (harea : Ring.signedArea b.plan.ring ≠ 0) (ground : K) (absolute : Bool) :
    (∀ back, OpenOrClosed (turnedBack corners) back →
      ∃ b', ofFootprint? back height absorption name = .ok b' ∧
        ∀ least greatest eps, (b'.place ground absolute).cornerPoints least greatest eps =
          (b.place ground absolute).cornerPoints least greatest eps) ∧
    ∀ n onward, OpenOrClosed (corners.rotate n) onward →
      ∃ b', ofFootprint? onward height absorption name = .ok b' ∧
        (absolute = false ∨ (∀ p ∈ corners, ∀ q ∈ corners, p.z = q.z) →
          (b'.place ground absolute).roofZ = (b.place ground absolute).roofZ) ∧
        ∀ least greatest eps,
          SameAround (((b.place ground absolute).cornerPoints least greatest eps).map Point3.plan)
            (((b'.place ground absolute).cornerPoints least greatest eps).map Point3.plan) ∧
          ((b'.place ground absolute).roofZ = (b.place ground absolute).roofZ →
            SameAround ((b.place ground absolute).cornerPoints least greatest eps)
              ((b'.place ground absolute).cornerPoints least greatest eps)) := by
  obtain ⟨hheight, -, first, hfirst, hhead⟩ := given_of_ofFootprint? hmade
  have hplan := (plan_of_ofFootprint? hmade).1
  rw [hgiven.ofRing?_eq] at hplan
  rw [hgiven.head?_eq] at hfirst
  constructor
  · intro back hback
    have hplan' := Polygon.ofRing?_turnedBack hplan
    rw [← map_turnedBack, ← hback.ofRing?_eq] at hplan'
    obtain ⟨b', hmade', hb'⟩ := exists_made hmade hplan'
    refine ⟨b', hmade', fun least greatest eps => ?_⟩
    -- The first corner stays what it was, and with it the roof.
    obtain ⟨hheight', -, first', hfirst', hhead'⟩ := given_of_ofFootprint? hmade'
    rw [hback.head?_eq, head?_turnedBack, hfirst, Option.some.injEq] at hfirst'
    have hroof := roofZ_place_congr (hheight'.trans hheight.symm) hhead hhead'
      (congrArg Point3.z hfirst'.symm) ground absolute
    rw [cornerPoints_eq (.placed (.made hmade) ground absolute),
      cornerPoints_eq (.placed (.made hmade') ground absolute), hroof, plan_place, plan_place, hb',
      Ring.counterClockwise_turnedBack harea]
  · intro n onward honward
    obtain ⟨m, hplan'⟩ := Polygon.exists_ofRing?_rotate hplan n
    rw [← List.map_rotate, ← honward.ofRing?_eq] at hplan'
    obtain ⟨b', hmade', hb'⟩ := exists_made hmade hplan'
    refine ⟨b', hmade', fun hsame => ?_, ?_⟩
    · obtain ⟨hheight', -, first', hfirst', hhead'⟩ := given_of_ofFootprint? hmade'
      rw [honward.head?_eq] at hfirst'
      rcases hsame with rfl | hlevel
      · -- Every height is defined here, so the roof is over the ground by the height.
        rw [roofZ_place hhead, roofZ_place hhead', hheight, hheight']
        simp
      · refine roofZ_place_congr (hheight'.trans hheight.symm) hhead hhead' ?_ ground absolute
        exact hlevel _ (List.mem_rotate.mp (List.mem_of_mem_head? hfirst')) _
          (List.mem_of_mem_head? hfirst)
    · refine sameAround_cornerPoints (.placed (.made hmade) ground absolute)
        (.placed (.made hmade') ground absolute) ?_
      rw [plan_place, plan_place, hb']
      exact ⟨m, rfl⟩

end

/-- A dart, given the other way round and closed at another elevation, and from its second
    corner. -/
theorem cornerPoints_redrawn_dart : ∃ b back onward : Building ℝ,
    ofFootprint? [⟨0, 0, 3⟩, ⟨4, 0, 3⟩, ⟨1, 1, 3⟩, ⟨0, 4, 3⟩] 5 [] 1 = .ok b ∧
    Ring.signedArea b.plan.ring ≠ 0 ∧
    ofFootprint? [⟨0, 0, 3⟩, ⟨0, 4, 3⟩, ⟨1, 1, 3⟩, ⟨4, 0, 3⟩, ⟨0, 0, 7⟩] 5 [] 1 = .ok back ∧
    ofFootprint? [⟨4, 0, 3⟩, ⟨1, 1, 3⟩, ⟨0, 4, 3⟩, ⟨0, 0, 3⟩] 5 [] 1 = .ok onward ∧
    (back.place 2 true).cornerPoints 0 (2 * Real.pi) 1 =
      (b.place 2 true).cornerPoints 0 (2 * Real.pi) 1 ∧
    SameAround ((b.place 2 true).cornerPoints 0 (2 * Real.pi) 1)
      ((onward.place 2 true).cornerPoints 0 (2 * Real.pi) 1) := by
  set corners : List (Point3 ℝ) := [⟨0, 0, 3⟩, ⟨4, 0, 3⟩, ⟨1, 1, 3⟩, ⟨0, 4, 3⟩] with hcorners
  have hmap : corners.map Point3.plan = [⟨0, 0⟩, ⟨4, 0⟩, ⟨1, 1⟩, ⟨0, 4⟩] := rfl
  have htidy : Polygon.IsTidy (corners.map Point3.plan) := by
    rw [hmap]
    exact ⟨by simp, fun p _ => p.hasNaN_eq_false, by simp [ringEdges, pathEdges]⟩
  have hheight : ¬(5 : ℝ) < 0 := by norm_num
  obtain ⟨b, hb, hplan⟩ := exists_ofFootprint? htidy hheight [] 1
  have harea : Ring.signedArea b.plan.ring ≠ 0 := by
    rw [hplan, hmap]
    norm_num [Ring.signedArea_eq_sum, ringEdges, pathEdges, Point2.cross, Scalar.half]
  obtain ⟨hback, honward⟩ := cornerPoints_redrawn .opened hb harea 2 true
  have hclosed : OpenOrClosed (turnedBack corners) (turnedBack corners ++ [⟨0, 0, 7⟩]) :=
    .closed rfl rfl
  obtain ⟨back, hb', hsame⟩ := hback _ hclosed
  obtain ⟨onward, hb'', hroof, hround⟩ := honward 1 _ .opened
  have hlevel : ∀ p ∈ corners, ∀ q ∈ corners, p.z = q.z := by simp [hcorners]
  exact ⟨b, back, onward, hb, harea, hb', hb'', hsame _ _ _,
    (hround _ _ _).2 (hroof (.inr hlevel))⟩

end Building

end SiteSection
