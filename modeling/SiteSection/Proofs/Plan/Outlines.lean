import SiteSection.Building
import SiteSection.Proofs.Numbers.Double
import SiteSection.Proofs.Plan.RepeatedCorners

/-! # Outlines of polygons and buildings

  The ring that a polygon is made of is tidied first: repeated corners are dropped, and then a
  last corner that closes it. Three corners have to be left. They need not be three different
  places: going to and fro between two places often enough leaves as many. What is left is tidy:
  all corners are defined, and each differs from the next, around the ring.

  The footprint of a building has its repeated corners dropped too, but is closed instead of
  opened. It is the ring of the plan with one more corner, which equals the first, though the
  sign of a zero may tell them apart.
-/

namespace SiteSection

/-! ## The ends of a ring -/

/-- A list of two elements or more has two ends. -/
theorem exists_ends {ι : Type} {l : List ι} (h : 2 ≤ l.length) :
    ∃ first inner last, l = first :: (inner ++ [last]) := by
  match l, h with
  | first :: second :: rest, _ =>
    exact ⟨first, _, _, congrArg (first :: ·) (List.dropLast_append_getLast
      (List.cons_ne_nil second rest)).symm⟩

/-- Paths that differ in their last place have the same edges but for the end of the last. -/
theorem forall₂_pathEdges_concat {ι : Type} [BEq ι] {l : List ι} {i j : ι}
    (hself : ∀ k ∈ l, (k == k) = true) (h : (i == j) = true) :
    List.Forall₂ (fun d e => d.1 = e.1 ∧ (d.2 == e.2) = true) (pathEdges (l ++ [i]))
      (pathEdges (l ++ [j])) := by
  induction l with
  | nil => exact .nil
  | cons a l ih =>
    obtain ⟨-, hrest⟩ := List.forall_mem_cons.mp hself
    cases l with
    | nil => exact .cons ⟨rfl, h⟩ .nil
    | cons b l => exact .cons ⟨rfl, hself b (by simp)⟩ (ih hrest)

variable {α : Type} [Scalar α]

namespace Polygon

/-! ## Opening a ring -/

theorem openRing_of_not_closed {ring : List (Point2 α)}
    (h : ∀ first ∈ ring.head?, ∀ last ∈ ring.getLast?, (first == last) = false) :
    openRing ring = ring := by
  cases ring with
  | nil => rfl
  | cons first l =>
    have hlast : (first :: l).getLast? = some ((first :: l).getLast (List.cons_ne_nil first l)) :=
      List.getLast?_eq_some_getLast _
    have hopen : (some first == (first :: l).getLast?) = false := by
      rw [hlast]
      exact h first rfl _ hlast
    rw [openRing, List.head?_cons, hopen, Bool.and_false]
    rfl

/-- A ring is opened by dropping its last corner if that equals the first. -/
theorem openRing_ends (first : Point2 α) (inner : List (Point2 α)) (last : Point2 α) :
    openRing (first :: (inner ++ [last])) =
      if first == last then first :: inner else first :: (inner ++ [last]) := by
  have hends : ((first :: (inner ++ [last])).head? == (first :: (inner ++ [last])).getLast?) =
      (first == last) := by
    rw [← List.cons_append, List.getLast?_concat]
    rfl
  have hdrop : (first :: (inner ++ [last])).dropLast = first :: inner := by
    rw [← List.cons_append, List.dropLast_concat]
  rw [openRing, hends, hdrop]
  simp

theorem length_openRing_le (ring : List (Point2 α)) :
    (openRing ring).length ≤ ring.length ∧ ring.length ≤ (openRing ring).length + 1 := by
  unfold openRing
  split
  · rw [List.length_dropLast]
    omega
  · omega

theorem mem_of_mem_openRing {ring : List (Point2 α)} {p : Point2 α} (h : p ∈ openRing ring) :
    p ∈ ring := by
  unfold openRing at h
  split at h
  · exact List.mem_of_mem_dropLast h
  · exact h

theorem head?_openRing {ring : List (Point2 α)} (hlong : 2 ≤ ring.length) :
    (openRing ring).head? = ring.head? := by
  obtain ⟨first, inner, last, rfl⟩ := exists_ends hlong
  rw [openRing_ends]
  split <;> rfl

/-! ## Tidy rings -/

/-- The ring without repeated corners and without a closing corner. -/
def tidied (ring : List (Point2 α)) : List (Point2 α) := openRing (dropRepeats (· == ·) ring)

/-- A ring of three corners or more, all of them defined, of which no two that follow each other
    around the ring are equal. -/
structure IsTidy (ring : List (Point2 α)) : Prop where
  /-- There are corners enough. -/
  three_le : 3 ≤ ring.length
  /-- No corner is undefined. -/
  defined : ∀ p ∈ ring, Coordinates.hasNaN p = false
  /-- The edges lead from one place to another. -/
  apart : ∀ e ∈ ringEdges ring, (e.1 == e.2) = false

variable {ring : List (Point2 α)} {g : Polygon α}

/-- A ring makes a polygon if three corners are left of it and all of them are defined. -/
theorem ofRing?_eq_ok_iff : ofRing? ring = .ok g ↔
    g.ring = tidied ring ∧ 3 ≤ (tidied ring).length ∧
      ∀ p ∈ tidied ring, Coordinates.hasNaN p = false := by
  obtain ⟨corners⟩ := g
  simp only [ofRing?]
  rw [← tidied]
  generalize tidied ring = left
  by_cases hfew : left.length < 3
  · rw [if_pos hfew]
    exact iff_of_false (fun h => nomatch h) fun h => not_le.mpr hfew h.2.1
  · rw [if_neg hfew]
    by_cases hnan : left.any Coordinates.hasNaN = true
    · rw [if_pos hnan]
      refine iff_of_false (fun h => nomatch h) fun h => ?_
      obtain ⟨p, hp, hpnan⟩ := List.any_eq_true.mp hnan
      rw [h.2.2 p hp] at hpnan
      cases hpnan
    · rw [if_neg hnan, Except.ok.injEq, Polygon.mk.injEq, eq_comm]
      have hdefined : ∀ p ∈ left, Coordinates.hasNaN p = false := by simpa using hnan
      exact ⟨fun h => ⟨h, not_lt.mp hfew, hdefined⟩, fun h => h.1⟩

theorem ofRing?_of_length_lt (h : (tidied ring).length < 3) :
    ofRing? ring = .error .tooFewCorners :=
  if_pos h

/-- It makes no difference to what is left whether a ring is closed. -/
theorem tidied_close (h : ∀ first ∈ ring.head?, (first == first) = true) :
    tidied (ring ++ ring.head?.toList) = tidied ring := by
  cases ring with
  | nil => rfl
  | cons first l =>
    obtain ⟨kept, hkept⟩ : ∃ kept, dropRepeats (· == ·) (first :: l) = first :: kept := ⟨_, rfl⟩
    rw [tidied, tidied, List.head?_cons, Option.toList_some, dropRepeats_concat, hkept]
    have hlast : (first :: kept).getLast? =
        some ((first :: kept).getLast (List.cons_ne_nil first kept)) :=
      List.getLast?_eq_some_getLast _
    rw [hlast, Option.any_some]
    cases hclosed : first == (first :: kept).getLast (List.cons_ne_nil first kept) with
    | true => rw [if_pos rfl, List.append_nil]
    | false =>
      have hopen : openRing (first :: kept) = first :: kept := by
        refine openRing_of_not_closed fun a ha b hb => ?_
        cases ha
        cases hlast.symm.trans hb
        exact hclosed
      rw [if_neg Bool.false_ne_true, List.cons_append, openRing_ends, if_pos (h first rfl), hopen]

section
variable [LawfulScalar α]

/-- Around a ring no two that follow each other are equal if that is so along the ring, and its
    ends differ. -/
theorem apart_iff : (∀ e ∈ ringEdges ring, (e.1 == e.2) = false) ↔
    ring.IsChain (fun p q => (q == p) = false) ∧
      ∀ first ∈ ring.head?, ∀ last ∈ ring.getLast?, (first == last) = false := by
  have hchain : (∀ e ∈ ringEdges ring, (e.1 == e.2) = false) ↔
      (ring ++ ring.head?.toList).IsChain fun p q => (q == p) = false := by
    rw [isChain_iff_pathEdges, ringEdges_eq]
    exact forall₂_congr fun e _ => by rw [BEq.comm]
  rw [hchain, List.isChain_append]
  cases ring with
  | nil => simp
  | cons first l => simp

/-- A tidy ring is left as it is. -/
theorem IsTidy.tidied_eq (h : IsTidy ring) : tidied ring = ring := by
  obtain ⟨hchain, hends⟩ := apart_iff.mp h.apart
  rw [tidied, dropRepeats_of_isChain _ hchain, openRing_of_not_closed hends]

/-- A ring whose neighbours differ has different neighbours all around once it is opened. -/
theorem apart_openRing (hlong : 3 ≤ ring.length)
    (hchain : ring.IsChain fun p q => (q == p) = false) :
    ∀ e ∈ ringEdges (openRing ring), (e.1 == e.2) = false := by
  obtain ⟨first, inner, last, rfl⟩ := exists_ends (Nat.le_of_succ_le hlong)
  rw [apart_iff, openRing_ends]
  cases hclosed : first == last with
  | true =>
    -- The corner before the closing corner differs from it, and so from the first.
    rw [← List.cons_append, List.isChain_append] at hchain
    refine ⟨hchain.1, fun a ha b hb => ?_⟩
    cases ha
    rw [BEq.congr_left hclosed]
    exact hchain.2.2 b hb last rfl
  | false =>
    refine ⟨hchain, fun a ha b hb => ?_⟩
    rw [if_neg Bool.false_ne_true, ← List.cons_append, List.getLast?_concat] at hb
    cases ha
    cases hb
    exact hclosed

/-- What a polygon is made of is tidy. -/
theorem isTidy_of_ofRing? (h : ofRing? ring = .ok g) : IsTidy g.ring := by
  obtain ⟨hring, hthree, hdefined⟩ := ofRing?_eq_ok_iff.mp h
  rw [hring]
  refine ⟨hthree, hdefined, ?_⟩
  exact apart_openRing (hthree.trans (length_openRing_le _).1) (isChain_dropRepeats _ ring)

theorem IsTidy.ofRing?_eq (h : IsTidy g.ring) : ofRing? g.ring = .ok g := by
  rw [ofRing?_eq_ok_iff, h.tidied_eq]
  exact ⟨rfl, h.three_le, h.defined⟩

/-- The first corner of a ring that makes a polygon is defined. -/
theorem beq_self_of_ofRing? (h : ofRing? ring = .ok g) :
    ∀ first ∈ ring.head?, (first == first) = true := by
  intro first hfirst
  obtain ⟨-, hthree, hdefined⟩ := ofRing?_eq_ok_iff.mp h
  refine Point2.beq_self (hdefined first (List.mem_of_mem_head? ?_))
  rwa [tidied, head?_openRing (Nat.le_of_succ_le (hthree.trans (length_openRing_le _).1)),
    head?_dropRepeats]

/-! ## Rings that are accepted -/

/-- A corner that opening a ring drops is the first one. -/
theorem exists_beq_mem_openRing (hself : ∀ p ∈ ring, (p == p) = true) (hlong : 2 ≤ ring.length) :
    ∀ p ∈ ring, ∃ q ∈ openRing ring, (p == q) = true := by
  obtain ⟨first, inner, last, rfl⟩ := exists_ends hlong
  intro p hp
  rw [openRing_ends]
  split
  · next hclosed =>
    rw [← List.cons_append, List.mem_append, List.mem_singleton] at hp
    obtain hp | rfl := hp
    · exact ⟨p, hp, hself p (by rw [← List.cons_append]; exact List.mem_append_left _ hp)⟩
    · exact ⟨first, List.mem_cons_self, BEq.symm hclosed⟩
  · exact ⟨p, hp, hself p hp⟩

/-- A ring without repeats keeps three corners if it has three places, or four corners. -/
theorem three_le_length_openRing_iff (hself : ∀ p ∈ ring, (p == p) = true)
    (hchain : ring.IsChain fun p q => (q == p) = false) :
    3 ≤ (openRing ring).length ↔ HasThree ring ∨ 4 ≤ ring.length := by
  have hlength := length_openRing_le ring
  constructor
  · intro hthree
    by_cases hfour : 4 ≤ ring.length
    · exact .inr hfour
    · -- Three corners that are not closed are three places.
      obtain ⟨first, inner, last, rfl⟩ := exists_ends (Nat.le_of_succ_le (hthree.trans hlength.1))
      obtain ⟨middle, rfl⟩ : ∃ middle, inner = [middle] := by
        rw [← List.length_eq_one_iff]
        simp only [List.length_cons, List.length_append, List.length_nil] at hlength hfour
        omega
      rw [openRing_ends] at hthree
      cases hclosed : first == last with
      | true => simp [hclosed] at hthree
      | false =>
        simp only [List.singleton_append, List.isChain_cons_cons] at hchain
        refine .inl ⟨first, by simp, middle, by simp, last, by simp, ?_, ?_, hclosed⟩
        · rw [BEq.comm, hchain.1]
        · rw [BEq.comm, hchain.2.1]
  · rintro (hplaces | hfour)
    · have hlong : 2 ≤ ring.length := Nat.le_of_succ_le (hplaces.three_le_length hself)
      refine (hplaces.of_forall_exists (exists_beq_mem_openRing hself hlong)).three_le_length ?_
      exact fun p hp => hself p (mem_of_mem_openRing hp)
    · omega

/-- Three corners are left of a defined ring if it has three places, or moves three times. -/
theorem three_le_length_tidied_iff (hdefined : ∀ p ∈ ring, Coordinates.hasNaN p = false) :
    3 ≤ (tidied ring).length ↔ HasThree ring ∨ 3 ≤ moves ring := by
  have hself : ∀ p ∈ ring, (p == p) = true := fun p hp => Point2.beq_self (hdefined p hp)
  have hkept : ∀ p ∈ dropRepeats (· == ·) ring, p ∈ ring :=
    fun p hp => (dropRepeats_sublist _ ring).subset hp
  rw [tidied, three_le_length_openRing_iff (fun p hp => hself p (hkept p hp))
    (isChain_dropRepeats _ ring)]
  have hplaces : HasThree (dropRepeats (· == ·) ring) ↔ HasThree ring :=
    ⟨fun h => h.of_forall_exists fun p hp => ⟨p, hkept p hp, hself p (hkept p hp)⟩,
      fun h => h.of_forall_exists fun p hp => exists_same_of_mem _ hself hp⟩
  cases ring with
  | nil => simp [moves]
  | cons first l => rw [hplaces, length_dropRepeats hself, Nat.succ_le_succ_iff]

/-- What becomes of a defined ring hangs on its places and its moves. -/
theorem ofRing?_of_defined (hdefined : ∀ p ∈ ring, Coordinates.hasNaN p = false) :
    ((∃ g, ofRing? ring = .ok g) ↔ HasThree ring ∨ 3 ≤ moves ring) ∧
      (ofRing? ring = .error .tooFewCorners ↔ ¬(HasThree ring ∨ 3 ≤ moves ring)) := by
  rw [← three_le_length_tidied_iff hdefined, not_le]
  have hleft : ∀ p ∈ tidied ring, Coordinates.hasNaN p = false := fun p hp =>
    hdefined p ((dropRepeats_sublist _ ring).subset (mem_of_mem_openRing hp))
  have hok : 3 ≤ (tidied ring).length → ofRing? ring = .ok ⟨tidied ring⟩ := fun h =>
    ofRing?_eq_ok_iff.mpr ⟨rfl, h, hleft⟩
  refine ⟨⟨?_, fun h => ⟨_, hok h⟩⟩, fun h => ?_, ofRing?_of_length_lt⟩
  · rintro ⟨g, h⟩
    exact (ofRing?_eq_ok_iff.mp h).2.1
  · rw [← not_le]
    intro hthree
    rw [hok hthree] at h
    cases h

end

end Polygon

namespace Building

variable {footprint : List (Point3 α)} {height : α} {absorption : List α} {name : Int}
  {b : Building α}

/-! ## Making a building -/

/-- Corners of one plan location are equal in plan. -/
theorem map_plan_dropRepeats (footprint : List (Point3 α)) :
    (dropRepeats Point3.samePlan footprint).map Point3.plan =
      dropRepeats (· == ·) (footprint.map Point3.plan) :=
  map_dropRepeats (· == ·) Point3.plan footprint

/-- What becomes of a footprint hangs on the polygon of its plan, and on the height. -/
theorem ofFootprint?_eq : ofFootprint? footprint height absorption name =
    (Polygon.ofRing? (footprint.map Point3.plan)).bind fun plan =>
      if height < 0 then .error (.negativeHeight height)
      else .ok ⟨closeRing (dropRepeats Point3.samePlan footprint), plan, height, absorption, name,
        Scalar.nan⟩ := by
  have hplan : Polygon.ofRing? ((dropRepeats Point3.samePlan footprint).map Point3.plan) =
      Polygon.ofRing? (footprint.map Point3.plan) := by
    simp only [map_plan_dropRepeats, Polygon.ofRing?, dropRepeats_dropRepeats]
  simp only [ofFootprint?, hplan]
  cases Polygon.ofRing? (footprint.map Point3.plan) with
  | error e => rfl
  | ok plan => rfl

section
variable (hheight : ¬height < 0)
include hheight

theorem exists_ofFootprint?_iff :
    (∃ b, ofFootprint? footprint height absorption name = .ok b) ↔
      ∃ g, Polygon.ofRing? (footprint.map Point3.plan) = .ok g := by
  rw [ofFootprint?_eq]
  cases Polygon.ofRing? (footprint.map Point3.plan) with
  | error e => simp [Except.bind]
  | ok plan => simp [Except.bind, hheight]

theorem ofFootprint?_eq_error_iff {e : GeometryFault α} :
    ofFootprint? footprint height absorption name = .error e ↔
      Polygon.ofRing? (footprint.map Point3.plan) = .error e := by
  rw [ofFootprint?_eq]
  cases Polygon.ofRing? (footprint.map Point3.plan) with
  | error e => simp [Except.bind]
  | ok plan => simp [Except.bind, hheight]

end

/-- A building has the polygon of its footprint for its plan. -/
theorem plan_of_ofFootprint? (h : ofFootprint? footprint height absorption name = .ok b) :
    Polygon.ofRing? (footprint.map Point3.plan) = .ok b.plan ∧
      b.footprint = closeRing (dropRepeats Point3.samePlan footprint) := by
  rw [ofFootprint?_eq] at h
  cases hplan : Polygon.ofRing? (footprint.map Point3.plan) with
  | error e =>
    rw [hplan] at h
    cases h
  | ok plan =>
    simp only [hplan, Except.bind] at h
    split at h
    · cases h
    · cases h
      exact ⟨rfl, rfl⟩

/-! ## Closing a ring -/

/-- The closed ring is the opened one and a corner that equals the first. -/
theorem exists_closing {ring : List (Point3 α)} (hlong : 2 ≤ ring.length)
    (hself : ∀ p ∈ ring.head?, (p.plan == p.plan) = true) :
    ∃ first closing, (Polygon.openRing (ring.map Point3.plan)).head? = some first ∧
      (first == closing) = true ∧
      (closeRing ring).map Point3.plan = Polygon.openRing (ring.map Point3.plan) ++ [closing] := by
  obtain ⟨first, inner, last, rfl⟩ := exists_ends hlong
  have hlast : (first :: (inner ++ [last])).getLast? = some last := by
    rw [← List.cons_append, List.getLast?_concat]
  have hmap : (first :: (inner ++ [last])).map Point3.plan =
      first.plan :: (inner.map Point3.plan ++ [last.plan]) := by simp
  rw [hmap, Polygon.openRing_ends, closeRing, List.head?_cons, hlast]
  dsimp only
  rw [Point3.samePlan]
  cases hclosed : first.plan == last.plan with
  | true => exact ⟨first.plan, last.plan, rfl, hclosed, by simp⟩
  | false => exact ⟨first.plan, first.plan, rfl, hself first rfl, by simp⟩

section
variable [LawfulScalar α]

/-- The footprint of a building is the ring of its plan and a corner that equals the first. -/
theorem exists_closing_footprint (h : ofFootprint? footprint height absorption name = .ok b) :
    ∃ first closing, b.plan.ring.head? = some first ∧ (first == closing) = true ∧
      b.footprint.map Point3.plan = b.plan.ring ++ [closing] := by
  obtain ⟨hplan, hfootprint⟩ := plan_of_ofFootprint? h
  obtain ⟨hring, hthree, -⟩ := Polygon.ofRing?_eq_ok_iff.mp hplan
  have hlong := hthree.trans (Polygon.length_openRing_le _).1
  rw [hring, Polygon.tidied, hfootprint, ← map_plan_dropRepeats]
  rw [← map_plan_dropRepeats, List.length_map] at hlong
  refine exists_closing (Nat.le_of_succ_le hlong) fun p hp => ?_
  rw [head?_dropRepeats] at hp
  apply Polygon.beq_self_of_ofRing? hplan p.plan
  rw [List.head?_map]
  exact Option.mem_map_of_mem _ hp

/-- The footprint of a building is closed in plan. -/
theorem closed_footprint (h : ofFootprint? footprint height absorption name = .ok b) :
    ∃ first last, b.footprint.head? = some first ∧ b.footprint.getLast? = some last ∧
      first.samePlan last = true := by
  obtain ⟨first, closing, hfirst, hclosing, hmap⟩ := exists_closing_footprint h
  have hhead : (b.footprint.map Point3.plan).head? = some first := by
    rw [hmap, List.head?_append, hfirst]
    rfl
  have hlast : (b.footprint.map Point3.plan).getLast? = some closing := by
    rw [hmap, List.getLast?_concat]
  rw [List.head?_map] at hhead
  rw [List.getLast?_map] at hlast
  obtain ⟨p, hp, rfl⟩ := Option.map_eq_some_iff.mp hhead
  obtain ⟨q, hq, rfl⟩ := Option.map_eq_some_iff.mp hlast
  exact ⟨p, q, hp, hq, hclosing⟩

/-- The sides of a building are over the edges of its plan, in order. -/
theorem sides_over_edges (h : ofFootprint? footprint height absorption name = .ok b) (i : Nat) :
    List.Forall₂ (fun w e => w.p0.plan = e.1 ∧ (w.p1.plan == e.2) = true) (b.sides i)
      b.plan.edges := by
  obtain ⟨first, closing, hfirst, hclosing, hmap⟩ := exists_closing_footprint h
  have hdefined := (Polygon.isTidy_of_ofRing? (plan_of_ofFootprint? h).1).defined
  have hedges := forall₂_pathEdges_concat (fun p hp => Point2.beq_self (hdefined p hp))
    (BEq.symm hclosing)
  rw [← hmap, pathEdges_map, List.forall₂_map_left_iff] at hedges
  rwa [sides, List.forall₂_map_left_iff, Polygon.edges, ringEdges_eq, hfirst]

end

end Building

/-! ## The main results -/

section
variable [LawfulScalar α]

/-- **What makes an outline.** Of the rings without undefined corners those make a polygon that
    have three different places, or that move from a place to a different one three times; all
    others are refused for having too few corners. A footprint makes a building if its plan makes
    a polygon, unless the height is negative. -/
theorem outlines_accepted_iff :
    (∀ ring : List (Point2 α), (∀ p ∈ ring, Coordinates.hasNaN p = false) →
      ((∃ g, Polygon.ofRing? ring = .ok g) ↔ HasThree ring ∨ 3 ≤ moves ring) ∧
      (Polygon.ofRing? ring = .error .tooFewCorners ↔ ¬(HasThree ring ∨ 3 ≤ moves ring))) ∧
    ∀ (footprint : List (Point3 α)) (height : α) (absorption : List α) (name : Int),
      (∀ p ∈ footprint, Coordinates.hasNaN p.plan = false) → ¬height < 0 →
      ((∃ b, Building.ofFootprint? footprint height absorption name = .ok b) ↔
        HasThree (footprint.map Point3.plan) ∨ 3 ≤ moves (footprint.map Point3.plan)) ∧
      (Building.ofFootprint? footprint height absorption name = .error .tooFewCorners ↔
        ¬(HasThree (footprint.map Point3.plan) ∨ 3 ≤ moves (footprint.map Point3.plan))) := by
  refine ⟨fun ring hdefined => Polygon.ofRing?_of_defined hdefined, ?_⟩
  intro footprint height absorption name hdefined hheight
  rw [Building.exists_ofFootprint?_iff hheight, Building.ofFootprint?_eq_error_iff hheight]
  exact Polygon.ofRing?_of_defined (List.forall_mem_map.mpr hdefined)

/-- Going to and fro between two places is accepted, as an outline of polygons and buildings. -/
theorem toAndFro_accepted : ∃ (ring : List (Point2 Float)) (footprint : List (Point3 Float)),
    ring = [⟨0, 0⟩, ⟨10, 0⟩, ⟨0, 0⟩, ⟨10, 0⟩] ∧ footprint.map Point3.plan = ring ∧
    ¬HasThree ring ∧ (∃ g, Polygon.ofRing? ring = .ok g) ∧
    ∃ b, Building.ofFootprint? footprint 5 [] 1 = .ok b := by
  refine ⟨_, [⟨0, 0, 0⟩, ⟨10, 0, 0⟩, ⟨0, 0, 0⟩, ⟨10, 0, 0⟩], rfl, rfl, ?_, ?_, ?_⟩
  · unfold HasThree
    decide +kernel
  · exact (outlines_accepted_iff.1 _ (by decide +kernel)).1.mpr (.inr (by decide +kernel))
  · exact (outlines_accepted_iff.2 _ 5 [] 1 (by decide +kernel) (by decide +kernel)).1.mpr
      (.inr (by decide +kernel))

/-- **Outlines are tidy.** A polygon is of three corners or more, all defined, each different
    from the next around the ring. It is made again of its own ring, and of the ring that it was
    made of when this is closed. The footprint of a building is closed, has one corner more than
    the plan, and has the corners of the plan; its sides are the edges of the plan. -/
theorem outlines_tidy :
    (∀ (ring : List (Point2 α)) (g : Polygon α), Polygon.ofRing? ring = .ok g →
      Polygon.IsTidy g.ring ∧ Polygon.ofRing? g.ring = .ok g ∧
      Polygon.ofRing? (ring ++ ring.head?.toList) = .ok g) ∧
    ∀ (footprint : List (Point3 α)) (height : α) (absorption : List α) (name : Int)
      (b : Building α), Building.ofFootprint? footprint height absorption name = .ok b →
      (∃ first last, b.footprint.head? = some first ∧ b.footprint.getLast? = some last ∧
        first.samePlan last = true) ∧
      b.footprint.length = b.plan.ring.length + 1 ∧
      b.footprint.dropLast.map Point3.plan = b.plan.ring ∧
      ∀ i, List.Forall₂ (fun w e => w.p0.plan = e.1 ∧ (w.p1.plan == e.2) = true) (b.sides i)
        b.plan.edges := by
  constructor
  · intro ring g h
    have htidy := Polygon.isTidy_of_ofRing? h
    refine ⟨htidy, htidy.ofRing?_eq, ?_⟩
    rwa [Polygon.ofRing?_eq_ok_iff, Polygon.tidied_close (Polygon.beq_self_of_ofRing? h),
      ← Polygon.ofRing?_eq_ok_iff]
  · intro footprint height absorption name b h
    obtain ⟨_, closing, -, -, hmap⟩ := Building.exists_closing_footprint h
    refine ⟨Building.closed_footprint h, ?_, ?_, Building.sides_over_edges h⟩
    · rw [← List.length_map Point3.plan, hmap, List.length_append]
      rfl
    · rw [List.map_dropLast, hmap, List.dropLast_concat]

/-- A square with repeated corners, closed by one with a negative zero, and a building over it. -/
theorem tidied_square : ∃ (g : Polygon Float) (b : Building Float),
    Polygon.ofRing? [⟨0, 0⟩, ⟨0, 0⟩, ⟨10, 0⟩, ⟨10, 10⟩, ⟨10, 10⟩, ⟨0, 10⟩, ⟨-0, 0⟩] = .ok g ∧
    g.ring = [⟨0, 0⟩, ⟨10, 0⟩, ⟨10, 10⟩, ⟨0, 10⟩] ∧
    Polygon.IsTidy g.ring ∧ Polygon.ofRing? g.ring = .ok g ∧
    Building.ofFootprint? [⟨0, 0, 1⟩, ⟨0, 0, 2⟩, ⟨10, 0, 3⟩, ⟨10, 10, 4⟩, ⟨0, 10, 5⟩, ⟨-0, 0, 6⟩]
      5 [] 1 = .ok b ∧
    b.plan = g ∧ b.footprint.length = 5 ∧
    b.footprint.dropLast.map Point3.plan = b.plan.ring := by
  have hring : Polygon.ofRing? [⟨0, 0⟩, ⟨0, 0⟩, ⟨10, 0⟩, ⟨10, 10⟩, ⟨10, 10⟩, ⟨0, 10⟩, ⟨-0, 0⟩] =
      .ok (⟨[⟨0, 0⟩, ⟨10, 0⟩, ⟨10, 10⟩, ⟨0, 10⟩]⟩ : Polygon Float) := by
    decide +kernel
  have hfootprint : ∃ b : Building Float, Building.ofFootprint?
      [⟨0, 0, 1⟩, ⟨0, 0, 2⟩, ⟨10, 0, 3⟩, ⟨10, 10, 4⟩, ⟨0, 10, 5⟩, ⟨-0, 0, 6⟩] 5 [] 1 = .ok b ∧
      b.plan = ⟨[⟨0, 0⟩, ⟨10, 0⟩, ⟨10, 10⟩, ⟨0, 10⟩]⟩ := by
    refine ⟨⟨[⟨0, 0, 1⟩, ⟨10, 0, 3⟩, ⟨10, 10, 4⟩, ⟨0, 10, 5⟩, ⟨-0, 0, 6⟩],
      ⟨[⟨0, 0⟩, ⟨10, 0⟩, ⟨10, 10⟩, ⟨0, 10⟩]⟩, 5, [], 1, Scalar.nan⟩, ?_, rfl⟩
    decide +kernel
  obtain ⟨b, hb, hplan⟩ := hfootprint
  obtain ⟨htidy, hagain, -⟩ := outlines_tidy.1 _ _ hring
  obtain ⟨-, hlength, hmap, -⟩ := outlines_tidy.2 _ 5 [] 1 b hb
  refine ⟨_, b, hring, rfl, htidy, hagain, hb, hplan, ?_, hmap⟩
  rw [hlength, hplan]
  rfl

end

end SiteSection
