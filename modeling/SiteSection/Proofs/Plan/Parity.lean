import SiteSection.Proofs.Plan.Boxes
import SiteSection.Proofs.Plan.Meeting

/-! # A segment through a ring

  A segment that begins and ends outside the box of a ring, and passes through none of its
  corners, meets an even number of its edges.

  If it meets the box at all, it holds everything that its line has in the box, since boxes
  are convex. So no corner is on the line, and an edge meets the segment if its ends are on
  the two sides of the line. Going around the ring, the sides change an even number of times.
  Nothing is asked of the ring: it may touch or cross itself.
-/

namespace SiteSection

/-! ## Changes along a path -/

section
variable {ι : Type} (side : ι → Bool)

/-- Along a path the side changes an even number of times if it begins and ends on one side. -/
theorem even_changes_pathEdges (i : ι) (l : List ι) :
    Even ((pathEdges (i :: l)).countP fun e => side e.1 != side e.2) ↔
      side i = side ((i :: l).getLast (List.cons_ne_nil i l)) := by
  induction l generalizing i with
  | nil => simp
  | cons j l ih =>
    rw [pathEdges_cons_cons, List.countP_cons, List.getLast_cons_cons]
    by_cases h : side i = side j
    · simp [h, ih]
    · have hchange : (side i != side j) = true := by simpa using h
      have hother : side i = !side j := by
        cases hi : side i <;> cases hj : side j <;> simp_all
      rw [if_pos hchange, Nat.even_add_one, ih, hother, Bool.not_eq_eq_eq_not, ← ne_eq,
        ← Bool.eq_not_iff]

/-- Around a ring the side changes an even number of times. -/
theorem even_changes_ringEdges (ring : List ι) :
    Even ((ringEdges ring).countP fun e => side e.1 != side e.2) := by
  cases ring with
  | nil => exact ⟨0, rfl⟩
  | cons i l =>
    show Even ((pathEdges (i :: (l ++ [i]))).countP _)
    rw [even_changes_pathEdges]
    simp

end

/-- An affine function that is positive at both ends is positive between them. -/
theorem affine_pos {K : Type} [ExactScalar K] {m n u : K} (hm : 0 < m) (hn : 0 < n) (hu : 0 ≤ u)
    (hu' : u ≤ 1) : 0 < m + (n - m) * u := by
  have hsplit : m + (n - m) * u = m * (1 - u) + n * u := by ring
  rw [hsplit]
  rcases hu.eq_or_lt with rfl | hpos
  · simpa using hm
  · exact add_pos_of_nonneg_of_pos (mul_nonneg hm.le (sub_nonneg.mpr hu')) (mul_pos hn hpos)

namespace Segment

variable {K : Type} [ExactScalar K] (s : Segment K) {o o' : Segment K} {p q : Point2 K}

/-! ## Meeting in plan -/

/-- Whether segments meet is a matter of the plan. -/
theorem isSome_intersect?_congr (h0 : o.p0.plan = o'.p0.plan) (h1 : o.p1.plan = o'.p1.plan) :
    (s.intersect? o).isSome = (s.intersect? o').isSome := by
  rw [Bool.eq_iff_iff, isSome_intersect?_iff, isSome_intersect?_iff]
  simp only [on_congr h0 h1]

/-! ## Sides of a line -/

/-- How far a location is to the side of the line of the segment; zero on the line. -/
def offset (p : Point2 K) : K := (p - s.p0.plan).cross s.dir

/-- The offset is affine. -/
theorem offset_pointAt (o : Segment K) (u : K) :
    s.offset (o.pointAt u).plan =
      s.offset o.p0.plan + (s.offset o.p1.plan - s.offset o.p0.plan) * u := by
  simp only [offset, Point2.cross, Point2.sub_x, Point2.sub_y, Point3.plan_x, Point3.plan_y,
    pointAt_x, pointAt_y, dir_x, dir_y]
  ring

theorem offset_of_on (h : s.On p) : s.offset p = 0 := by
  obtain ⟨t, _, _, rfl⟩ := h
  simp only [offset, Point2.cross, Point2.sub_x, Point2.sub_y, Point3.plan_x, Point3.plan_y,
    pointAt_x, pointAt_y, dir_x, dir_y]
  ring

/-! ## Through a ring -/

/-- How many edges of a ring the segment meets. -/
def meetings (s : Segment K) (ring : List (Point2 K)) : Nat :=
  (ringEdges ring).countP fun e => (s.intersect? (flat e.1 e.2)).isSome

/-- The segment begins and ends outside the box of the ring, and passes through no corner. -/
structure Traverses (s : Segment K) (ring : List (Point2 K)) : Prop where
  /-- No corner is on the segment. -/
  off_corners : ∀ v ∈ ring, ¬ s.On v
  /-- The segment begins outside. -/
  begins_outside : Box2.contains (Box.ofPoints ring) s.p0.plan = false
  /-- The segment ends outside. -/
  ends_outside : Box2.contains (Box.ofPoints ring) s.p1.plan = false

variable {s}

/-- A segment that meets a box without beginning or ending there holds all that its line has in
    the box. -/
theorem on_of_contains {b : Box2 K} (h0 : b.contains s.p0.plan = false)
    (h1 : b.contains s.p1.plan = false) (hp : s.On p) (hpb : b.contains p = true)
    (hq : s.offset q = 0) (hqb : b.contains q = true) : s.On q := by
  have hlength : s.sqLength ≠ 0 := by
    intro hzero
    obtain ⟨t, _, _, rfl⟩ := hp
    rw [s.pointAt_plan_of_sqLength_eq_zero hzero, h0] at hpb
    cases hpb
  have hplace : (s.pointAt (s.project q)).plan = q := s.pointAt_project_of_side hlength hq
  obtain ⟨t, ht, ht', rfl⟩ := hp
  rw [← hplace] at hqb
  refine ⟨s.project q, ?_, ?_, hplace⟩
  · -- Otherwise the segment would begin in the box.
    by_contra hneg
    have hin := s.contains_between (not_le.mp hneg).le ht hqb hpb
    rw [s.pointAt_plan_zero, h0] at hin
    cases hin
  · by_contra hbeyond
    have hin := s.contains_between ht' (not_le.mp hbeyond).le hpb hqb
    rw [s.pointAt_plan_one, h1] at hin
    cases hin

/-- An edge is met if its ends are on the two sides of the line. -/
theorem Traverses.isSome_intersect?_edge {ring : List (Point2 K)} (h : s.Traverses ring)
    (hp : s.On p) (hpb : Box2.contains (Box.ofPoints ring) p = true)
    {e : Point2 K × Point2 K} (he : e ∈ ringEdges ring) :
    (s.intersect? (flat e.1 e.2)).isSome =
      (decide (0 < s.offset e.1) != decide (0 < s.offset e.2)) := by
  have hheld : ∀ {q}, s.offset q = 0 → Box2.contains (Box.ofPoints ring) q = true → s.On q :=
    fun hq hqb => on_of_contains h.begins_outside h.ends_outside hp hpb hq hqb
  obtain ⟨h0, h1⟩ := mem_of_mem_ringEdges he
  have hne : ∀ v ∈ ring, s.offset v ≠ 0 := fun v hv hzero =>
    h.off_corners v hv (hheld hzero (Box2.contains_ofPoints hv))
  rw [Bool.eq_iff_iff, isSome_intersect?_iff, bne_iff_ne, ne_eq, decide_eq_decide]
  constructor
  · rintro ⟨y, hy, u, hu, hu', rfl⟩ hsides
    have hzero : s.offset e.1 + (s.offset e.2 - s.offset e.1) * u = 0 :=
      (s.offset_pointAt (flat e.1 e.2) u).symm.trans (s.offset_of_on hy)
    -- Between two ends on one side there is no place of the line.
    rcases lt_or_gt_of_ne (hne e.1 h0) with hneg | hpos
    · have hneg' : s.offset e.2 < 0 :=
        lt_of_le_of_ne (not_lt.mp fun h' => hneg.not_gt (hsides.mpr h')) (hne e.2 h1)
      have hpos := affine_pos (neg_pos.mpr hneg) (neg_pos.mpr hneg') hu hu'
      linarith
    · have hpos := affine_pos hpos (hsides.mp hpos) hu hu'
      linarith
  · intro hsides
    obtain ⟨u, hu, hu', hzero⟩ := exists_affine_zero hsides
    have hon := (flat e.1 e.2).on_pointAt hu hu'
    have hzero' := (s.offset_pointAt (flat e.1 e.2) u).trans hzero
    exact ⟨_, hheld hzero' (contains_of_on_edge he hon), hon⟩

/-- **Through a ring.** A segment that traverses a ring meets an even number of its edges. -/
theorem Traverses.even_meetings {ring : List (Point2 K)} (h : s.Traverses ring) :
    Even (s.meetings ring) := by
  by_cases hmeets : ∃ p, s.On p ∧ Box2.contains (Box.ofPoints ring) p = true
  · obtain ⟨p, hp, hpb⟩ := hmeets
    rw [meetings, List.countP_congr fun e he => by rw [h.isSome_intersect?_edge hp hpb he]]
    exact even_changes_ringEdges (fun v => decide (0 < s.offset v)) ring
  · have hnone : s.meetings ring = 0 := by
      rw [meetings, List.countP_eq_zero]
      intro e he hsome
      obtain ⟨y, hy, hy'⟩ := s.isSome_intersect?_iff.mp hsome
      exact hmeets ⟨y, hy, contains_of_on_edge he hy'⟩
    rw [hnone]
    exact ⟨0, rfl⟩

end Segment

end SiteSection
