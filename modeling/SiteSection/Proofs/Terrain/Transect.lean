import Mathlib.Data.List.Destutter
import SiteSection.Proofs.Plan.Planes
import SiteSection.Proofs.Terrain.GeneralPosition
import SiteSection.Proofs.Terrain.Reach

/-! # Walks in general position

  In general position a walk takes the crossings of its line with the edges of the mesh in
  their order, between the ends of the line. What is left of the crossings when the walk leaves
  a triangle is one crossing less than when it entered.
-/

namespace SiteSection

namespace Terrain

variable {K : Type} [ExactScalar K] {s : Terrain K} {line : Segment K} {eps lo hi : K}
  {visited : List Nat} {i j : Nat} {t : Triangle K} {e : Point3 K × Point3 K} {x : Point3 K}
  {a b z : Point2 K}

/-! ## Walking -/

/-- In a list in increasing order, what is beyond a bound is the first element beyond it,
    and what is beyond that. -/
theorem filter_eq_cons_of_pairwise {ι : Type} (f : ι → K) {l : List ι} {a : ι}
    (hl : l.Pairwise fun b c => f b < f c) (ha : a ∈ l) (hlo : lo < f a)
    (hnext : ∀ b ∈ l, lo < f b → f a ≤ f b) :
    l.filter (fun b => lo < f b) = a :: l.filter fun b => f a < f b := by
  induction l with
  | nil => cases ha
  | cons b l ih =>
    obtain ⟨hb, hl⟩ := List.pairwise_cons.mp hl
    rcases List.mem_cons.mp ha with rfl | ha
    · have hall : ∀ c ∈ l, lo < f c := fun c hc => hlo.trans (hb c hc)
      rw [List.filter_cons_of_pos (by simpa using hlo), List.filter_cons_of_neg (by simp),
        List.filter_eq_self.mpr (by simpa using hall), List.filter_eq_self.mpr (by simpa using hb)]
    · have hba : f b < f a := hb a ha
      have hbelow : ¬ lo < f b := fun hlt =>
        absurd (hnext b List.mem_cons_self hlt) (not_le.mpr hba)
      rw [List.filter_cons_of_neg (by simpa using hbelow),
        List.filter_cons_of_neg (by simpa using hba.le)]
      exact ih hl ha fun c hc => hnext c (List.mem_cons_of_mem b hc)

/-- A sample at a later parameter is where no sample was. -/
theorem distinctFrom_of_lt (hlength : line.sqLength ≠ 0) {last : Point3 K}
    (hlast : last.plan = (line.pointAt lo).plan) (hx : x.plan = (line.pointAt hi).plan)
    (hlt : lo < hi) : distinctFrom last x = [x] := by
  have hdiff : last.samePlan x = false := by
    rw [Point3.samePlan, hlast, hx, beq_eq_false_iff_ne]
    intro hsame
    have hparameter := congrArg line.project hsame
    rw [line.project_pointAt hlength, line.project_pointAt hlength] at hparameter
    exact hlt.ne hparameter
  rw [distinctFrom, hdiff, if_neg (by simp)]

/-- The only triangle to hold a location of the mesh has it. -/
theorem IsTriangulation.has_of_holds_iff (h : s.IsTriangulation) (hz : s.upright.Covers z)
    (honly : ∀ k, s.holds k z = true ↔ k = i) (ht : s.triangles[i]? = some t) :
    t.upright.Has z := by
  obtain ⟨_, hmem, hhas⟩ := hz
  obtain ⟨k, t', hk, rfl⟩ := exists_of_mem_upright hmem
  rw [(honly k).mp (h.holds_of_has hk hhas), ht, Option.some.injEq] at hk
  rwa [hk]

section
variable (h : s.IsTriangulation) (hgen : s.GeneralPosition line eps) (heps : 0 < eps)
include h hgen heps

section
variable (ht : t ∈ s.triangles) (hlo : lo ∈ t.upright.within line)
include ht hlo

/-- Between two places in one triangle there is no crossing. -/
theorem le_or_le_of_mem_edgeCrossings (hhi : hi ∈ t.upright.within line)
    (hx : x ∈ s.edgeCrossings line) :
    line.project x.plan ≤ lo ∨ hi ≤ line.project x.plan := by
  by_contra hbetween
  rw [not_or, not_le, not_le] at hbetween
  obtain ⟨t', ht', e, he, hline, hon, _⟩ := (hgen.mem_edgeCrossings heps h).mp hx
  rw [← line.pointAt_project hline] at hon
  exact hgen.not_on_of_between heps h ht hlo hhi hbetween.1 hbetween.2 ht' he hon

/-- In the triangle that has the end of the line there are no more crossings. -/
theorem filter_edgeCrossings_of_has (hend : t.upright.Has line.p1.plan) :
    (s.edgeCrossings line).filter (fun x => lo < line.project x.plan) = [] := by
  have hone : (1 : K) ∈ t.upright.within line :=
    ⟨zero_le_one, le_rfl, by rwa [line.pointAt_plan_one]⟩
  rw [List.filter_eq_nil_iff]
  intro x hx
  obtain ⟨t', ht', e, he, hline, hon, _⟩ := (hgen.mem_edgeCrossings heps h).mp hx
  rcases le_or_le_of_mem_edgeCrossings h hgen heps ht hlo hone hx with hle | hge
  · simpa using hle
  · -- A crossing at the end of the line would put the end on a side.
    exfalso
    have hlast : line.project x.plan = 1 := le_antisymm (line.project_mem hline).2 hge
    rw [← line.pointAt_project hline, hlast, line.pointAt_plan_one] at hon
    exact hgen.not_on_finish heps ht' he hon

/-- Beyond a place in a triangle the first crossing is where the line leaves the triangle. -/
theorem filter_edgeCrossings_of_leaves (hhi : hi ∈ t.upright.within line) (hlohi : lo < hi)
    (he : e ∈ t.sides) (hon : (⟨e.1, e.2⟩ : Segment K).On (line.pointAt hi).plan)
    (hx : x = (line.pointAt hi).plan.atZ
      ((⟨e.1, e.2⟩ : Segment K).elevation (line.pointAt hi).plan)) :
    (s.edgeCrossings line).filter (fun y => lo < line.project y.plan) =
      x :: (s.edgeCrossings line).filter fun y => hi < line.project y.plan := by
  have hline : line.On (line.pointAt hi).plan := line.on_pointAt hhi.1 hhi.2.1
  have hproject : line.project x.plan = hi := by
    rw [hx, Point2.atZ_plan, line.project_pointAt (hgen.sqLength_ne_zero heps ht he hline hon)]
  have hmem : x ∈ s.edgeCrossings line := by
    rw [hgen.mem_edgeCrossings heps h, hx]
    exact ⟨t, ht, e, he, hline, hon, rfl⟩
  have hfirst : ∀ y ∈ s.edgeCrossings line, lo < line.project y.plan →
      line.project x.plan ≤ line.project y.plan := by
    intro y hy hlt
    rw [hproject]
    rcases le_or_le_of_mem_edgeCrossings h hgen heps ht hlo hhi hy with hle | hge
    · exact absurd hlt (not_lt.mpr hle)
    · exact hge
  rw [filter_eq_cons_of_pairwise (fun y : Point3 K => line.project y.plan)
    (hgen.pairwise_edgeCrossings heps h) hmem (hproject ▸ hlohi) hfirst, hproject]

end

/-- **All steps.** From the triangle that the line enters at a parameter, the walk takes the
    crossings beyond it, and then the end of the line. -/
theorem samplesFrom_eq {bound : Nat} {last : Point3 K} (hlength : line.sqLength ≠ 0)
    (hcover : ∀ u, 0 ≤ u → u ≤ 1 → s.upright.Covers (line.pointAt u).plan)
    (hend : ∀ k, s.holds k line.p1.plan = true ↔ k = j)
    (henters : s.upright.Enters line visited i lo) (hlast : last.plan = (line.pointAt lo).plan)
    (hnodup : visited.Nodup) (hindex : ∀ k ∈ visited, k < s.triangles.length)
    (hbound : s.triangles.length < bound + visited.length) :
    s.samplesFrom line eps bound visited i last =
      (s.edgeCrossings line).filter (fun x => lo < line.project x.plan) ++
        [line.p1.withZ (s.planeZ j line.p1.plan)] := by
  -- The induction is on the number of triangles that may still be entered.
  induction bound generalizing visited i lo last with
  | zero =>
    exfalso
    have hle := length_visited_le hnodup hindex
    omega
  | succ bound ih =>
    have hahead := henters.ahead
    obtain ⟨_, hupright, hlo, ⟨u, hu, hlater⟩, _⟩ := henters
    rw [getElem?_upright] at hupright
    obtain ⟨t, ht, rfl⟩ := Option.map_eq_some_iff.mp hupright
    have htmem : t ∈ s.triangles := List.mem_of_getElem? ht
    rw [samplesFrom]
    split
    · next hholds =>
      -- The triangle is the one that has the end of the line.
      have hij : i = j := (hend i).mp hholds
      subst hij
      have hfinish := hcover 1 zero_le_one le_rfl
      rw [line.pointAt_plan_one] at hfinish
      rw [filter_edgeCrossings_of_has h hgen heps htmem hlo (h.has_of_holds_iff hfinish hend ht),
        List.nil_append]
      exact distinctFrom_of_lt hlength hlast (by rw [line.pointAt_plan_one, Point3.withZ_plan])
        (hlater.trans_le hu.2.1)
    · next hnot =>
      obtain ⟨hi, e, k, hgreatest, he, hnext, henters', side, hside, hon, hcrossing⟩ :=
        exists_exit?_entering h (hgen.passable heps) heps hcover hahead ht (by simpa using hnot)
      have hlohi : lo < hi := hlater.trans_le (hgreatest.2 hu)
      have hplan : e.crossing.plan = (line.pointAt hi).plan := by
        rw [hcrossing, Point2.atZ_plan]
      have hlt : i < s.triangles.length := (List.getElem?_eq_some_iff.mp ht).1
      rw [filter_edgeCrossings_of_leaves h hgen heps htmem hlo hgreatest.1 hlohi hside hon
        hcrossing]
      simp only [he, hnext, distinctFrom_of_lt hlength hlast hplan hlohi, List.getLast?_singleton,
        Option.getD_some, List.cons_append, List.nil_append]
      congr 1
      apply ih henters' hplan (List.nodup_cons.mpr ⟨hahead.notMem, hnodup⟩)
      · intro k hk
        rcases List.mem_cons.mp hk with rfl | hk
        · exact hlt
        · exact hindex k hk
      · rw [List.length_cons]
        omega

end

/-! ## From end to end -/

section
variable (h : s.IsTriangulation) (hgen : s.GeneralPosition line eps) (heps : 0 < eps)
include h hgen heps

/-- A line without length crosses nothing. -/
theorem edgeCrossings_of_sqLength_eq_zero (hlength : line.sqLength = 0) :
    s.edgeCrossings line = [] := by
  rw [List.eq_nil_iff_forall_not_mem]
  intro x hx
  obtain ⟨t, ht, e, he, hline, hon, _⟩ := (hgen.mem_edgeCrossings heps h).mp hx
  exact hgen.sqLength_ne_zero heps ht he hline hon hlength

/-- Every crossing is between the ends of the line. -/
theorem project_mem_of_mem_edgeCrossings (hx : x ∈ s.edgeCrossings line) :
    0 < line.project x.plan ∧ line.project x.plan < 1 := by
  obtain ⟨t, ht, e, he, hline, hon, _⟩ := (hgen.mem_edgeCrossings heps h).mp hx
  obtain ⟨hzero, hone⟩ := line.project_mem hline
  rw [← line.pointAt_project hline] at hon
  constructor
  · refine lt_of_le_of_ne hzero fun heq => hgen.not_on_start heps ht he ?_
    rwa [← heq, line.pointAt_plan_zero] at hon
  · refine lt_of_le_of_ne hone fun heq => hgen.not_on_finish heps ht he ?_
    rwa [heq, line.pointAt_plan_one] at hon

/-- With the ends, the crossings are in their order along the line. -/
theorem pairwise_ends_edgeCrossings (hlength : line.sqLength ≠ 0) {first last : Point3 K}
    (hfirst : first.plan = line.p0.plan) (hlast : last.plan = line.p1.plan) :
    (first :: (s.edgeCrossings line ++ [last])).Pairwise fun x y =>
      line.project x.plan < line.project y.plan := by
  have hzero : line.project first.plan = 0 := by rw [hfirst, line.project_p0]
  have hone : line.project last.plan = 1 := by
    rw [hlast, ← line.pointAt_plan_one, line.project_pointAt hlength]
  rw [List.pairwise_cons, List.pairwise_append]
  refine ⟨?_, hgen.pairwise_edgeCrossings heps h, List.pairwise_singleton _ _, ?_⟩
  · intro x hx
    rw [hzero]
    rcases List.mem_append.mp hx with hx | hx
    · exact (project_mem_of_mem_edgeCrossings h hgen heps hx).1
    · rw [List.mem_singleton.mp hx, hone]
      exact zero_lt_one
  · intro x hx y hy
    rw [List.mem_singleton.mp hy, hone]
    exact (project_mem_of_mem_edgeCrossings h hgen heps hx).2

end

/-- The line enters the triangle that alone holds its first end. -/
theorem enters_start (h : s.IsTriangulation)
    (hcover : ∀ u, 0 ≤ u → u ≤ 1 → s.upright.Covers (line.pointAt u).plan)
    (hstart : ∀ k, s.holds k line.p0.plan = true ↔ k = i) : s.upright.Enters line [] i 0 := by
  obtain ⟨_, hmem, hzero, hlater⟩ := exists_further hcover le_rfl zero_lt_one
  obtain ⟨k, t, hk, rfl⟩ := exists_of_mem_upright hmem
  have hhas : t.upright.Has line.p0.plan := by
    rw [← line.pointAt_plan_zero]
    exact hzero.2.2
  rw [(hstart k).mp (h.holds_of_has hk hhas)] at hk
  refine ⟨t.upright, ?_, hzero, hlater, by simp⟩
  rw [getElem?_upright, hk, Option.map_some]

/-- A walk from a location that only one triangle holds starts there, in this triangle. -/
theorem walk_eq_cons (h : s.IsTriangulation) (ha : s.upright.Covers a)
    (hstart : ∀ k, s.holds k a = true ↔ k = i) :
    s.walk a b eps = a.atZ (s.planeZ i a) ::
      s.samplesFrom (Segment.flat a b) eps (s.triangles.length + 1) [] i
        (a.atZ (s.planeZ i a)) := by
  have hp : s.upright.Covers (Segment.flat a b).p0.plan := ha
  obtain ⟨k, t, ht, hhas, hwhere⟩ := exists_start?_upright h hp
  have hki : k = i := (hstart k).mp (h.holds_of_has ht hhas)
  rw [walk, hwhere, hki]
  rfl

/-- A walk to the place where it starts has one sample. -/
theorem walk_self (h : s.IsTriangulation) (ha : s.upright.Covers a)
    (hstart : ∀ k, s.holds k a = true ↔ k = i) : s.walk a a eps = [a.atZ (s.planeZ i a)] := by
  have hholds : s.holds i (Segment.flat a a).p1.plan = true := (hstart i).mpr rfl
  have hsame : (a.atZ (s.planeZ i a)).samePlan ((Segment.flat a a).p1.withZ
      (s.planeZ i (Segment.flat a a).p1.plan)) = true := beq_self_eq_true a
  rw [walk_eq_cons h ha hstart, samplesFrom, if_pos hholds, distinctFrom, if_pos hsame]

/-- **The walk is the transect.** Over a triangulation, a walk in general position has as its
    samples the first end of the line, its crossings with the edges of the mesh in order along
    the line, and the second end, without repeating a place. -/
theorem walk_eq_edgeCrossings (h : s.IsTriangulation) (heps : 0 < eps)
    (hcover : ∀ y, (Segment.flat a b).On y → s.upright.Covers y)
    (hgen : s.GeneralPosition (Segment.flat a b) eps)
    (hstart : ∀ k, s.holds k a = true ↔ k = i) (hend : ∀ k, s.holds k b = true ↔ k = j) :
    s.walk a b eps = List.destutter (fun x y => x.samePlan y = false)
      (a.atZ (s.planeZ i a) ::
        (s.edgeCrossings (Segment.flat a b) ++ [b.atZ (s.planeZ j b)])) := by
  set line := Segment.flat a b
  have ha : s.upright.Covers a := hcover _ line.on_p0
  by_cases hlength : line.sqLength = 0
  · -- The ends are one place.
    have hba : b = a := by
      have hplace := line.pointAt_plan_of_sqLength_eq_zero hlength 1
      rwa [line.pointAt_plan_one] at hplace
    have hsame : (a.atZ (s.planeZ i a)).samePlan (b.atZ (s.planeZ j b)) = true := by
      rw [Point3.samePlan, Point2.atZ_plan, Point2.atZ_plan, hba, beq_self_eq_true]
    rw [edgeCrossings_of_sqLength_eq_zero h hgen heps hlength, List.nil_append,
      List.destutter_pair, if_neg (by simp [hsame]), hba, walk_self h ha hstart]
  · have hcover' : ∀ u, 0 ≤ u → u ≤ 1 → s.upright.Covers (line.pointAt u).plan :=
      fun u hu hu' => hcover _ (line.on_pointAt hu hu')
    have hall : (s.edgeCrossings line).filter (fun x => 0 < line.project x.plan) =
        s.edgeCrossings line := by
      rw [List.filter_eq_self]
      intro x hx
      simpa using (project_mem_of_mem_edgeCrossings h hgen heps hx).1
    have hsamples : s.samplesFrom line eps (s.triangles.length + 1) [] i
        (a.atZ (s.planeZ i a)) = _ :=
      samplesFrom_eq h hgen heps hlength hcover' hend (enters_start h hcover' hstart)
        line.pointAt_plan_zero.symm List.nodup_nil (by simp) (by simp)
    have hordered := pairwise_ends_edgeCrossings h hgen heps hlength
      (rfl : (a.atZ (s.planeZ i a)).plan = line.p0.plan)
      (rfl : (b.atZ (s.planeZ j b)).plan = line.p1.plan)
    rw [walk_eq_cons h ha hstart, hsamples, hall]
    -- What is in order along the line is nowhere twice.
    refine (List.destutter_of_isChain _ _ (hordered.isChain.imp fun x y hlt => ?_)).symm
    rw [Point3.samePlan, beq_eq_false_iff_ne]
    intro hplan
    exact hlt.ne (by rw [hplan])

/-! ## Across a square -/

theorem elevation_lowerHalf (p : Point2 ℝ) : lowerHalf.plane.elevation p = p.y := by
  have harea : lowerHalf.doubleArea = 16 := by
    norm_num [Triangle.doubleArea, Ring.side_eq, lowerHalf]
  have hmean := Triangle.doubleArea_mul_elevation (harea.trans_ne (by norm_num)) p
  rw [harea] at hmean
  simp only [Ring.side_eq, lowerHalf, Point3.plan_x, Point3.plan_y] at hmean ⊢
  linarith

theorem elevation_upperHalf (p : Point2 ℝ) : upperHalf.plane.elevation p = p.x := by
  have harea : upperHalf.doubleArea = 16 := by
    norm_num [Triangle.doubleArea, Ring.side_eq, upperHalf]
  have hmean := Triangle.doubleArea_mul_elevation (harea.trans_ne (by norm_num)) p
  rw [harea] at hmean
  simp only [Ring.side_eq, upperHalf, Point3.plan_x, Point3.plan_y] at hmean ⊢
  linarith

/-- The sides of the halves are the border of the square and its diagonal. -/
theorem side_halvedSquare {t : Triangle ℝ} {e : Point3 ℝ × Point3 ℝ} {z : Point2 ℝ}
    (ht : t ∈ halvedSquare.triangles) (he : e ∈ t.sides) (hz : (⟨e.1, e.2⟩ : Segment ℝ).On z) :
    (z.x = 0 ∨ z.x = 4 ∨ z.y = 0 ∨ z.y = 4) ∨ z.x = z.y := by
  obtain ⟨w, _, _, rfl⟩ := hz
  simp only [halvedSquare, List.mem_cons, List.not_mem_nil, or_false] at ht
  rcases ht with rfl | rfl
  · simp only [Triangle.sides, lowerHalf, List.mem_cons, List.not_mem_nil, or_false] at he
    rcases he with rfl | rfl | rfl <;> simp
  · simp only [Triangle.sides, upperHalf, List.mem_cons, List.not_mem_nil, or_false] at he
    rcases he with rfl | rfl | rfl <;> simp

/-- In the middle of the square all sides have the elevation that the halves have in common. -/
theorem elevation_side_middle {t : Triangle ℝ} {e : Point3 ℝ × Point3 ℝ}
    (ht : t ∈ halvedSquare.triangles) (he : e ∈ t.sides)
    (hmiddle : (⟨e.1, e.2⟩ : Segment ℝ).On ⟨2, 2⟩) :
    (⟨e.1, e.2⟩ : Segment ℝ).elevation ⟨2, 2⟩ = 2 := by
  have harea : t.doubleArea ≠ 0 := (isTessellation_halvedSquare.positive t ht).ne'
  rw [← (Triangle.elevation_side harea he hmiddle).1]
  simp only [halvedSquare, List.mem_cons, List.not_mem_nil, or_false] at ht
  rcases ht with rfl | rfl
  · exact elevation_lowerHalf _
  · exact elevation_upperHalf _

/-- The line across the diagonal of the square is in general position. -/
theorem generalPosition_acrossDiagonal :
    halvedSquare.GeneralPosition acrossDiagonal (1 / 2) := by
  -- Away from the border and from the diagonal a location is away from all sides.
  have haway : ∀ {y : Point2 ℝ}, acrossDiagonal.On y → 1 ≤ |y.x - y.y| →
      ∀ t ∈ halvedSquare.triangles, ∀ e ∈ t.sides, ∀ z, (⟨e.1, e.2⟩ : Segment ℝ).On z →
        1 / 2 ≤ y.dist z := by
    intro y hy hxy t ht e he z hz
    rcases side_halvedSquare ht he hz with hborder | hdiagonal
    · exact half_le_dist_border hy hborder
    · obtain ⟨hx, hy⟩ := Point2.abs_sub_le_dist y z
      have htriangle := abs_sub_le y.x z.x y.y
      rw [abs_sub_comm z.x y.y, hdiagonal] at htriangle
      rw [hdiagonal] at hx
      linarith
  refine ⟨?_, haway acrossDiagonal.on_p0 ?_, haway acrossDiagonal.on_p1 ?_⟩
  · intro t ht v hv y hy
    refine half_le_dist_border hy ?_
    simp only [halvedSquare, List.mem_cons, List.not_mem_nil, or_false] at ht
    rcases ht with rfl | rfl
    · simp only [Triangle.corners, lowerHalf, List.mem_cons, List.not_mem_nil, or_false] at hv
      rcases hv with rfl | rfl | rfl <;> simp
    · simp only [Triangle.corners, upperHalf, List.mem_cons, List.not_mem_nil, or_false] at hv
      rcases hv with rfl | rfl | rfl <;> simp
  · norm_num [acrossDiagonal, Segment.flat, Point2.atZ]
  · norm_num [acrossDiagonal, Segment.flat, Point2.atZ]

/-- The line crosses the diagonal in the middle, and nothing else. -/
theorem edgeCrossings_acrossDiagonal :
    halvedSquare.edgeCrossings acrossDiagonal = [⟨2, 2, 2⟩] := by
  have htri := isTessellation_halvedSquare.isTriangulation
  have hordered := generalPosition_acrossDiagonal.pairwise_edgeCrossings one_half_pos htri
  have hirrefl : Std.Irrefl fun x y : Point3 ℝ =>
      acrossDiagonal.project x.plan < acrossDiagonal.project y.plan := ⟨fun _ => lt_irrefl _⟩
  refine hordered.eq_of_mem_iff (List.pairwise_singleton _ _) fun x => ?_
  rw [generalPosition_acrossDiagonal.mem_edgeCrossings one_half_pos htri, List.mem_singleton]
  constructor
  · rintro ⟨t, ht, e, he, hline, hon, hz⟩
    have hsum := (on_acrossDiagonal hline).2.2
    rcases side_halvedSquare ht he hon with hborder | hdiagonal
    · have haway := half_le_dist_border hline hborder
      rw [Point2.dist_eq_zero.mpr rfl] at haway
      norm_num at haway
    · rw [Point3.plan_x, Point3.plan_y] at hsum hdiagonal
      have hmiddle : x.plan = ⟨2, 2⟩ := by
        ext
        · rw [Point3.plan_x]
          linarith
        · rw [Point3.plan_y]
          linarith
      rw [hmiddle] at hon hz
      rw [elevation_side_middle ht he hon] at hz
      ext
      · exact congrArg Point2.x hmiddle
      · exact congrArg Point2.y hmiddle
      · exact hz
  · rintro rfl
    have hdiagonal := on_diagonal (p := ⟨2, 2⟩) (has_lowerHalf.mpr (by norm_num))
      (has_upperHalf.mpr (by norm_num))
    have hmem : lowerHalf ∈ halvedSquare.triangles := List.mem_cons_self
    have hside : ((⟨4, 4, 4⟩, ⟨0, 0, 0⟩) : Point3 ℝ × Point3 ℝ) ∈ lowerHalf.sides := by
      simp [Triangle.sides, lowerHalf]
    exact ⟨_, hmem, _, hside, middle_on_acrossDiagonal, hdiagonal.2,
      (elevation_side_middle hmem hside hdiagonal.2).symm⟩

/-- The ends of the line are each in one half of the square. -/
theorem holds_halvedSquare_iff (k : Nat) :
    (halvedSquare.holds k ⟨3, 1⟩ = true ↔ k = 0) ∧
      (halvedSquare.holds k ⟨1, 3⟩ = true ↔ k = 1) := by
  have htri := isTessellation_halvedSquare.isTriangulation
  have hlower : lowerHalf.upright = lowerHalf :=
    Triangle.upright_of_pos (isTessellation_halvedSquare.positive _ List.mem_cons_self)
  have hupper : upperHalf.upright = upperHalf := Triangle.upright_of_pos
    (isTessellation_halvedSquare.positive _ (List.mem_cons_of_mem _ List.mem_cons_self))
  match k with
  | 0 =>
    refine ⟨iff_of_true (htri.holds_of_has (t := lowerHalf) rfl ?_) rfl, iff_of_false ?_ (by simp)⟩
    · rw [hlower, has_lowerHalf]
      norm_num
    · rw [htri.holds_eq_false (t := lowerHalf) rfl (e := (⟨4, 4, 4⟩, ⟨0, 0, 0⟩))]
      · simp
      · simp [Triangle.sides, lowerHalf]
      · norm_num [Triangle.doubleArea, Ring.side_eq, lowerHalf, Point3.plan, locateTolerance,
          Scalar.negPowTen]
  | 1 =>
    refine ⟨iff_of_false ?_ (by simp), iff_of_true (htri.holds_of_has (t := upperHalf) rfl ?_) rfl⟩
    · rw [htri.holds_eq_false (t := upperHalf) rfl (e := (⟨0, 0, 0⟩, ⟨4, 4, 4⟩))]
      · simp
      · simp [Triangle.sides, upperHalf]
      · norm_num [Triangle.doubleArea, Ring.side_eq, upperHalf, Point3.plan, locateTolerance,
          Scalar.negPowTen]
    · rw [hupper, has_upperHalf]
      norm_num
  | k + 2 => simp [holds, excess?, halvedSquare]

/-- A walk across the ridge over the diagonal has three samples, the middle one on the ridge. -/
theorem walk_eq_edgeCrossings_halvedSquare :
    halvedSquare.IsTriangulation ∧
      (∀ y, acrossDiagonal.On y → halvedSquare.upright.Covers y) ∧
        halvedSquare.GeneralPosition acrossDiagonal (1 / 2) ∧
          halvedSquare.walk ⟨3, 1⟩ ⟨1, 3⟩ (1 / 2) = [⟨3, 1, 1⟩, ⟨2, 2, 2⟩, ⟨1, 3, 1⟩] := by
  have htri := isTessellation_halvedSquare.isTriangulation
  have hcover : ∀ y, acrossDiagonal.On y → halvedSquare.upright.Covers y := by
    intro y hy
    rw [isTessellation_halvedSquare.upright_eq, covers_halvedSquare]
    obtain ⟨hlow, hhigh, hsum⟩ := on_acrossDiagonal hy
    exact ⟨⟨by linarith, by linarith⟩, by linarith, by linarith⟩
  have hstart : halvedSquare.planeZ 0 ⟨3, 1⟩ = 1 := elevation_lowerHalf _
  have hend : halvedSquare.planeZ 1 ⟨1, 3⟩ = 1 := elevation_upperHalf _
  refine ⟨htri, hcover, generalPosition_acrossDiagonal, ?_⟩
  have hcrossings : halvedSquare.edgeCrossings (Segment.flat ⟨3, 1⟩ ⟨1, 3⟩) = [⟨2, 2, 2⟩] :=
    edgeCrossings_acrossDiagonal
  rw [walk_eq_edgeCrossings htri one_half_pos hcover generalPosition_acrossDiagonal
    (fun k => (holds_halvedSquare_iff k).1) (fun k => (holds_halvedSquare_iff k).2), hcrossings,
    hstart, hend]
  refine List.destutter_of_isChain _ _ ?_
  simp [Point3.samePlan, Point2.atZ, Point3.plan]

end Terrain

end SiteSection
