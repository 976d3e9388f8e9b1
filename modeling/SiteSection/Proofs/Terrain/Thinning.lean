import SiteSection.Proofs.Plan.Segment
import SiteSection.Terrain.Thinning

/-! # How far thinning departs from the samples

  A sample is judged against the segment from the last sample kept to the sample next to it,
  but what replaces it is the segment from the last sample kept to the next sample kept. As
  long as samples are dropped the end of the segment moves on, and each move may cost another
  tolerance. So a dropped sample is within the tolerance of the segment it was judged against,
  and within as many tolerances of the segment that replaces it as samples were dropped from
  it on.
-/

namespace SiteSection

variable {K : Type} [ExactScalar K]

/-! ## Lengths in space -/

namespace Point3

/-- The square of the length of a vector. -/
def normSq (v : Point3 K) : K := v.x * v.x + v.y * v.y + v.z * v.z

theorem normSq_nonneg (v : Point3 K) : 0 ≤ v.normSq :=
  add_nonneg (add_nonneg (mul_self_nonneg v.x) (mul_self_nonneg v.y)) (mul_self_nonneg v.z)

theorem norm_eq_sqrt (v : Point3 K) : Coordinates.norm v = Scalar.sqrt v.normSq := by
  simp [Coordinates.norm, Coordinates.toList, Scalar.sum, normSq]

theorem norm_nonneg (v : Point3 K) : 0 ≤ Coordinates.norm v := by
  rw [norm_eq_sqrt]
  exact ExactScalar.sqrt_nonneg _

theorem norm_mul_self (v : Point3 K) : Coordinates.norm v * Coordinates.norm v = v.normSq := by
  rw [norm_eq_sqrt]
  exact ExactScalar.sqrt_mul_self _ v.normSq_nonneg

/-- Lengths are compared by their squares. -/
theorem norm_le_iff {v : Point3 K} {l : K} (h : 0 ≤ l) :
    Coordinates.norm v ≤ l ↔ v.normSq ≤ l * l := by
  rw [← norm_mul_self]
  exact mul_self_le_mul_self_iff v.norm_nonneg h

/-- The scalar product is at most the product of the lengths. -/
theorem mul_le_norm_mul_norm (v w : Point3 K) :
    v.x * w.x + v.y * w.y + v.z * w.z ≤ Coordinates.norm v * Coordinates.norm w := by
  have hnonneg : 0 ≤ Coordinates.norm v * Coordinates.norm w :=
    mul_nonneg v.norm_nonneg w.norm_nonneg
  refine le_trans (le_abs_self _) ?_
  rw [← abs_of_nonneg hnonneg, abs_le_iff_mul_self_le]
  have hsq : Coordinates.norm v * Coordinates.norm w * (Coordinates.norm v * Coordinates.norm w) =
      v.normSq * w.normSq := by
    rw [mul_mul_mul_comm, norm_mul_self, norm_mul_self]
  -- The difference is the square of the length of the vector product.
  have hcross := (v.cross w).normSq_nonneg
  rw [hsq]
  simp only [normSq, cross] at hcross ⊢
  linarith

/-- A way round is no shorter. -/
theorem norm_add_le (v w : Point3 K) :
    Coordinates.norm (v + w) ≤ Coordinates.norm v + Coordinates.norm w := by
  rw [norm_le_iff (add_nonneg v.norm_nonneg w.norm_nonneg)]
  have hv := v.norm_mul_self
  have hw := w.norm_mul_self
  have hvw := mul_le_norm_mul_norm v w
  have hsum : (v + w).normSq =
      v.normSq + w.normSq + 2 * (v.x * w.x + v.y * w.y + v.z * w.z) := by
    show (v.x + w.x) * (v.x + w.x) + (v.y + w.y) * (v.y + w.y) + (v.z + w.z) * (v.z + w.z) = _
    unfold normSq
    ring
  rw [hsum]
  linarith

/-- A vector is no shorter than its elevation. -/
theorem abs_z_le_norm (v : Point3 K) : |v.z| ≤ Coordinates.norm v := by
  rw [← abs_of_nonneg v.norm_nonneg, abs_le_iff_mul_self_le, norm_mul_self]
  exact le_add_of_nonneg_left (add_nonneg (mul_self_nonneg v.x) (mul_self_nonneg v.y))

theorem dot_self (v : Point3 K) : Coordinates.dot v v = v.normSq := dot_eq v v

theorem dot_eq_zero (v : Point3 K) {w : Point3 K} (h : w.normSq = 0) :
    Coordinates.dot v w = 0 := by
  obtain ⟨hxy, hz⟩ := (add_eq_zero_iff_of_nonneg
    (add_nonneg (mul_self_nonneg w.x) (mul_self_nonneg w.y)) (mul_self_nonneg w.z)).mp h
  obtain ⟨hx, hy⟩ := mul_self_add_mul_self_eq_zero.mp hxy
  rw [dot_eq, hx, hy, mul_self_eq_zero.mp hz]
  ring

end Point3

/-! ## The distance to a segment of space -/

namespace Segment

variable (s : Segment K) {p q : Point3 K} {t : K}

/-- The distance is the one to some place of the segment. -/
theorem exists_distTo3 (p : Point3 K) :
    ∃ t, 0 ≤ t ∧ t ≤ 1 ∧ s.distTo3 p = Coordinates.norm (s.pointAt t - p) := by
  unfold distTo3
  dsimp only
  split
  · exact ⟨0, le_refl 0, zero_le_one, rfl⟩
  · exact ⟨_, (Scalar.clampUnit_mem _).1, (Scalar.clampUnit_mem _).2, rfl⟩

/-- Along the segment the square of the distance to a point is a quadratic function. -/
theorem normSq_pointAt_sub (p : Point3 K) (t c : K) :
    (s.pointAt t - p).normSq = (s.pointAt c - p).normSq + (t - c) *
      ((t + c) * (s.p1 - s.p0).normSq - 2 * Coordinates.dot (p - s.p0) (s.p1 - s.p0)) := by
  have hdot : Coordinates.dot (p - s.p0) (s.p1 - s.p0) = (p.x - s.p0.x) * (s.p1.x - s.p0.x) +
      (p.y - s.p0.y) * (s.p1.y - s.p0.y) + (p.z - s.p0.z) * (s.p1.z - s.p0.z) :=
    Point3.dot_eq _ _
  have hplace : ∀ t, (s.pointAt t - p).normSq =
      (s.p0.x + (s.p1.x - s.p0.x) * t - p.x) * (s.p0.x + (s.p1.x - s.p0.x) * t - p.x) +
      (s.p0.y + (s.p1.y - s.p0.y) * t - p.y) * (s.p0.y + (s.p1.y - s.p0.y) * t - p.y) +
      (s.p0.z + (s.p1.z - s.p0.z) * t - p.z) * (s.p0.z + (s.p1.z - s.p0.z) * t - p.z) :=
    fun t => rfl
  have hdir : (s.p1 - s.p0).normSq = (s.p1.x - s.p0.x) * (s.p1.x - s.p0.x) +
      (s.p1.y - s.p0.y) * (s.p1.y - s.p0.y) + (s.p1.z - s.p0.z) * (s.p1.z - s.p0.z) := rfl
  rw [hplace, hplace, hdot, hdir]
  ring

/-- No place of the segment is nearer than the distance. -/
theorem distTo3_le (p : Point3 K) (h : 0 ≤ t) (h' : t ≤ 1) :
    s.distTo3 p ≤ Coordinates.norm (s.pointAt t - p) := by
  let share := Coordinates.dot (p - s.p0) (s.p1 - s.p0) / (s.p1 - s.p0).normSq
  have hdist : s.distTo3 p = Coordinates.norm
      (s.pointAt (if (s.p1 - s.p0).normSq = 0 then 0 else Scalar.clampUnit share) - p) := by
    unfold distTo3
    simp only [Point3.dot_self, beq_iff_eq]
    rfl
  rw [hdist, Point3.norm_le_iff (Point3.norm_nonneg _), Point3.norm_mul_self,
    s.normSq_pointAt_sub p t (if (s.p1 - s.p0).normSq = 0 then 0 else Scalar.clampUnit share)]
  refine le_add_of_nonneg_right ?_
  split
  · next hzero =>
    have hdot : Coordinates.dot (p - s.p0) (s.p1 - s.p0) = 0 := Point3.dot_eq_zero _ hzero
    simp [hzero, hdot]
  · next hne =>
    have hshare : Coordinates.dot (p - s.p0) (s.p1 - s.p0) = share * (s.p1 - s.p0).normSq :=
      (div_mul_cancel₀ _ hne).symm
    have hmore := mul_nonneg (s.p1 - s.p0).normSq_nonneg
      (Scalar.sub_clampUnit_mul_nonneg (c := share) h h')
    rw [hshare]
    linarith

/-- A segment whose second end is moved departs no further than that end does: the distance
    of a point is at most its distance before and that of the old end after. -/
theorem distTo3_le_add (a b p q : Point3 K) :
    (⟨a, b⟩ : Segment K).distTo3 p ≤
      (⟨a, q⟩ : Segment K).distTo3 p + (⟨a, b⟩ : Segment K).distTo3 q := by
  obtain ⟨t, ht, ht', hp⟩ := (⟨a, q⟩ : Segment K).exists_distTo3 p
  obtain ⟨u, hu, hu', hq⟩ := (⟨a, b⟩ : Segment K).exists_distTo3 q
  let old := (⟨a, q⟩ : Segment K).pointAt t
  let new := (⟨a, b⟩ : Segment K).pointAt (u * t)
  -- `old` and `new` are at one share `t` of the ways from `a` to `q` and to the place beside it.
  have hnear : Coordinates.norm (new - old) ≤ (⟨a, b⟩ : Segment K).distTo3 q := by
    rw [hq, Point3.norm_le_iff (Point3.norm_nonneg _), Point3.norm_mul_self]
    have hshare : (new - old).normSq =
        t * t * ((⟨a, b⟩ : Segment K).pointAt u - q).normSq := by
      show (a.x + (b.x - a.x) * (u * t) - (a.x + (q.x - a.x) * t)) *
          (a.x + (b.x - a.x) * (u * t) - (a.x + (q.x - a.x) * t)) +
        (a.y + (b.y - a.y) * (u * t) - (a.y + (q.y - a.y) * t)) *
          (a.y + (b.y - a.y) * (u * t) - (a.y + (q.y - a.y) * t)) +
        (a.z + (b.z - a.z) * (u * t) - (a.z + (q.z - a.z) * t)) *
          (a.z + (b.z - a.z) * (u * t) - (a.z + (q.z - a.z) * t)) =
        t * t * ((a.x + (b.x - a.x) * u - q.x) * (a.x + (b.x - a.x) * u - q.x) +
          (a.y + (b.y - a.y) * u - q.y) * (a.y + (b.y - a.y) * u - q.y) +
          (a.z + (b.z - a.z) * u - q.z) * (a.z + (b.z - a.z) * u - q.z))
      ring
    rw [hshare]
    exact mul_le_of_le_one_left (Point3.normSq_nonneg _) (mul_le_one₀ ht' ht ht')
  have hway : new - p = (old - p) + (new - old) := by
    ext
    · show new.x - p.x = old.x - p.x + (new.x - old.x)
      ring
    · show new.y - p.y = old.y - p.y + (new.y - old.y)
      ring
    · show new.z - p.z = old.z - p.z + (new.z - old.z)
      ring
  calc (⟨a, b⟩ : Segment K).distTo3 p
      ≤ Coordinates.norm (new - p) := distTo3_le _ p (mul_nonneg hu ht) (mul_le_one₀ hu' ht ht')
    _ ≤ Coordinates.norm (old - p) + Coordinates.norm (new - old) := by
        rw [hway]
        exact Point3.norm_add_le _ _
    _ ≤ (⟨a, q⟩ : Segment K).distTo3 p + (⟨a, b⟩ : Segment K).distTo3 q := by
        rw [hp]
        linarith

end Segment

/-! ## Runs of dropped samples -/

section
variable {α : Type} [Scalar α]

/-- Samples between two samples kept, `last` and `stop`: each was near enough to the segment
    from `last` to the sample next to it. -/
def DroppedBetween (tolerance : α) (last stop : Point3 α) : List (Point3 α) → Prop
  | [] => True
  | p :: run => (⟨last, run.headD stop⟩ : Segment α).distTo3 p < tolerance ∧
      DroppedBetween tolerance last stop run

/-- Of the samples after the last one kept a run is dropped, and the sample after the run is
    the next one kept. -/
theorem thinAfter_cons (tolerance : α) (last p : Point3 α) (l : List (Point3 α)) :
    ∃ run stop rest, p :: l = run ++ stop :: rest ∧ DroppedBetween tolerance last stop run ∧
      thinAfter tolerance last (p :: l) = stop :: thinAfter tolerance stop rest := by
  induction l generalizing p with
  | nil => exact ⟨[], p, [], rfl, trivial, rfl⟩
  | cons q l ih =>
    by_cases h : (⟨last, q⟩ : Segment α).distTo3 p < tolerance
    · obtain ⟨run, stop, rest, hsplit, hdropped, hkept⟩ := ih q
      have hnext : run.headD stop = q := by
        cases run with
        | nil => exact (List.cons.inj hsplit).1.symm
        | cons r run => exact (List.cons.inj hsplit).1.symm
      refine ⟨p :: run, stop, rest, ?_, ⟨hnext.symm ▸ h, hdropped⟩, ?_⟩
      · rw [hsplit]
        rfl
      · rw [thinAfter, if_pos h, hkept]
    · refine ⟨[], p, q :: l, rfl, trivial, ?_⟩
      rw [thinAfter, if_neg h]

/-- A dropped sample was judged against the sample next to it. -/
theorem DroppedBetween.exists_next {tolerance : α} {last stop p : Point3 α}
    {run : List (Point3 α)} {k : Nat} (h : DroppedBetween tolerance last stop run)
    (hk : run[k]? = some p) :
    ∃ q, (run ++ [stop])[k + 1]? = some q ∧ (⟨last, q⟩ : Segment α).distTo3 p < tolerance := by
  induction run generalizing k with
  | nil => exact absurd hk (by simp)
  | cons r run ih =>
    cases k with
    | zero =>
      rw [List.getElem?_cons_zero, Option.some.injEq] at hk
      subst hk
      refine ⟨run.headD stop, ?_, h.1⟩
      cases run with
      | nil => rfl
      | cons q run => rfl
    | succ k => exact ih h.2 hk

end

/-- A dropped sample is within as many tolerances of the segment between the samples kept as
    samples are dropped from it on. -/
theorem DroppedBetween.distTo3_lt {tolerance : K} {last stop p : Point3 K}
    {run : List (Point3 K)} {k : Nat} (h : DroppedBetween tolerance last stop run)
    (hk : run[k]? = some p) :
    (⟨last, stop⟩ : Segment K).distTo3 p < ((run.length - k : Nat) : K) * tolerance := by
  induction run generalizing k p with
  | nil => exact absurd hk (by simp)
  | cons r run ih =>
    cases k with
    | succ k =>
      rw [List.length_cons, Nat.add_sub_add_right]
      exact ih h.2 hk
    | zero =>
      rw [List.getElem?_cons_zero, Option.some.injEq] at hk
      subst hk
      cases run with
      | nil => simpa using h.1
      | cons q run =>
        have hold : (⟨last, q⟩ : Segment K).distTo3 r < tolerance := h.1
        have hmoved : (⟨last, stop⟩ : Segment K).distTo3 q <
            ((q :: run).length : K) * tolerance := ih (k := 0) h.2 rfl
        calc (⟨last, stop⟩ : Segment K).distTo3 r
            ≤ (⟨last, q⟩ : Segment K).distTo3 r + (⟨last, stop⟩ : Segment K).distTo3 q :=
              Segment.distTo3_le_add last stop r q
          _ < tolerance + ((q :: run).length : K) * tolerance := add_lt_add hold hmoved
          _ = ((r :: q :: run).length : K) * tolerance := by
              push_cast [List.length_cons]
              ring

/-! ## Samples by their positions -/

/-- The sample `p` at position `j` stands between two neighbouring positions `b` and `c` of
    `kept`. It is within the tolerance of the segment from the sample at `b` to the sample next
    to `p`, and within `c - j` tolerances of the segment between the samples at `b` and `c`. -/
def DroppedWithin (tolerance : K) (samples : List (Point3 K)) (kept : List Nat) (j : Nat)
    (p : Point3 K) : Prop :=
  ∃ b c last stop next, [b, c] <:+: kept ∧ b < j ∧ j < c ∧
    samples[b]? = some last ∧ samples[c]? = some stop ∧ samples[j + 1]? = some next ∧
    (⟨last, next⟩ : Segment K).distTo3 p < tolerance ∧
    (⟨last, stop⟩ : Segment K).distTo3 p < ((c - j : Nat) : K) * tolerance

theorem DroppedWithin.cons {tolerance : K} {samples : List (Point3 K)} {kept : List Nat}
    {j : Nat} {p : Point3 K} (h : DroppedWithin tolerance samples kept j p) (a : Nat) :
    DroppedWithin tolerance samples (a :: kept) j p := by
  obtain ⟨b, c, last, stop, next, hbc, hrest⟩ := h
  exact ⟨b, c, last, stop, next, List.infix_cons hbc, hrest⟩

/-- A sample of a run between two kept ones is near to what replaces it. -/
theorem DroppedBetween.within {tolerance : K} {last stop p : Point3 K}
    {run : List (Point3 K)} {k : Nat} (h : DroppedBetween tolerance last stop run)
    (hk : run[k]? = some p) (before rest : List (Point3 K)) (kept : List Nat) :
    DroppedWithin tolerance (before ++ last :: (run ++ stop :: rest))
      (before.length :: (before.length + 1 + run.length) :: kept) (before.length + 1 + k) p := by
  have hklt : k < run.length := (List.getElem?_eq_some_iff.mp hk).1
  obtain ⟨next, hnext, hjudged⟩ := h.exists_next hk
  have hmoved := h.distTo3_lt hk
  -- Behind `last` the positions are those of the run, then of the rest.
  have hbehind : ∀ m, (before ++ last :: (run ++ stop :: rest))[before.length + 1 + m]? =
      (run ++ [stop] ++ rest)[m]? := by
    intro m
    rw [List.getElem?_append_right (by omega), List.append_assoc,
      show before.length + 1 + m - before.length = m + 1 by omega, List.getElem?_cons_succ]
    rfl
  refine ⟨before.length, before.length + 1 + run.length, last, stop, next,
    ⟨[], kept, rfl⟩, by omega, by omega, ?_, ?_, ?_, hjudged, ?_⟩
  · rw [List.getElem?_append_right (le_refl _), Nat.sub_self, List.getElem?_cons_zero]
  · rw [hbehind, List.append_assoc, List.getElem?_append_right (le_refl _), Nat.sub_self]
    rfl
  · rw [Nat.add_assoc _ k 1, hbehind, List.getElem?_append_left, hnext]
    simpa using hklt
  · rwa [show before.length + 1 + run.length - (before.length + 1 + k) = run.length - k by omega]

/-- What `thin_dropped_within` says, for the samples after one that was kept. -/
theorem thinAfter_dropped_within (tolerance : K) (before : List (Point3 K)) (last : Point3 K)
    (l : List (Point3 K)) :
    ∃ kept : List Nat, (before.length :: kept).Pairwise (· < ·) ∧
      kept.map (fun k => (before ++ last :: l)[k]?) = (thinAfter tolerance last l).map some ∧
      ∀ j p, (before ++ last :: l)[j]? = some p → before.length < j → j ∉ kept →
        DroppedWithin tolerance (before ++ last :: l) (before.length :: kept) j p := by
  -- One run of dropped samples after the other.
  induction hn : l.length using Nat.strong_induction_on generalizing before last l with
  | _ n ih =>
    cases l with
    | nil =>
      refine ⟨[], List.pairwise_singleton _ _, rfl, ?_⟩
      intro j p hj hlow
      rw [List.getElem?_eq_none (by simp; omega)] at hj
      cases hj
    | cons q l =>
      obtain ⟨run, stop, rest, hsplit, hrun, hkeeps⟩ := thinAfter_cons tolerance last q l
      have hlength : rest.length < n := by
        rw [← hn, hsplit, List.length_append, List.length_cons]
        omega
      obtain ⟨kept, hsorted, hkept, hdropped⟩ :=
        ih rest.length hlength (before ++ last :: run) stop rest rfl
      have hplace : (before ++ last :: run).length = before.length + 1 + run.length := by
        rw [List.length_append, List.length_cons]
        omega
      have hsamples : before ++ last :: run ++ stop :: rest =
          before ++ last :: (run ++ stop :: rest) := by
        rw [List.append_assoc, List.cons_append]
      rw [hplace, hsamples] at hdropped
      rw [hplace] at hsorted
      rw [hsamples] at hkept
      rw [hkeeps, hsplit]
      refine ⟨(before.length + 1 + run.length) :: kept, ?_, ?_, ?_⟩
      · refine List.pairwise_cons.mpr ⟨?_, hsorted⟩
        intro k hk
        rcases List.mem_cons.mp hk with rfl | hk
        · omega
        · have hlater := (List.pairwise_cons.mp hsorted).1 k hk
          omega
      · rw [List.map_cons, List.map_cons, hkept, ← hsamples, ← hplace,
          List.getElem?_append_right (le_refl _), Nat.sub_self, List.getElem?_cons_zero]
      · intro j p hj hlow hnot
        obtain ⟨hne, hnot⟩ := not_or.mp (mt List.mem_cons.mpr hnot)
        by_cases hlater : before.length + 1 + run.length < j
        · exact (hdropped j p hj hlater hnot).cons before.length
        · obtain ⟨k, rfl⟩ : ∃ k, j = before.length + 1 + k := ⟨j - (before.length + 1), by omega⟩
          have hk : run[k]? = some p := by
            rw [List.getElem?_append_right (by omega),
              show before.length + 1 + k - before.length = k + 1 by omega,
              List.getElem?_cons_succ, List.getElem?_append_left (by omega)] at hj
            exact hj
          exact hrun.within hk before rest kept

/-- Thinning keeps the samples at some positions, and every other sample is near to what
    replaces it. -/
theorem thin_dropped_within (tolerance : K) (samples : List (Point3 K)) :
    ∃ kept : List Nat, kept.Pairwise (· < ·) ∧
      kept.map (fun k => samples[k]?) = (thin tolerance samples).map some ∧
      ∀ j p, samples[j]? = some p → j ∉ kept → DroppedWithin tolerance samples kept j p := by
  cases samples with
  | nil => exact ⟨[], List.Pairwise.nil, rfl, fun j p hj => absurd hj (by simp)⟩
  | cons first l =>
    obtain ⟨kept, hsorted, hkept, hdropped⟩ := thinAfter_dropped_within tolerance [] first l
    refine ⟨0 :: kept, hsorted, ?_, ?_⟩
    · rw [List.map_cons, thin, List.map_cons, ← hkept]
      rfl
    · intro j p hj hnot
      obtain ⟨hne, hnot⟩ := not_or.mp (mt List.mem_cons.mpr hnot)
      exact hdropped j p hj (Nat.pos_of_ne_zero hne) hnot

/-- Two samples dropped one after the other: both are within the tolerance of the segment they
    were judged against, but the first is beyond it of the segment that replaces them. -/
theorem thin_dropped_beyond :
    thin (1 : ℝ) [⟨0, 0, 0⟩, ⟨100, 0, 5 / 4⟩, ⟨200, 0, 3 / 4⟩, ⟨300, 0, 0⟩] =
        [⟨0, 0, 0⟩, ⟨300, 0, 0⟩] ∧
      1 < (⟨⟨0, 0, 0⟩, ⟨300, 0, 0⟩⟩ : Segment ℝ).distTo3 ⟨100, 0, 5 / 4⟩ := by
  have hplace : ∀ (s : Segment ℝ) (t : ℝ) (p : Point3 ℝ), s.pointAt t - p =
      ⟨s.p0.x + (s.p1.x - s.p0.x) * t - p.x, s.p0.y + (s.p1.y - s.p0.y) * t - p.y,
        s.p0.z + (s.p1.z - s.p0.z) * t - p.z⟩ := fun _ _ _ => rfl
  have hfirst : (⟨⟨0, 0, 0⟩, ⟨200, 0, 3 / 4⟩⟩ : Segment ℝ).distTo3 ⟨100, 0, 5 / 4⟩ < 1 := by
    refine lt_of_le_of_lt (Segment.distTo3_le (t := 1 / 2) _ _ (by norm_num) (by norm_num)) ?_
    refine lt_of_le_of_lt ((Point3.norm_le_iff (l := 7 / 8) (by norm_num)).mpr ?_) (by norm_num)
    norm_num [hplace, Point3.normSq]
  have hsecond : (⟨⟨0, 0, 0⟩, ⟨300, 0, 0⟩⟩ : Segment ℝ).distTo3 ⟨200, 0, 3 / 4⟩ < 1 := by
    refine lt_of_le_of_lt (Segment.distTo3_le (t := 2 / 3) _ _ (by norm_num) (by norm_num)) ?_
    refine lt_of_le_of_lt ((Point3.norm_le_iff (l := 3 / 4) (by norm_num)).mpr ?_) (by norm_num)
    norm_num [hplace, Point3.normSq]
  constructor
  · rw [thin, thinAfter, if_pos hfirst, thinAfter, if_pos hsecond]
    rfl
  · obtain ⟨t, _, _, ht⟩ :=
      (⟨⟨0, 0, 0⟩, ⟨300, 0, 0⟩⟩ : Segment ℝ).exists_distTo3 ⟨100, 0, 5 / 4⟩
    rw [ht]
    refine lt_of_lt_of_le ?_ (Point3.abs_z_le_norm _)
    norm_num [hplace, abs_of_pos]

end SiteSection
