import SiteSection.Proofs.Plan.Winding

/-! # Segments in pieces

  A segment that reaches a positive limit is cut at the multiples of the share that the limit
  has of its length, as far as these are short of its end, and at its end. So the pieces lie
  end to end, all but the last one are as long as the limit, and there are as few as the limit
  allows. Every place of the segment is on one of them.
-/

namespace SiteSection

namespace Segment

variable {K : Type} [ExactScalar K] (s : Segment K)

/-- The part of a segment between two parameters. -/
def part (c : K × K) : Segment K := ⟨s.pointAt c.1, s.pointAt c.2⟩

/-- The parameter at which piece `i` begins, and the end of the segment for all further ones. -/
def cut (limit : K) (i : Nat) : K := min (i * (limit / s.planLength)) 1

variable {s} {limit : K}

theorem cut_zero : s.cut limit 0 = 0 := by
  rw [cut, Nat.cast_zero, zero_mul, min_eq_left zero_le_one]

/-- A segment is cut at a positive limit that it reaches and that it has countably often in it. -/
theorem isCutAt_iff : s.IsCutAt limit ↔
    (0 < limit ∧ limit ≤ s.planLength) ∧ s.planLength / limit ≤ Scalar.greatestCount := by
  rw [IsCutAt, Scalar.ofNat_eq_cast, not_lt]

/-- There is no list of pieces if, and only if, there is no room for as many limits as the length
    has in it. -/
theorem split?_eq_none_iff_lt {room : Nat} (hroom : room < Scalar.greatestCount) :
    s.split? limit room = none ↔
      0 < limit ∧ limit ≤ s.planLength ∧ room < s.planLength / limit := by
  rw [split?_eq_none_iff]
  refine and_congr_right fun hpos => and_congr_right fun hlong => ?_
  have hratio : 0 ≤ s.planLength / limit := (div_pos (hpos.trans_le hlong) hpos).le
  rw [← not_le, Scalar.ceil_le_iff hratio (.inr hroom), not_le]

section
variable (h : s.IsCutAt limit)
include h

theorem share_pos : 0 < limit / s.planLength := div_pos h.1.1 (h.1.1.trans_le h.1.2)

/-- There are as many pieces as the length has limits in it, a last part counted as one. -/
theorem pieceCount_le_iff (n : Nat) : s.pieceCount limit ≤ n ↔ s.planLength / limit ≤ n := by
  have hratio : 0 < s.planLength / limit := div_pos (h.1.1.trans_le h.1.2) h.1.1
  rw [pieceCount, if_pos h.1, Scalar.ceil_le_iff hratio.le (.inl (isCutAt_iff.mp h).2)]

theorem pieceCount_le_iff_share (n : Nat) :
    s.pieceCount limit ≤ n ↔ 1 ≤ n * (limit / s.planLength) := by
  rw [pieceCount_le_iff h, ← one_div_div, div_le_iff₀ (share_pos h)]

theorem pieceCount_pos : 0 < s.pieceCount limit := by
  refine Nat.pos_of_ne_zero fun hzero => ?_
  have hone := (pieceCount_le_iff_share h 0).mp hzero.le
  rw [Nat.cast_zero, zero_mul] at hone
  exact absurd hone (not_le.mpr zero_lt_one)

theorem cut_pieceCount : s.cut limit (s.pieceCount limit) = 1 :=
  min_eq_right ((pieceCount_le_iff_share h _).mp le_rfl)

/-- Before the end the cuts are at the multiples of the share. -/
theorem cut_of_lt {i : Nat} (hi : i < s.pieceCount limit) :
    s.cut limit i = i * (limit / s.planLength) ∧ s.cut limit i < 1 := by
  have hlt : i * (limit / s.planLength) < 1 := by
    rw [← not_le, ← pieceCount_le_iff_share h]
    exact not_le.mpr hi
  rw [cut, min_eq_left hlt.le]
  exact ⟨rfl, hlt⟩

/-- The pieces are the parts between the cuts. -/
theorem split_eq : s.split limit = (List.range (s.pieceCount limit)).map fun i =>
    s.part (s.cut limit i, s.cut limit (i + 1)) := by
  rw [split, if_pos h]
  apply List.map_congr_left
  intro i hi
  rw [part, (cut_of_lt h (List.mem_range.mp hi)).1, cut, Scalar.ofNat_eq_cast,
    Scalar.ofNat_eq_cast, Scalar.capOne_eq_min]

/-- Every parameter is between two cuts that follow each other. -/
theorem exists_cut_le {t : K} (ht : 0 ≤ t) (ht' : t ≤ 1) :
    ∃ i < s.pieceCount limit, s.cut limit i ≤ t ∧ t ≤ s.cut limit (i + 1) := by
  -- The first cut is not above the parameter; the last one below some later cut is sought.
  have hstep : ∀ n, t ≤ s.cut limit (n + 1) →
      ∃ i ≤ n, s.cut limit i ≤ t ∧ t ≤ s.cut limit (i + 1) := by
    intro n
    induction n with
    | zero => exact fun hn => ⟨0, le_rfl, cut_zero.trans_le ht, hn⟩
    | succ n ih =>
      intro hn
      rcases le_total (s.cut limit (n + 1)) t with hlow | hhigh
      · exact ⟨n + 1, le_rfl, hlow, hn⟩
      · obtain ⟨i, hi, hcut⟩ := ih hhigh
        exact ⟨i, hi.trans n.le_succ, hcut⟩
  have hpos := pieceCount_pos h
  obtain ⟨i, hi, hcut⟩ := hstep (s.pieceCount limit - 1)
    (by rwa [Nat.sub_add_cancel hpos, cut_pieceCount h])
  exact ⟨i, by omega, hcut⟩

end

/-- The pieces of a segment cover it. -/
theorem exists_piece_on (s : Segment K) {p : Point2 K} (limit : K) (hp : s.On p) :
    ∃ piece ∈ s.split limit, piece.On p := by
  by_cases h : s.IsCutAt limit
  · obtain ⟨t, ht, ht', rfl⟩ := hp
    obtain ⟨i, hi, hlow, hhigh⟩ := exists_cut_le h ht ht'
    rw [split_eq h]
    exact ⟨_, List.mem_map_of_mem (List.mem_range.mpr hi), s.on_part hlow hhigh⟩
  · rw [split_of_not_isCutAt h]
    exact ⟨s, List.mem_singleton_self s, hp⟩

end Segment

end SiteSection
