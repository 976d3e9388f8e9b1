import SiteSection.Proofs.Plan.Segment
import SiteSection.Ring

/-! # Winding numbers in exact arithmetic

  A ring winds equally often around two locations that none of its edges separates. Let the
  segment between them rise. An edge that does not meet the segment changes its share of the
  winding number only with the side of the segment on which its ends lie: the change is what
  the first end counts less what the last end counts, where an end counts if it lies between
  the heights of the two locations, to the right of the segment. Around a closed ring these
  changes cancel.
-/

namespace SiteSection

/-! ## Paths and rings -/

section
variable {ι κ : Type}

theorem getElem?_pathEdges (l : List ι) (j : Nat) :
    (pathEdges l)[j]? = (l[j]?).bind fun a => (l[j + 1]?).map fun b => (a, b) := by
  rw [pathEdges, List.zip, List.getElem?_zipWith, List.getElem?_tail]
  cases l[j]? <;> cases l[j + 1]? <;> rfl

theorem length_pathEdges (l : List ι) : (pathEdges l).length = l.length - 1 := by
  simp [pathEdges]

theorem ringEdges_cons (i : ι) (l : List ι) :
    ringEdges (i :: l) = pathEdges (i :: (l ++ [i])) := rfl

theorem ringEdges_eq (l : List ι) : ringEdges l = pathEdges (l ++ l.head?.toList) := by
  cases l <;> rfl

theorem pathEdges_map (f : ι → κ) (l : List ι) :
    pathEdges (l.map f) = (pathEdges l).map (Prod.map f f) := by
  rw [pathEdges, pathEdges, ← List.map_tail, List.zip_map]

/-- A path can be cut at any of its points. -/
theorem pathEdges_append (l : List ι) (i : ι) (l' : List ι) :
    pathEdges (l ++ i :: l') = pathEdges (l ++ [i]) ++ pathEdges (i :: l') := by
  induction l with
  | nil => rfl
  | cons j l ih =>
    cases l with
    | nil => rfl
    | cons k l =>
      simp only [List.cons_append, pathEdges_cons_cons] at ih ⊢
      rw [ih]

/-- The edges of a path are what its neighbours are related by. -/
theorem isChain_iff_pathEdges {R : ι → ι → Prop} {l : List ι} :
    l.IsChain R ↔ ∀ e ∈ pathEdges l, R e.1 e.2 := by
  induction l with
  | nil => simp
  | cons i l ih =>
    cases l with
    | nil => simp
    | cons j l => rw [List.isChain_cons_cons, pathEdges_cons_cons, List.forall_mem_cons, ih]

end

/-! ## Sums around a ring -/

/-- After some corners the way to an end goes on to the first of them. -/
theorem exists_next {ι : Type} (l : List ι) (z : ι) : ∃ m, l ++ [z] = l.headD z :: m := by
  cases l with
  | nil => exact ⟨[], rfl⟩
  | cons b l => exact ⟨l ++ [z], rfl⟩

/-- Differences along a path add up to the difference of its ends. -/
theorem sum_pathEdges {ι G : Type} [AddCommGroup G] (f : ι → G) (i : ι) (l : List ι) :
    ((pathEdges (i :: l)).map fun e => f e.1 - f e.2).sum =
      f i - f ((i :: l).getLast (List.cons_ne_nil i l)) := by
  induction l generalizing i with
  | nil => simp
  | cons j l ih =>
    rw [pathEdges_cons_cons, List.map_cons, List.sum_cons, ih, List.getLast_cons_cons,
      sub_add_sub_cancel]

/-- Differences around a ring cancel. -/
theorem sum_ringEdges {ι G : Type} [AddCommGroup G] (f : ι → G) (ring : List ι) :
    ((ringEdges ring).map fun e => f e.1 - f e.2).sum = 0 := by
  cases ring with
  | nil => rfl
  | cons i l =>
    have hlast : (i :: (l ++ [i])).getLast (List.cons_ne_nil i _) = i := by simp
    rw [ringEdges, List.cons_append, sum_pathEdges, hlast, sub_self]

theorem mem_of_mem_pathEdges {ι : Type} {l : List ι} {e : ι × ι} (h : e ∈ pathEdges l) :
    e.1 ∈ l ∧ e.2 ∈ l := by
  have hzip := List.of_mem_zip h
  exact ⟨hzip.1, List.mem_of_mem_tail hzip.2⟩

theorem mem_of_mem_ringEdges {ι : Type} {ring : List ι} {e : ι × ι} (h : e ∈ ringEdges ring) :
    e.1 ∈ ring ∧ e.2 ∈ ring := by
  cases ring with
  | nil => cases h
  | cons i l =>
    have hpath := mem_of_mem_pathEdges h
    simpa [or_comm] using hpath

/-! ## Zeros of affine functions -/

section
variable {K : Type} [ExactScalar K]

/-- An affine function that is positive at one end only vanishes between the ends. -/
theorem exists_affine_zero {m n : K} (h : ¬ (0 < m ↔ 0 < n)) :
    ∃ t, 0 ≤ t ∧ t ≤ 1 ∧ m + (n - m) * t = 0 := by
  rcases lt_or_ge 0 m with hm | hm
  · have hn : n ≤ 0 := not_lt.mp fun hn => h (iff_of_true hm hn)
    have hpos : 0 < m - n := by linarith
    refine ⟨m / (m - n), div_nonneg hm.le hpos.le, (div_le_one hpos).mpr (by linarith), ?_⟩
    field_simp
    ring
  · have hn : 0 < n := lt_of_not_ge fun hn => h (iff_of_false (not_lt.mpr hm) (not_lt.mpr hn))
    have hpos : 0 < n - m := by linarith
    refine ⟨-m / (n - m), div_nonneg (by linarith) hpos.le,
      (div_le_one hpos).mpr (by linarith), ?_⟩
    field_simp
    ring

end

namespace Ring

variable {K : Type} [ExactScalar K] {a b p q v : Point2 K}

/-! ## One edge -/

theorem side_eq : side a b p = (b.x - a.x) * (p.y - a.y) - (b.y - a.y) * (p.x - a.x) := rfl

theorem side_swap : side b a p = -side a b p := by
  rw [side_eq, side_eq]
  ring

/-- An edge that rises counts if it passes to the right of the location. -/
theorem windingOf_of_le (h : a.y ≤ b.y) :
    windingOf p (a, b) = if a.y ≤ p.y ∧ p.y < b.y ∧ 0 < side a b p then 1 else 0 := by
  rw [windingOf]
  by_cases ha : a.y ≤ p.y
  · simp [ha]
  · have hb : ¬ b.y ≤ p.y := fun hb => ha (h.trans hb)
    simp [ha, hb]

/-- Turned around, an edge counts the opposite. -/
theorem windingOf_swap : windingOf p (b, a) = -windingOf p (a, b) := by
  have hside : side b a p < 0 ↔ 0 < side a b p := by
    rw [side_swap]
    exact neg_lt_zero
  have hside' : 0 < side b a p ↔ side a b p < 0 := by
    rw [side_swap]
    exact neg_pos
  simp only [windingOf, hside, hside']
  by_cases ha : a.y ≤ p.y <;> by_cases hb : b.y ≤ p.y
  all_goals simp [ha, hb, not_lt.mpr, lt_of_not_ge]
  all_goals split <;> rfl

/-- What the end of an edge counts: does it lie between the heights of `p` and `q`, to the
    right of the segment from `p` to `q`? -/
def rightOf (p q v : Point2 K) : Int :=
  if p.y < v.y ∧ v.y ≤ q.y ∧ side p q v < 0 then 1 else 0

/-! ## An edge apart from a segment

  Where both rise, their places at one height have a distance that is affine in the height,
  and an edge apart from the segment stays on one side of it. -/

section
variable {h h' : K}

/-- How far the edge from `a` to `b` is to the right of the segment from `p` to `q` at some
    height, scaled by how far both rise. -/
def gap (p q a b : Point2 K) (h : K) : K :=
  (q.y - p.y) * ((b.y - a.y) * a.x + (b.x - a.x) * (h - a.y)) -
    (b.y - a.y) * ((q.y - p.y) * p.x + (q.x - p.x) * (h - p.y))

theorem gap_at_first (p q a b : Point2 K) : gap p q a b p.y = (q.y - p.y) * side a b p := by
  rw [gap, side_eq]
  ring

theorem gap_at_last (p q a b : Point2 K) : gap p q a b q.y = (q.y - p.y) * side a b q := by
  rw [gap, side_eq]
  ring

theorem gap_at_from (p q a b : Point2 K) : gap p q a b a.y = (b.y - a.y) * -side p q a := by
  rw [gap, side_eq]
  ring

theorem gap_at_to (p q a b : Point2 K) : gap p q a b b.y = (b.y - a.y) * -side p q b := by
  rw [gap, side_eq]
  ring

/-- The side does not change between two heights that both have. -/
theorem gap_pos_iff (happart : (Segment.flat p q).Apart (Segment.flat a b)) (hpq : p.y < q.y)
    (hab : a.y < b.y) (hp : p.y ≤ h) (hq : h ≤ q.y) (ha : a.y ≤ h) (hb : h ≤ b.y)
    (hp' : p.y ≤ h') (hq' : h' ≤ q.y) (ha' : a.y ≤ h') (hb' : h' ≤ b.y) :
    0 < gap p q a b h ↔ 0 < gap p q a b h' := by
  by_contra hne
  obtain ⟨t, ht, ht', hzero⟩ := exists_affine_zero hne
  -- At the height of the zero both have the same place.
  set k := h + (h' - h) * t with hk
  have hgap : gap p q a b k = 0 := by
    rw [← hzero]
    simp only [gap, hk]
    ring
  have hbetween : ∀ {m n : K}, m ≤ h → m ≤ h' → h ≤ n → h' ≤ n → m ≤ k ∧ k ≤ n := by
    intro m n hm hm' hn hn'
    rw [hk]
    constructor <;> nlinarith
  have hkpq := hbetween hp hp' hq hq'
  have hkab := hbetween ha ha' hb hb'
  have hposq : 0 < q.y - p.y := sub_pos.mpr hpq
  have hposb : 0 < b.y - a.y := sub_pos.mpr hab
  refine Segment.Apart.ne _ happart
    ⟨div_nonneg (sub_nonneg.mpr hkpq.1) hposq.le, (div_le_one hposq).mpr (by linarith)⟩
    ⟨div_nonneg (sub_nonneg.mpr hkab.1) hposb.le, (div_le_one hposb).mpr (by linarith)⟩
    (Point2.ext ?_ ?_ : (Segment.pointAt _ ((k - p.y) / (q.y - p.y))).plan =
      (Segment.pointAt _ ((k - a.y) / (b.y - a.y))).plan)
  · have hx : p.x + (q.x - p.x) * ((k - p.y) / (q.y - p.y)) =
        a.x + (b.x - a.x) * ((k - a.y) / (b.y - a.y)) := by
      simp only [gap] at hgap
      field_simp
      linear_combination -hgap
    exact hx
  · have hy : p.y + (q.y - p.y) * ((k - p.y) / (q.y - p.y)) =
        a.y + (b.y - a.y) * ((k - a.y) / (b.y - a.y)) := by
      field_simp
      ring
    exact hy

/-- A level segment apart from an edge that rises past its height is on one side of it. -/
theorem side_ne_zero_of_level (happart : (Segment.flat a b).Apart (Segment.flat p q))
    (hab : a.y < b.y) (hpq : p.y = q.y) (ha : a.y ≤ p.y) (hb : p.y ≤ b.y) {t : K} (ht : 0 ≤ t)
    (ht' : t ≤ 1) : side a b p + (side a b q - side a b p) * t ≠ 0 := by
  intro hzero
  have hpos : 0 < b.y - a.y := sub_pos.mpr hab
  refine Segment.Apart.ne _ happart
    ⟨div_nonneg (sub_nonneg.mpr ha) hpos.le, (div_le_one hpos).mpr (by linarith)⟩ ⟨ht, ht'⟩
    (Point2.ext ?_ ?_ : (Segment.pointAt _ ((p.y - a.y) / (b.y - a.y))).plan =
      (Segment.pointAt _ t).plan)
  · have hx : a.x + (b.x - a.x) * ((p.y - a.y) / (b.y - a.y)) = p.x + (q.x - p.x) * t := by
      simp only [side_eq, ← hpq] at hzero
      field_simp
      linear_combination hzero
    exact hx
  · have hy : a.y + (b.y - a.y) * ((p.y - a.y) / (b.y - a.y)) = p.y + (q.y - p.y) * t := by
      rw [← hpq]
      field_simp
      ring
    exact hy

theorem side_pos_iff_of_level (happart : (Segment.flat a b).Apart (Segment.flat p q))
    (hab : a.y < b.y) (hpq : p.y = q.y) (ha : a.y ≤ p.y) (hb : p.y ≤ b.y) :
    0 < side a b p ↔ 0 < side a b q := by
  by_contra hne
  obtain ⟨t, ht, ht', hzero⟩ := exists_affine_zero hne
  exact side_ne_zero_of_level happart hab hpq ha hb ht ht' hzero

theorem side_neg_iff_of_level (happart : (Segment.flat a b).Apart (Segment.flat p q))
    (hab : a.y < b.y) (hpq : p.y = q.y) (ha : a.y ≤ p.y) (hb : p.y ≤ b.y) :
    side a b p < 0 ↔ side a b q < 0 := by
  rw [← neg_pos, ← @neg_pos K _ _ _ (side a b q)]
  by_contra hne
  obtain ⟨t, ht, ht', hzero⟩ := exists_affine_zero hne
  refine side_ne_zero_of_level happart hab hpq ha hb ht ht' ?_
  linear_combination -hzero

end

/-! ## What an edge apart from a segment counts -/

/-- The share of a level edge does not change. -/
theorem windingOf_sub_of_eq (happart : (Segment.flat p q).Apart (Segment.flat a b))
    (hab : a.y = b.y) :
    windingOf q (a, b) - windingOf p (a, b) = rightOf p q a - rightOf p q b := by
  have hlevel : ∀ u : Point2 K, windingOf u (a, b) = 0 := by
    intro u
    rw [windingOf_of_le hab.le, if_neg]
    rintro ⟨ha, hb, _⟩
    exact absurd hb (not_lt.mpr (hab ▸ ha))
  have hright : rightOf p q a = rightOf p q b := by
    rw [rightOf, rightOf, hab]
    by_cases hin : p.y < b.y ∧ b.y ≤ q.y
    · have hside := side_neg_iff_of_level happart (hin.1.trans_le hin.2) hab
        (hab ▸ hin.1.le) (hab ▸ hin.2)
      simp only [hin, hside, true_and]
    · rw [if_neg fun h => hin ⟨h.1, h.2.1⟩, if_neg fun h => hin ⟨h.1, h.2.1⟩]
  rw [hlevel, hlevel, hright, sub_self, sub_self]

/-- The share of an edge does not change along a level segment. -/
theorem windingOf_sub_of_level (happart : (Segment.flat p q).Apart (Segment.flat a b))
    (hpq : p.y = q.y) (hab : a.y < b.y) :
    windingOf q (a, b) - windingOf p (a, b) = rightOf p q a - rightOf p q b := by
  have hright : ∀ v : Point2 K, rightOf p q v = 0 := by
    intro v
    rw [rightOf, if_neg]
    rintro ⟨hp, hq, _⟩
    exact absurd hp (not_lt.mpr (hpq ▸ hq))
  have hwinding : windingOf q (a, b) = windingOf p (a, b) := by
    rw [windingOf_of_le hab.le, windingOf_of_le hab.le, ← hpq]
    by_cases hin : a.y ≤ p.y ∧ p.y < b.y
    · have hside := side_pos_iff_of_level happart.symm hab hpq hin.1 hin.2.le
      simp only [hin, hside, true_and]
    · rw [if_neg fun h => hin ⟨h.1, h.2.1⟩, if_neg fun h => hin ⟨h.1, h.2.1⟩]
  rw [hright, hright, hwinding, sub_self, sub_self]

/-- Where edge and segment rise, the side on which they pass each other decides. -/
theorem windingOf_sub_of_lt (happart : (Segment.flat p q).Apart (Segment.flat a b))
    (hpq : p.y < q.y) (hab : a.y < b.y) :
    windingOf q (a, b) - windingOf p (a, b) = rightOf p q a - rightOf p q b := by
  have hposq : 0 < q.y - p.y := sub_pos.mpr hpq
  have hposb : 0 < b.y - a.y := sub_pos.mpr hab
  -- At the heights of the four ends the gap is what the counts look at.
  have hp : 0 < side a b p ↔ 0 < gap p q a b p.y := by
    rw [gap_at_first, mul_pos_iff_of_pos_left hposq]
  have hq : 0 < side a b q ↔ 0 < gap p q a b q.y := by
    rw [gap_at_last, mul_pos_iff_of_pos_left hposq]
  have ha : side p q a < 0 ↔ 0 < gap p q a b a.y := by
    rw [gap_at_from, mul_pos_iff_of_pos_left hposb, neg_pos]
  have hb : side p q b < 0 ↔ 0 < gap p q a b b.y := by
    rw [gap_at_to, mul_pos_iff_of_pos_left hposb, neg_pos]
  have hgap := @gap_pos_iff K _ a b p q
  simp only [windingOf_of_le hab.le, rightOf, hp, hq, ha, hb]
  -- Where the heights overlap two of the four counts remain, at the two ends of the overlap,
  -- and the gap has one sign there.
  rcases le_or_gt a.y p.y with hap | hap
  · rcases le_or_gt b.y p.y with hbp | hbp
    · simp [hap.not_gt, hbp.not_gt, (hbp.trans hpq.le).not_gt]
    · rcases le_or_gt b.y q.y with hbq | hbq
      · have hsame := hgap happart hpq hab le_rfl hpq.le hap hbp.le hbp.le hbq hab.le le_rfl
        simp [hap, hap.not_gt, hbp, hbq, hbq.not_gt, hsame]
      · have hsame := hgap happart hpq hab le_rfl hpq.le hap hbp.le hpq.le le_rfl
          (hap.trans hpq.le) hbq.le
        simp [hap, hap.not_gt, hap.trans hpq.le, hbp, hbq, hbq.not_ge, hsame]
  · rcases le_or_gt a.y q.y with haq | haq
    · rcases le_or_gt b.y q.y with hbq | hbq
      · have hsame := hgap happart hpq hab hap.le haq le_rfl hab.le (hap.trans hab).le hbq hab.le
          le_rfl
        simp [hap, hap.not_ge, haq, hap.trans hab, hbq, hbq.not_gt, hsame]
      · have hsame := hgap happart hpq hab hap.le haq le_rfl hab.le hpq.le le_rfl haq hbq.le
        simp [hap, hap.not_ge, haq, hbq, hbq.not_ge, hsame]
    · simp [hap.not_ge, haq.not_ge, (haq.trans hab).not_ge]

/-- What an edge apart from a rising segment counts changes by what its ends count. -/
theorem windingOf_sub (happart : (Segment.flat p q).Apart (Segment.flat a b)) (hpq : p.y ≤ q.y) :
    windingOf q (a, b) - windingOf p (a, b) = rightOf p q a - rightOf p q b := by
  rcases lt_trichotomy a.y b.y with hab | hab | hab
  · rcases hpq.lt_or_eq with hpq | hpq
    · exact windingOf_sub_of_lt happart hpq hab
    · exact windingOf_sub_of_level happart hpq hab
  · exact windingOf_sub_of_eq happart hab
  · -- An edge that falls is one that rises, turned around.
    have happart' : (Segment.flat p q).Apart (Segment.flat b a) := fun y hy hy' =>
      happart y hy ((Segment.flat a b).on_turned.mp hy')
    have hrise : windingOf q (b, a) - windingOf p (b, a) = rightOf p q b - rightOf p q a := by
      rcases hpq.lt_or_eq with hpq | hpq
      · exact windingOf_sub_of_lt happart' hpq hab
      · exact windingOf_sub_of_level happart' hpq hab
    have hturn : ∀ u : Point2 K, windingOf u (b, a) = -windingOf u (a, b) :=
      fun u => windingOf_swap
    rw [hturn, hturn] at hrise
    linarith

/-! ## Rings -/

theorem winding_eq_sum (ring : List (Point2 K)) (p : Point2 K) :
    winding ring p = ((ringEdges ring).map (windingOf p)).sum :=
  List.foldr_map.symm

/-- **Winding numbers.** A ring winds equally often around two locations if no edge of it
    meets the segment between them. -/
theorem winding_eq_of_apart (ring : List (Point2 K))
    (happart : ∀ e ∈ ringEdges ring, (Segment.flat p q).Apart (Segment.flat e.1 e.2)) :
    winding ring p = winding ring q := by
  -- A segment that falls is turned around: the shares of edges are compared along one that rises.
  wlog hpq : p.y ≤ q.y
  · refine (this ring (fun e he => ?_) (le_of_not_ge hpq)).symm
    exact fun y hy => happart e he y ((Segment.flat p q).on_turned.mp hy)
  have hchange : ((ringEdges ring).map fun e => windingOf q e - windingOf p e).sum = 0 := by
    rw [← sum_ringEdges (rightOf p q) ring]
    exact congrArg List.sum (List.map_congr_left fun e he => windingOf_sub (happart e he) hpq)
  have hsplit : ∀ l : List (Point2 K × Point2 K),
      (l.map fun e => windingOf q e - windingOf p e).sum =
        (l.map (windingOf q)).sum - (l.map (windingOf p)).sum := by
    intro l
    induction l with
    | nil => rfl
    | cons e l ih =>
      simp only [List.map_cons, List.sum_cons, ih]
      ring
  rw [hsplit, sub_eq_zero] at hchange
  rw [winding_eq_sum, winding_eq_sum, hchange]

/-! ## What is inside -/

/-- A ring of two corners goes there and back, and winds around nothing. -/
theorem three_le_length {ring : List (Point2 K)} (h : winding ring p ≠ 0) : 3 ≤ ring.length := by
  match ring, h with
  | [], h => exact absurd rfl h
  | [a], h =>
    have hturn : windingOf p (a, a) = -windingOf p (a, a) := windingOf_swap
    have hsum : winding [a] p = windingOf p (a, a) + 0 := rfl
    omega
  | [a, b], h =>
    have hturn : windingOf p (b, a) = -windingOf p (a, b) := windingOf_swap
    have hsum : winding [a, b] p = windingOf p (a, b) + (windingOf p (b, a) + 0) := rfl
    omega
  | _ :: _ :: _ :: _, _ => simp

/-- Inside is what the ring winds around. -/
theorem inside_iff {ring : List (Point2 K)} : inside ring p = true ↔ winding ring p ≠ 0 := by
  unfold inside
  rw [Bool.and_eq_true, decide_eq_true_iff, bne_iff_ne]
  exact ⟨fun h => h.2, fun h => ⟨three_le_length h, h⟩⟩

theorem inside_eq_false_iff {ring : List (Point2 K)} :
    inside ring p = false ↔ winding ring p = 0 := by
  rw [← Bool.not_eq_true, inside_iff, not_not]

/-- **Off the boundary.** Between two locations that no edge of a ring separates, either both
    are inside or neither is. -/
theorem inside_eq_of_apart (ring : List (Point2 K)) (p q : Point2 K)
    (happart : ∀ e ∈ ringEdges ring, (Segment.flat p q).Apart (Segment.flat e.1 e.2)) :
    inside ring p = inside ring q := by
  unfold inside
  rw [winding_eq_of_apart ring happart]

/-- A yard with a notch in its northern side, and with a corner given twice. -/
noncomputable def notchedYard : List (Point2 ℝ) :=
  [⟨0, 0⟩, ⟨6, 0⟩, ⟨6, 0⟩, ⟨6, 6⟩, ⟨3, 3⟩, ⟨0, 6⟩]

/-- Beside the notch, a location may be moved past the height of its corner. -/
theorem inside_eq_of_apart_notchedYard :
    (∀ e ∈ ringEdges notchedYard,
      (Segment.flat ⟨1, 2⟩ ⟨1, 4⟩).Apart (Segment.flat e.1 e.2)) ∧
        inside notchedYard ⟨1, 2⟩ = inside notchedYard ⟨1, 4⟩ := by
  have happart : ∀ e ∈ ringEdges notchedYard,
      (Segment.flat ⟨1, 2⟩ ⟨1, 4⟩).Apart (Segment.flat e.1 e.2) := by
    intro e he y ⟨t, ht, ht', hy⟩ ⟨u, hu, hu', hy'⟩
    have hx := congrArg Point2.x (hy.trans hy'.symm)
    have hheight := congrArg Point2.y (hy.trans hy'.symm)
    simp only [notchedYard, ringEdges, List.cons_append, List.nil_append, pathEdges_cons_cons,
      pathEdges_singleton, List.mem_cons, List.not_mem_nil, or_false] at he
    rcases he with rfl | rfl | rfl | rfl | rfl | rfl
    -- Each edge leaves the way to one side, or lies above or below it.
    all_goals
      simp only [Segment.flat, Point2.atZ, Point3.plan_x, Point3.plan_y, Segment.pointAt_x,
        Segment.pointAt_y] at hx hheight
      linarith
  exact ⟨happart, inside_eq_of_apart notchedYard ⟨1, 2⟩ ⟨1, 4⟩ happart⟩

/-! ## Beyond a line -/

/-- What an edge on one side of a line counts around a location on the other side: nothing if
    the line rises, so that the edge passes to the left of the location, and whether its ends
    are across the height of the location if the line falls. -/
theorem windingOf_of_beyond {u w : Point2 K} (hu : 0 ≤ side a b u) (hw : 0 ≤ side a b w)
    (hp : side a b p < 0) :
    windingOf p (u, w) =
      if b.y < a.y then (if u.y ≤ p.y then 1 else 0) - (if w.y ≤ p.y then 1 else 0) else 0 := by
  have hkey : (b.y - a.y) * side u w p = (w.y - u.y) * side a b p -
      (p.y - u.y) * side a b w - (w.y - p.y) * side a b u := by
    simp only [side_eq]
    ring
  -- Across the height of the location all three terms have one sign.
  have hrise : u.y ≤ p.y → p.y < w.y → (b.y - a.y) * side u w p < 0 := by
    intro hup hpw
    have h := mul_neg_of_pos_of_neg (sub_pos.mpr (hup.trans_lt hpw)) hp
    have h' := mul_nonneg (sub_nonneg.mpr hup) hw
    have h'' := mul_nonneg (sub_pos.mpr hpw).le hu
    linarith
  have hfall : p.y < u.y → w.y ≤ p.y → 0 < (b.y - a.y) * side u w p := by
    intro hpu hwp
    have h := mul_pos_of_neg_of_neg (sub_neg.mpr (hwp.trans_lt hpu)) hp
    have h' := mul_nonneg (sub_pos.mpr hpu).le hw
    have h'' := mul_nonneg (sub_nonneg.mpr hwp) hu
    linarith
  unfold windingOf
  by_cases hline : b.y < a.y
  · have hneg : b.y - a.y < 0 := sub_neg.mpr hline
    rcases le_or_gt u.y p.y with hup | hup <;> rcases le_or_gt w.y p.y with hwp | hwp
    · simp [hline, hup, hwp, hwp.not_gt]
    · have hside := pos_of_mul_neg_right (hrise hup hwp) hneg.le
      simp [hline, hup, hwp, hwp.not_ge, hside]
    · have hside := neg_of_mul_pos_right (hfall hup hwp) hneg.le
      simp [hline, hup.not_ge, hwp, hside]
    · simp [hline, hup.not_ge, hwp.not_ge]
  · have hpos : 0 ≤ b.y - a.y := sub_nonneg.mpr (not_lt.mp hline)
    rcases le_or_gt u.y p.y with hup | hup <;> rcases le_or_gt w.y p.y with hwp | hwp
    · simp [hline, hup, hwp.not_gt]
    · have hside := neg_of_mul_neg_right (hrise hup hwp) hpos
      simp [hline, hup, hside.le.not_gt]
    · have hside := pos_of_mul_pos_right (hfall hup hwp) hpos
      simp [hline, hup.not_ge, hside.le.not_gt]
    · simp [hline, hup.not_ge, hwp.not_ge]

/-- **Beyond a line.** A ring on one side of a line winds around nothing on the other side. -/
theorem winding_eq_zero_of_beyond {ring : List (Point2 K)} (hring : ∀ v ∈ ring, 0 ≤ side a b v)
    (hp : side a b p < 0) : winding ring p = 0 := by
  have hcount : ∀ e ∈ ringEdges ring, windingOf p e =
      if b.y < a.y then (if e.1.y ≤ p.y then 1 else 0) - (if e.2.y ≤ p.y then 1 else 0) else 0 := by
    intro e he
    obtain ⟨h0, h1⟩ := mem_of_mem_ringEdges he
    exact windingOf_of_beyond (hring e.1 h0) (hring e.2 h1) hp
  rw [winding_eq_sum, List.map_congr_left hcount]
  by_cases hline : b.y < a.y
  · simp only [hline, if_true]
    exact sum_ringEdges (fun v => if v.y ≤ p.y then (1 : Int) else 0) ring
  · simp [hline]

end Ring

end SiteSection
