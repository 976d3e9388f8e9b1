import SiteSection.Proofs.Plan.Winding
import SiteSection.BoxIndex
import SiteSection.Polygon

/-! # Boxes in exact arithmetic

  Without rounding a box holds what it was made from, and boxes that hold a common location
  meet. So a filter by boxes loses nothing: the box of a polygon holds what is inside the
  polygon, and the box of a segment holds its places.
-/

namespace SiteSection

/-! ## Queries -/

section
variable {α : Type} [Scalar α]

theorem BoxIndex.mem_query_ofList {ι : Type} {items : List (Box2 α × ι)} {b : Box2 α} {k : ι} :
    k ∈ (BoxIndex.ofList items).query b ↔
      ∃ e ∈ items, (Envelope.ofBox e.1).meets (Envelope.ofBox b) = true ∧ e.2 = k := by
  simp [query, ofList, List.mem_map, List.mem_filter, and_assoc]

/-- A list that is filed by places is looked up by boxes. -/
theorem BoxIndex.mem_query_zipIdx {ι : Type} {box : ι → Box2 α} {l : List ι} {b : Box2 α}
    {i : Nat} {a : ι} (ha : l[i]? = some a) :
    i ∈ (BoxIndex.ofList (l.zipIdx.map fun (a, i) => (box a, i))).query b ↔
      (Envelope.ofBox (box a)).meets (Envelope.ofBox b) = true := by
  rw [mem_query_ofList]
  constructor
  · rintro ⟨e, he, hmeets, rfl⟩
    obtain ⟨⟨a', i⟩, ha', rfl⟩ := List.mem_map.mp he
    have hsame : some a' = some a := (List.mk_mem_zipIdx_iff_getElem?.mp ha').symm.trans ha
    cases hsame
    exact hmeets
  · intro hmeets
    exact ⟨(box a, i), List.mem_map.mpr ⟨(a, i), List.mk_mem_zipIdx_iff_getElem?.mpr ha, rfl⟩,
      hmeets, rfl⟩

/-- Each place of a list that is filed by places is found once at most. -/
theorem BoxIndex.nodup_query_zipIdx {ι : Type} (box : ι → Box2 α) (l : List ι) (b : Box2 α) :
    ((BoxIndex.ofList (l.zipIdx.map fun (a, i) => (box a, i))).query b).Nodup := by
  have hplaces : (BoxIndex.ofList (l.zipIdx.map fun (a, i) => (box a, i))).entries.map Prod.snd =
      List.range' 0 l.length := by
    rw [ofList, List.map_map, List.map_map]
    exact List.zipIdx_map_snd 0 l
  have hsub := (List.filter_sublist (p := fun e => e.1.meets (Envelope.ofBox b))
    (l := (BoxIndex.ofList (l.zipIdx.map fun (a, i) => (box a, i))).entries)).map Prod.snd
  rw [hplaces] at hsub
  exact hsub.nodup List.nodup_range'

end

variable {K : Type} [ExactScalar K] {p q : Point2 K}

/-! ## What a box holds -/

namespace Box2

/-- The two corners of a box bound the locations that it holds. -/
theorem contains_iff {b : Box2 K} : b.contains p = true ↔
    (b.origin.x ≤ p.x ∧ p.x ≤ b.upper.x) ∧ b.origin.y ≤ p.y ∧ p.y ≤ b.upper.y := by
  rw [contains]
  split
  · next h =>
    refine iff_of_false (by simp) fun hin => ?_
    rcases h with h | h
    · exact absurd hin.1.1 (not_le.mpr h)
    · exact absurd hin.2.1 (not_le.mpr h)
  · next h =>
    rw [not_or, not_lt, not_lt] at h
    simp [h, Bool.and_eq_true]

theorem upper_ofPoint (p : Point2 K) : (Box.ofPoint p : Box2 K).upper = p := by
  ext
  · exact add_zero p.x
  · exact add_zero p.y

theorem contains_ofPoint (p : Point2 K) : Box2.contains (Box.ofPoint p) p = true := by
  rw [contains_iff, upper_ofPoint]
  exact ⟨⟨le_rfl, le_rfl⟩, le_rfl, le_rfl⟩

theorem least_eq (p q : Point2 K) : Coordinates.least p q = ⟨min p.x q.x, min p.y q.y⟩ := by
  ext
  · exact Scalar.min_eq_min _ _
  · exact Scalar.min_eq_min _ _

theorem greatest_eq (p q : Point2 K) :
    Coordinates.greatest p q = ⟨max p.x q.x, max p.y q.y⟩ := by
  ext
  · exact Scalar.max_eq_max _ _
  · exact Scalar.max_eq_max _ _

/-- The corners gathered so far, and those of the remaining points, are bounded by the
    corners gathered in the end. -/
theorem bounds_foldl (ps : List (Point2 K)) (lower upper : Point2 K) :
    let corners := ps.foldl
      (fun c q => (Coordinates.least c.1 q, Coordinates.greatest c.2 q)) (lower, upper)
    (corners.1.x ≤ lower.x ∧ upper.x ≤ corners.2.x ∧ corners.1.y ≤ lower.y ∧
      upper.y ≤ corners.2.y) ∧
    ∀ v ∈ ps, corners.1.x ≤ v.x ∧ v.x ≤ corners.2.x ∧ corners.1.y ≤ v.y ∧ v.y ≤ corners.2.y := by
  induction ps generalizing lower upper with
  | nil => simp
  | cons q ps ih =>
    obtain ⟨⟨hlx, hux, hly, huy⟩, hrest⟩ :=
      ih ⟨min lower.x q.x, min lower.y q.y⟩ ⟨max upper.x q.x, max upper.y q.y⟩
    rw [List.foldl_cons, least_eq lower, greatest_eq upper]
    refine ⟨⟨hlx.trans (min_le_left _ _), (le_max_left _ _).trans hux,
      hly.trans (min_le_left _ _), (le_max_left _ _).trans huy⟩, fun v hv => ?_⟩
    rcases List.mem_cons.mp hv with rfl | hv
    · exact ⟨hlx.trans (min_le_right _ _), (le_max_right _ _).trans hux,
        hly.trans (min_le_right _ _), (le_max_right _ _).trans huy⟩
    · exact hrest v hv

/-- The corners gathered in the end are within a box that holds those gathered so far and the
    remaining points. -/
theorem foldl_within {b : Box2 K} (ps : List (Point2 K)) {lower upper : Point2 K}
    (hlower : b.contains lower = true) (hupper : b.contains upper = true)
    (hps : ∀ v ∈ ps, b.contains v = true) :
    let corners := ps.foldl
      (fun c q => (Coordinates.least c.1 q, Coordinates.greatest c.2 q)) (lower, upper)
    b.contains corners.1 = true ∧ b.contains corners.2 = true := by
  induction ps generalizing lower upper with
  | nil => exact ⟨hlower, hupper⟩
  | cons q ps ih =>
    have hq := contains_iff.mp (hps q List.mem_cons_self)
    rw [contains_iff] at hlower hupper
    rw [List.foldl_cons, least_eq lower, greatest_eq upper]
    refine ih ?_ ?_ fun v hv => hps v (List.mem_cons_of_mem q hv)
    · rw [contains_iff]
      exact ⟨⟨le_min hlower.1.1 hq.1.1, (min_le_left _ _).trans hlower.1.2⟩,
        le_min hlower.2.1 hq.2.1, (min_le_left _ _).trans hlower.2.2⟩
    · rw [contains_iff]
      exact ⟨⟨hupper.1.1.trans (le_max_left _ _), max_le hupper.1.2 hq.1.2⟩,
        hupper.2.1.trans (le_max_left _ _), max_le hupper.2.2 hq.2.2⟩

theorem contains_ofCorners {lower upper : Point2 K} :
    Box2.contains (Box.ofCorners lower upper) p = true ↔
      (lower.x ≤ p.x ∧ p.x ≤ upper.x) ∧ lower.y ≤ p.y ∧ p.y ≤ upper.y := by
  have hupper : (Box.ofCorners lower upper : Box2 K).upper = upper := by
    ext
    · exact add_sub_cancel lower.x upper.x
    · exact add_sub_cancel lower.y upper.y
  rw [contains_iff, hupper]
  exact Iff.rfl

/-- A box holds the points that it was made from. -/
theorem contains_ofPoints {ps : List (Point2 K)} (h : p ∈ ps) :
    Box2.contains (Box.ofPoints ps) p = true := by
  match ps, h with
  | a :: ps, h =>
    have hbounds := bounds_foldl ps a a
    set corners := ps.foldl
      (fun c q => (Coordinates.least c.1 q, Coordinates.greatest c.2 q)) (a, a) with hcorners
    have hbox : Box.ofPoints (a :: ps) = Box.ofCorners corners.1 corners.2 := rfl
    rw [hbox, contains_ofCorners]
    rcases List.mem_cons.mp h with rfl | h
    · exact ⟨⟨hbounds.1.1, hbounds.1.2.1⟩, hbounds.1.2.2.1, hbounds.1.2.2.2⟩
    · have hp := hbounds.2 p h
      exact ⟨⟨hp.1, hp.2.1⟩, hp.2.2.1, hp.2.2.2⟩

/-- The plan of the box around some points is the box around their plan. -/
theorem plan_ofPoints (ps : List (Point3 K)) :
    Box3.plan (Box.ofPoints ps) = Box.ofPoints (ps.map Point3.plan) := by
  have hfold : ∀ (ps : List (Point3 K)) (lower upper : Point3 K),
      let corners := ps.foldl
        (fun c q => (Coordinates.least c.1 q, Coordinates.greatest c.2 q)) (lower, upper)
      (corners.1.plan, corners.2.plan) = (ps.map Point3.plan).foldl
        (fun c q => (Coordinates.least c.1 q, Coordinates.greatest c.2 q))
          (lower.plan, upper.plan) := by
    intro ps
    induction ps with
    | nil => exact fun _ _ => rfl
    | cons q ps ih => exact fun lower upper => ih _ _
  cases ps with
  | nil => rfl
  | cons a ps =>
    rw [List.map_cons, Box.ofPoints, Box.ofPoints, ← hfold ps a a]
    rfl

/-- The box of some points is the smallest one: it is within every box that holds them. -/
theorem contains_of_contains_ofPoints {b : Box2 K} {ps : List (Point2 K)} (hne : ps ≠ [])
    (hps : ∀ v ∈ ps, b.contains v = true) (h : Box2.contains (Box.ofPoints ps) p = true) :
    b.contains p = true := by
  match ps, hne with
  | a :: ps, _ =>
    obtain ⟨ha, hrest⟩ := List.forall_mem_cons.mp hps
    obtain ⟨hlower, hupper⟩ := foldl_within ps ha ha hrest
    set corners := ps.foldl
      (fun c q => (Coordinates.least c.1 q, Coordinates.greatest c.2 q)) (a, a) with hcorners
    have hbox : Box.ofPoints (a :: ps) = Box.ofCorners corners.1 corners.2 := rfl
    rw [hbox, contains_ofCorners] at h
    rw [contains_iff] at hlower hupper ⊢
    exact ⟨⟨hlower.1.1.trans h.1.1, h.1.2.trans hupper.1.2⟩,
      hlower.2.1.trans h.2.1, h.2.2.trans hupper.2.2⟩

/-- A box whose corners are in order is moved outwards by any finite amount. -/
theorem expand_eq {b : Box2 K} {amount : K} (hx : 0 ≤ b.size.x) (hy : 0 ≤ b.size.y)
    (hamount : 0 ≤ amount) : b.expand amount = if Scalar.isFinite amount = true then
      ⟨⟨b.origin.x - amount, b.origin.y - amount⟩,
        ⟨b.size.x + amount * Scalar.two, b.size.y + amount * Scalar.two⟩⟩ else b := by
  have htwo : (0 : K) ≤ Scalar.two := by
    rw [Scalar.two, Scalar.ofNat_eq_cast]
    exact Nat.cast_nonneg 2
  have hgrown := mul_nonneg hamount htwo
  have hsize : ¬ ([b.size.x + amount * Scalar.two, b.size.y + amount * Scalar.two].any
      fun s => decide (s < 0)) = true := by
    simp only [List.any_cons, List.any_nil, Bool.or_false, Bool.or_eq_true, decide_eq_true_eq,
      not_or, not_lt]
    exact ⟨add_nonneg hx hgrown, add_nonneg hy hgrown⟩
  unfold Box.expand
  split
  · exact if_neg hsize
  · rfl

/-- A box moved outwards holds what it held. -/
theorem contains_expand {b : Box2 K} {amount : K} (hamount : 0 ≤ amount)
    (h : b.contains p = true) : Box2.contains (b.expand amount) p = true := by
  obtain ⟨⟨hx, hx'⟩, hy, hy'⟩ := contains_iff.mp h
  have hupper : b.upper = ⟨b.origin.x + b.size.x, b.origin.y + b.size.y⟩ := rfl
  rw [hupper] at hx' hy'
  rw [expand_eq (nonneg_of_le_add_right (hx.trans hx')) (nonneg_of_le_add_right (hy.trans hy'))
    hamount]
  split
  · have htwo : (Scalar.two : K) = 2 := Scalar.ofNat_eq_cast 2
    have hgrown : ∀ o s : K, o + s ≤ o - amount + (s + amount * 2) := fun o s => by linarith
    rw [htwo, contains_iff]
    exact ⟨⟨(sub_le_self _ hamount).trans hx, hx'.trans (hgrown _ _)⟩,
      (sub_le_self _ hamount).trans hy, hy'.trans (hgrown _ _)⟩
  · exact h

/-- A box that is thickened holds what it held. -/
theorem contains_thicken {b : Box2 K} {limit amount : K} (hamount : 0 ≤ amount)
    (h : b.contains p = true) : Box2.contains (b.thicken limit amount) p = true := by
  unfold Box.thicken
  split
  · exact contains_expand hamount h
  · exact h

end Box2

/-! ## Envelopes -/

namespace Envelope

/-- A box whose corners are in order is its own envelope. -/
theorem ofBox_eq {b : Box2 K} (hx : b.origin.x ≤ b.upper.x) (hy : b.origin.y ≤ b.upper.y) :
    ofBox b = ⟨b.origin, b.upper⟩ := by
  have hlesser : ∀ {m n : K}, m ≤ n → (if m < n then m else n) = m := by
    intro m n h
    split
    · rfl
    · next hlt => exact le_antisymm (not_lt.mp hlt) h
  have hgreater : ∀ {m n : K}, m ≤ n → (if n < m then m else n) = n := fun h =>
    if_neg (not_lt.mpr h)
  simp only [ofBox, Coordinates.zipWith, hlesser hx, hlesser hy, hgreater hx, hgreater hy]

theorem ofBox_ofPoint (p : Point2 K) : ofBox (Box.ofPoint p) = ⟨p, p⟩ := by
  have hupper := Box2.upper_ofPoint p
  rw [ofBox_eq (by rw [hupper, Box.ofPoint_origin]) (by rw [hupper, Box.ofPoint_origin]), hupper,
    Box.ofPoint_origin]

/-- Boxes that hold a common location meet. -/
theorem meets_of_contains {b c : Box2 K} (hb : b.contains p = true) (hc : c.contains p = true) :
    (ofBox b).meets (ofBox c) = true := by
  rw [Box2.contains_iff] at hb hc
  rw [ofBox_eq (hb.1.1.trans hb.1.2) (hb.2.1.trans hb.2.2),
    ofBox_eq (hc.1.1.trans hc.1.2) (hc.2.1.trans hc.2.2)]
  simp only [meets, Bool.and_eq_true, decide_eq_true_eq]
  exact ⟨⟨⟨hb.1.1.trans hc.1.2, hb.2.1.trans hc.2.2⟩, hc.1.1.trans hb.1.2⟩,
    hc.2.1.trans hb.2.2⟩

/-- A box meets that of a single location only if it holds the location. -/
theorem meets_ofPoint {b : Box2 K} (hx : b.origin.x ≤ b.upper.x) (hy : b.origin.y ≤ b.upper.y) :
    (ofBox b).meets (ofBox (Box.ofPoint p)) = b.contains p := by
  rw [Bool.eq_iff_iff]
  constructor
  · intro h
    rw [ofBox_eq hx hy, ofBox_ofPoint] at h
    simp only [meets, Bool.and_eq_true, decide_eq_true_eq] at h
    rw [Box2.contains_iff]
    exact ⟨⟨h.1.1.1, h.1.2⟩, h.1.1.2, h.2⟩
  · intro h
    exact meets_of_contains h (Box2.contains_ofPoint p)

end Envelope

/-! ## Polygons -/

/-- The corners of the box of a polygon are in order. -/
theorem Polygon.box_ordered (g : Polygon K) :
    g.box.origin.x ≤ g.box.upper.x ∧ g.box.origin.y ≤ g.box.upper.y := by
  obtain ⟨ring⟩ := g
  cases ring with
  | nil => exact ⟨le_add_of_nonneg_right le_rfl, le_add_of_nonneg_right le_rfl⟩
  | cons v ring =>
    have hfirst : v ∈ v :: ring := List.mem_cons_self
    have hv := Box2.contains_iff.mp (Box2.contains_ofPoints hfirst)
    exact ⟨hv.1.1.trans hv.1.2, hv.2.1.trans hv.2.2⟩

/-- The box of a polygon meets that of a single location only if it holds the location. -/
theorem Polygon.meets_ofPoint (g : Polygon K) :
    (Envelope.ofBox g.box).meets (Envelope.ofBox (Box.ofPoint p)) = g.box.contains p :=
  Envelope.meets_ofPoint g.box_ordered.1 g.box_ordered.2

/-- The box of a polygon holds what is inside the polygon. -/
theorem Polygon.contains_of_inside {g : Polygon K} (h : g.inside p = true) :
    g.box.contains p = true := by
  have hwinding : Ring.winding g.ring p ≠ 0 := Ring.inside_iff.mp h
  have hbounds : ∀ v ∈ g.ring, (g.box.origin.x ≤ v.x ∧ v.x ≤ g.box.upper.x) ∧
      g.box.origin.y ≤ v.y ∧ v.y ≤ g.box.upper.y := fun v hv =>
    Box2.contains_iff.mp (Box2.contains_ofPoints hv)
  -- No location inside is beyond a line that the ring is on one side of.
  have hwithin : ∀ a b : Point2 K, (∀ v ∈ g.ring, 0 ≤ Ring.side a b v) → 0 ≤ Ring.side a b p :=
    fun a b hring => not_lt.mp fun hp => hwinding (Ring.winding_eq_zero_of_beyond hring hp)
  have hleft := hwithin ⟨g.box.origin.x, 1⟩ ⟨g.box.origin.x, 0⟩
  have hright := hwithin ⟨g.box.upper.x, 0⟩ ⟨g.box.upper.x, 1⟩
  have hbelow := hwithin ⟨0, g.box.origin.y⟩ ⟨1, g.box.origin.y⟩
  have habove := hwithin ⟨1, g.box.upper.y⟩ ⟨0, g.box.upper.y⟩
  simp only [Ring.side_eq, sub_self, sub_zero, zero_sub, zero_mul, one_mul, neg_mul,
    neg_sub, sub_nonneg] at hleft hright hbelow habove
  rw [Box2.contains_iff]
  exact ⟨⟨hleft fun v hv => (hbounds v hv).1.1, hright fun v hv => (hbounds v hv).1.2⟩,
    hbelow fun v hv => (hbounds v hv).2.1, habove fun v hv => (hbounds v hv).2.2⟩

/-! ## Segments -/

namespace Segment

variable (s : Segment K)

/-- Boxes are convex: what is between two places of a box is in the box. -/
theorem contains_between {b : Box2 K} {t u v : K} (htu : t ≤ u) (huv : u ≤ v)
    (ht : b.contains (s.pointAt t).plan = true) (hv : b.contains (s.pointAt v).plan = true) :
    b.contains (s.pointAt u).plan = true := by
  -- A coordinate is affine, so it is bounded by its values at either side.
  have hbetween : ∀ {m n a d : K}, m ≤ a + d * t ∧ a + d * t ≤ n → m ≤ a + d * v ∧ a + d * v ≤ n →
      m ≤ a + d * u ∧ a + d * u ≤ n := by
    intro m n a d h h'
    rcases le_total 0 d with hd | hd
    · have := mul_le_mul_of_nonneg_left htu hd
      have := mul_le_mul_of_nonneg_left huv hd
      constructor <;> linarith
    · have := mul_le_mul_of_nonpos_left htu hd
      have := mul_le_mul_of_nonpos_left huv hd
      constructor <;> linarith
  rw [Box2.contains_iff] at ht hv ⊢
  exact ⟨hbetween ht.1 hv.1, hbetween ht.2 hv.2⟩

/-- What holds both ends of a segment holds its places. -/
theorem contains_of_on_of_ends {b : Box2 K} (h0 : b.contains s.p0.plan = true)
    (h1 : b.contains s.p1.plan = true) (h : s.On p) : b.contains p = true := by
  obtain ⟨t, ht, ht', rfl⟩ := h
  rw [← s.pointAt_plan_zero] at h0
  rw [← s.pointAt_plan_one] at h1
  exact s.contains_between ht ht' h0 h1

/-- The box of a segment holds its places. -/
theorem contains_of_on (h : s.On p) : s.box.contains p = true :=
  s.contains_of_on_of_ends (Box2.contains_ofPoints (by simp)) (Box2.contains_ofPoints (by simp)) h

/-- The places of an edge are in the box of the ring. -/
theorem contains_of_on_edge {ring : List (Point2 K)} {e : Point2 K × Point2 K}
    (he : e ∈ ringEdges ring) (h : (flat e.1 e.2).On p) :
    Box2.contains (Box.ofPoints ring) p = true := by
  obtain ⟨h0, h1⟩ := mem_of_mem_ringEdges he
  exact (flat e.1 e.2).contains_of_on_of_ends (Box2.contains_ofPoints h0)
    (Box2.contains_ofPoints h1) h

end Segment

end SiteSection
