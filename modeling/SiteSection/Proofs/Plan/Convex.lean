import SiteSection.Proofs.Plan.Bearing
import SiteSection.Proofs.Plan.Upright

/-! # Convex rings

  The points of a convex ring are all on one side of the line of each edge. The ring may still
  come back along its edges, and so wind around nothing. It does if, and only if, it has no area.

  Straight corners, those of a way back among them, can be left out one after the other, and
  neither the area of the ring nor its winding number around a location off the edges changes. At
  a corner that is not straight both edges have the ring, and what is within, on the same hand.
  So what is left is a single point, or a ring that has all within on one hand of all its edges.

  On triangles this is what the barycentric coordinates tell.
-/

namespace SiteSection

variable {K : Type} [ExactScalar K]

namespace Ring

variable {a b c p v z : Point2 K} {σ : K} {ring l : List (Point2 K)}

/-! ## Beyond a line -/

/-- What is strictly on the other hand of a line than a ring is not inside. -/
theorem inside_eq_false_of_beyond (hring : ∀ v ∈ ring, 0 ≤ σ * side a b v)
    (hp : σ * side a b p < 0) : inside ring p = false := by
  rw [inside_eq_false_iff]
  by_cases hσ : 0 < σ
  · exact winding_eq_zero_of_beyond (fun v hv => nonneg_of_mul_nonneg_right (hring v hv) hσ)
      (neg_of_mul_neg_right hp hσ.le)
  · have hneg : σ < 0 := lt_of_le_of_ne (not_lt.mp hσ) (left_ne_zero_of_mul hp.ne)
    -- From its other end the line has the ring to its left.
    refine winding_eq_zero_of_beyond (a := b) (b := a) (fun v hv => ?_) ?_
    · rw [side_swap]
      exact neg_nonneg.mpr (nonpos_of_mul_nonneg_right (hring v hv) hneg)
    · rw [side_swap]
      exact neg_neg_iff_pos.mpr (pos_of_mul_neg_right hp hneg.le)

/-! ## Corners -/

theorem side_self (a p : Point2 K) : side a a p = 0 := by
  rw [side_eq]
  ring

theorem side_first (a b : Point2 K) : side a b a = 0 := by
  rw [side_eq]
  ring

theorem side_last (a b : Point2 K) : side a b b = 0 := by
  rw [side_eq]
  ring

/-- The side of the third corner is the same from every edge. -/
theorem side_turn (a b c : Point2 K) : side b c a = side a b c := by
  rw [side_eq, side_eq]
  ring

theorem side_add_of_straight (h : side a b c = 0) : side a b p + side b c p = side a c p := by
  have hsum : side a b p + side b c p = side a c p + side a b c := by
    simp only [side_eq]
    ring
  rw [hsum, h, add_zero]

/-- Around a location off their line, two edges in one line count what the edge between their
    ends counts. -/
theorem windingOf_add_of_straight (hp : a ≠ b → side a b p ≠ 0) (h : side a b c = 0) :
    windingOf p (a, b) + windingOf p (b, c) = windingOf p (a, c) := by
  by_cases hsame : a = b
  · rw [hsame, windingOf_self, zero_add]
  · have hring : ∀ v ∈ [a, b, c], 0 ≤ -side a b p * side a b v := by
      simp [side_first, side_last, h]
    have hbeyond : -side a b p * side a b p < 0 := by
      rw [neg_mul]
      exact neg_lt_zero.mpr (mul_self_pos.mpr (hp hsame))
    have hzero := inside_eq_false_iff.mp (inside_eq_false_of_beyond hring hbeyond)
    have hsum : winding [a, b, c] p =
        windingOf p (a, b) + (windingOf p (b, c) + (windingOf p (c, a) + 0)) := rfl
    have hback : windingOf p (c, a) = -windingOf p (a, c) := windingOf_swap
    omega

/-! ## Edges that face a location -/

/-- An edge has a location strictly on one side of its line, and all points of a ring on that
    side or on the line. The side is told by the sign of `σ`. A repeated point makes no edge. -/
def Faces (ring : List (Point2 K)) (p : Point2 K) (e : Point2 K × Point2 K) : Prop :=
  e.1 ≠ e.2 → ∃ σ : K, (∀ v ∈ ring, 0 ≤ σ * side e.1 e.2 v) ∧ 0 < σ * side e.1 e.2 p

namespace Faces

theorem side_ne_zero (h : Faces ring p (a, b)) (hne : a ≠ b) : side a b p ≠ 0 := by
  obtain ⟨σ, _, hp⟩ := h hne
  exact right_ne_zero_of_mul hp.ne'

/-- Past a straight corner, the edge between the ends faces what its parts face. -/
theorem join (hab : Faces ring p (a, b)) (hbc : Faces ring p (b, c)) (h : side a b c = 0) :
    Faces ring p (a, c) := by
  intro hne
  by_cases hsame : a = b
  · rw [hsame] at hne ⊢
    exact hbc hne
  · obtain ⟨σ, hring, hp⟩ := hab hsame
    obtain ⟨k, hx, hy⟩ := exists_along hsame h
    have hk : k ≠ 0 := by
      intro hzero
      rw [hzero, zero_mul] at hx hy
      exact hne (Point2.ext (sub_eq_zero.mp hx).symm (sub_eq_zero.mp hy).symm)
    have hside : ∀ v, σ / k * side a c v = σ * side a b v := by
      intro v
      rw [side_eq, side_eq, hx, hy]
      field_simp
    refine ⟨σ / k, fun v hv => ?_, ?_⟩
    · rw [hside]
      exact hring v hv
    · rw [hside]
      exact hp

/-- An edge has a location that it faces on the hand on which it has the other points. -/
theorem hand_pos (h : Faces ring p (a, b)) (hne : a ≠ b) (hv : v ∈ ring)
    (hside : side a b v ≠ 0) : 0 < side a b v * side a b p := by
  obtain ⟨σ, hring, hp⟩ := h hne
  have hσ : σ ≠ 0 := left_ne_zero_of_mul hp.ne'
  have hpos : 0 < σ * side a b v := lt_of_le_of_ne (hring v hv) (mul_ne_zero hσ hside).symm
  have hboth : 0 < σ * σ * (side a b v * side a b p) := by
    have hmul := mul_pos hpos hp
    linarith
  exact pos_of_mul_pos_right hboth (mul_self_nonneg σ)

/-- So both edges of a corner have the location on the hand to which the corner bends. -/
theorem corner_pos (hab : Faces ring p (a, b)) (hbc : Faces ring p (b, c)) (ha : a ∈ ring)
    (hc : c ∈ ring) (hbent : side a b c ≠ 0) :
    0 < side a b c * side a b p ∧ 0 < side a b c * side b c p := by
  constructor
  · have hne : a ≠ b := by
      rintro rfl
      exact hbent (side_self a c)
    exact hab.hand_pos hne hc hbent
  · have hne : b ≠ c := by
      rintro rfl
      exact hbent (side_last a b)
    rw [← side_turn a b c] at hbent ⊢
    exact hbc.hand_pos hne ha hbent

end Faces

/-! ## Leaving out straight corners

  A path is given by its ends and the corners between them. -/

/-- No corner of a path is straight. -/
def Bent : List (Point2 K) → Prop
  | a :: b :: c :: l => side a b c ≠ 0 ∧ Bent (b :: c :: l)
  | _ => True

theorem Bent.tail (h : Bent (a :: l)) : Bent l := by
  match l, h with
  | [], _ => trivial
  | [_], _ => trivial
  | _ :: _ :: _, h => exact h.2

/-- The corners on the way from `a` to `z`, without those at the front that are straight for
    someone who comes from `a`. -/
def shorten (a z : Point2 K) : List (Point2 K) → List (Point2 K)
  | [] => []
  | b :: l => if side a b (l.headD z) = 0 then shorten a z l else b :: l

/-- The corners on the way from `a` to `z`, without the straight ones. -/
def straighten (z : Point2 K) : Point2 K → List (Point2 K) → List (Point2 K)
  | _, [] => []
  | a, b :: l => shorten a z (b :: straighten z b l)

theorem shorten_suffix (a z : Point2 K) (l : List (Point2 K)) : shorten a z l <:+ l := by
  induction l with
  | nil => exact List.suffix_rfl
  | cons b l ih =>
    unfold shorten
    split
    · exact ih.trans (List.suffix_cons b l)
    · exact List.suffix_rfl

theorem straighten_subset (z a : Point2 K) (l : List (Point2 K)) : straighten z a l ⊆ l := by
  induction l generalizing a with
  | nil => exact List.Subset.refl _
  | cons b l ih =>
    exact List.Subset.trans (shorten_suffix a z _).subset (List.cons_subset_cons b (ih b))

theorem bent_shorten (a : Point2 K) (hl : Bent (l ++ [z])) :
    Bent (a :: (shorten a z l ++ [z])) := by
  induction l with
  | nil => trivial
  | cons b l ih =>
    unfold shorten
    split
    · exact ih hl.tail
    · next hbent =>
      obtain ⟨m, hnext⟩ := exists_next l z
      rw [List.cons_append, hnext] at hl ⊢
      exact ⟨hbent, hl⟩

theorem bent_straighten (z a : Point2 K) (l : List (Point2 K)) :
    Bent (a :: (straighten z a l ++ [z])) := by
  induction l generalizing a with
  | nil => trivial
  | cons b l ih => exact bent_shorten a (ih b)

section
variable {G : Type} [AddCommGroup G] {g : Point2 K × Point2 K → G}
  (hg : ∀ a b c, Faces ring p (a, b) → side a b c = 0 → g (a, b) + g (b, c) = g (a, c))
include hg

/-- Without straight corners at the front the edges face what they faced, and what adds up along
    a line adds up to the same. -/
theorem sum_shorten (hfaces : ∀ e ∈ pathEdges (a :: (l ++ [z])), Faces ring p e) :
    (∀ e ∈ pathEdges (a :: (shorten a z l ++ [z])), Faces ring p e) ∧
      ((pathEdges (a :: (shorten a z l ++ [z]))).map g).sum =
        ((pathEdges (a :: (l ++ [z]))).map g).sum := by
  induction l with
  | nil => exact ⟨hfaces, rfl⟩
  | cons b l ih =>
    unfold shorten
    split
    · next hstraight =>
      obtain ⟨m, hnext⟩ := exists_next l z
      rw [List.cons_append, hnext, pathEdges_cons_cons, pathEdges_cons_cons,
        List.forall_mem_cons, List.forall_mem_cons] at hfaces
      obtain ⟨hab, hbc, hrest⟩ := hfaces
      have hjoined : ∀ e ∈ pathEdges (a :: (l ++ [z])), Faces ring p e := by
        rw [hnext, pathEdges_cons_cons, List.forall_mem_cons]
        exact ⟨hab.join hbc hstraight, hrest⟩
      obtain ⟨hshort, hsum⟩ := ih hjoined
      refine ⟨hshort, hsum.trans ?_⟩
      rw [List.cons_append, hnext]
      simp only [pathEdges_cons_cons, List.map_cons, List.sum_cons]
      rw [← hg a b _ hab hstraight, add_assoc]
    · exact ⟨hfaces, rfl⟩

theorem sum_straighten (hfaces : ∀ e ∈ pathEdges (a :: (l ++ [z])), Faces ring p e) :
    (∀ e ∈ pathEdges (a :: (straighten z a l ++ [z])), Faces ring p e) ∧
      ((pathEdges (a :: (straighten z a l ++ [z]))).map g).sum =
        ((pathEdges (a :: (l ++ [z]))).map g).sum := by
  induction l generalizing a with
  | nil => exact ⟨hfaces, rfl⟩
  | cons b l ih =>
    rw [List.cons_append, pathEdges_cons_cons, List.forall_mem_cons] at hfaces
    obtain ⟨hrest, hsum⟩ := ih hfaces.2
    have hpath : ∀ e ∈ pathEdges (a :: (b :: straighten z b l ++ [z])), Faces ring p e := by
      rw [List.cons_append, pathEdges_cons_cons, List.forall_mem_cons]
      exact ⟨hfaces.1, hrest⟩
    obtain ⟨hshort, hsum'⟩ := sum_shorten hg hpath
    refine ⟨hshort, hsum'.trans ?_⟩
    simp only [List.cons_append, pathEdges_cons_cons, List.map_cons, List.sum_cons]
    rw [hsum]

end

/-! ## The common hand -/

/-- All edges of a bent path that face a location have it on the same hand. -/
theorem exists_hand (hbent : Bent (a :: b :: c :: l))
    (hfaces : ∀ e ∈ pathEdges (a :: b :: c :: l), Faces ring p e)
    (hring : ∀ v ∈ a :: b :: c :: l, v ∈ ring) :
    ∃ σ : K, ∀ e ∈ pathEdges (a :: b :: c :: l), 0 < σ * side e.1 e.2 p := by
  have hcorner : 0 < side a b c * side a b p ∧ 0 < side a b c * side b c p :=
    Faces.corner_pos (hfaces _ (by simp)) (hfaces _ (by simp)) (hring a (by simp))
      (hring c (by simp)) hbent.1
  induction l generalizing a b c with
  | nil =>
    refine ⟨side a b c, ?_⟩
    simpa using hcorner
  | cons d l ih =>
    rw [pathEdges_cons_cons, List.forall_mem_cons] at hfaces
    rw [List.forall_mem_cons] at hring
    obtain ⟨σ, hσ⟩ := ih hbent.2 hfaces.2 hring.2
      (Faces.corner_pos (hfaces.2 _ (by simp)) (hfaces.2 _ (by simp)) (hring.2 b (by simp))
        (hring.2 d (by simp)) hbent.2.1)
    refine ⟨σ, ?_⟩
    rw [pathEdges_cons_cons, List.forall_mem_cons]
    refine ⟨?_, hσ⟩
    -- The edge after the corner is on both hands that are to be compared.
    have hnext : 0 < σ * side b c p := hσ (b, c) List.mem_cons_self
    have hmul := mul_pos (mul_pos hcorner.1 hcorner.2) hnext
    have hsquare : side a b c * side a b p * (side a b c * side b c p) * (σ * side b c p) =
        side a b c * side b c p * (side a b c * side b c p) * (σ * side a b p) := by
      ring
    rw [hsquare] at hmul
    exact pos_of_mul_pos_right hmul (mul_self_nonneg _)

/-! ## Areas -/

/-- Seen from anywhere, the edges of a ring sweep twice its area. -/
theorem sum_side (ring : List (Point2 K)) (p : Point2 K) :
    ((ringEdges ring).map fun e => side e.1 e.2 p).sum = 2 * signedArea ring := by
  have hsplit : ∀ e : Point2 K × Point2 K,
      side e.1 e.2 p = e.1.cross e.2 + (p.cross e.1 - p.cross e.2) := by
    intro e
    rw [side_eq]
    simp only [Point2.cross]
    ring
  have hhalf : 2 * (Scalar.half : K) = 1 := by
    rw [Scalar.half, Scalar.ofNat_eq_cast]
    norm_num
  simp only [hsplit]
  rw [List.sum_map_add, sum_ringEdges p.cross ring, add_zero, signedArea, Scalar.sum, neg_zero,
    ← List.sum_eq_foldl, mul_comm _ Scalar.half, ← mul_assoc, hhalf, one_mul]

/-- Edges that have a location on one hand sweep in that direction. -/
theorem mul_sum_side_pos {l : List (Point2 K × Point2 K)} (hne : l ≠ [])
    (h : ∀ e ∈ l, 0 < σ * side e.1 e.2 p) : 0 < σ * (l.map fun e => side e.1 e.2 p).sum := by
  have hpos : 0 < (l.map fun e => σ * side e.1 e.2 p).sum := by
    refine List.sum_pos _ (fun x hx => ?_) (by simpa using hne)
    obtain ⟨e, he, rfl⟩ := List.mem_map.mp hx
    exact h e he
  rwa [List.sum_map_mul_left] at hpos

/-- Without straight corners on the way around, a ring winds around what its edges face, and has
    an area. -/
theorem ne_zero_of_bent (hbent : Bent (a :: b :: (l ++ [a])))
    (hfaces : ∀ e ∈ ringEdges (a :: b :: l), Faces ring p e)
    (hring : ∀ v ∈ a :: b :: l, v ∈ ring) :
    winding (a :: b :: l) p ≠ 0 ∧
      ((ringEdges (a :: b :: l)).map fun e => side e.1 e.2 p).sum ≠ 0 := by
  obtain ⟨σ, hσ⟩ : ∃ σ : K, ∀ e ∈ ringEdges (a :: b :: l), 0 < σ * side e.1 e.2 p := by
    have hring' : ∀ v ∈ a :: b :: (l ++ [a]), v ∈ ring := by
      intro v hv
      refine hring v ?_
      simp only [List.mem_cons, List.mem_append, List.not_mem_nil, or_false] at hv ⊢
      tauto
    obtain ⟨m, hnext⟩ := exists_next l a
    rw [ringEdges_cons, List.cons_append] at hfaces ⊢
    rw [hnext] at hbent hfaces hring' ⊢
    exact exists_hand hbent hfaces hring'
  constructor
  · have hne : a ≠ b := by
      rintro rfl
      have hfirst : 0 < σ * side a a p := hσ (a, a) List.mem_cons_self
      rw [side_self, mul_zero] at hfirst
      exact lt_irrefl _ hfirst
    exact inside_iff.mp
      (inside_of_within ⟨(a, b), List.mem_cons_self, hne⟩ fun e he _ => hσ e he)
  · exact right_ne_zero_of_mul (mul_sum_side_pos (List.cons_ne_nil _ _) hσ).ne'

/-- **Convex rings.** What all edges of a ring face is inside if, and only if, the ring has an
    area. -/
theorem inside_iff_signedArea (hfaces : ∀ e ∈ ringEdges ring, Faces ring p e) :
    inside ring p = true ↔ signedArea ring ≠ 0 := by
  have harea : signedArea ring ≠ 0 ↔ ((ringEdges ring).map fun e => side e.1 e.2 p).sum ≠ 0 := by
    rw [sum_side, mul_ne_zero_iff]
    simp
  rw [inside_iff, harea]
  cases ring with
  | nil => simp [ringEdges, winding_eq_sum]
  | cons a l =>
    have hsubset := straighten_subset a a l
    have hbent := bent_straighten a a l
    obtain ⟨hstraight, hwinding⟩ := sum_straighten (g := windingOf p)
      (fun u v w huv => windingOf_add_of_straight huv.side_ne_zero) hfaces
    obtain ⟨_, hside⟩ := sum_straighten (g := fun e => side e.1 e.2 p)
      (fun u v w _ => side_add_of_straight) hfaces
    rw [winding_eq_sum, ringEdges_cons, ← hwinding, ← hside, ← ringEdges_cons, ← winding_eq_sum]
    cases hcorners : straighten a a l with
    | nil => simp [ringEdges, winding_eq_sum, windingOf_self, side_self]
    | cons b m =>
      rw [hcorners] at hsubset hbent hstraight
      have hring : ∀ v ∈ a :: b :: m, v ∈ a :: l := by
        rw [List.forall_mem_cons]
        exact ⟨List.mem_cons_self, fun v hv => List.mem_cons_of_mem a (hsubset hv)⟩
      obtain ⟨hwinds, hsweeps⟩ := ne_zero_of_bent hbent hstraight hring
      exact iff_of_true hwinds hsweeps

/-! ## Triangles -/

section
variable (harea : side a b c ≠ 0)
include harea

/-- A triangle is on one hand of its edges. -/
theorem side_corner_nonneg :
    ∀ e ∈ ringEdges [a, b, c], ∀ v ∈ [a, b, c], 0 ≤ (side a b c)⁻¹ * side e.1 e.2 v := by
  have hedges : ringEdges [a, b, c] = [(a, b), (b, c), (c, a)] := rfl
  simp [hedges, side_first, side_last, side_turn a b c, ← side_turn c a b,
    inv_mul_cancel₀ harea]

/-- **Triangles.** Off the borders of a triangle, barycentric coordinates and the winding number
    tell the same. -/
theorem inside_eq_barycentric
    (hoff : ∀ e ∈ ringEdges [a, b, c], ¬ (Segment.flat e.1 e.2).On p) :
    inside [a, b, c] p = (Barycentric.of? a b c p).any Barycentric.inside := by
  set t : Triangle K := ⟨a.atZ 0, b.atZ 0, c.atZ 0⟩ with ht
  have hne : t.doubleArea ≠ 0 := harea
  obtain ⟨g, hg, hinside⟩ := t.exists_inside_iff hne p
  have hg' : Barycentric.of? a b c p = some g := hg
  have hhas : t.upright.Has p ↔
      ∀ e ∈ ringEdges [a, b, c], 0 ≤ (side a b c)⁻¹ * side e.1 e.2 p := by
    simp only [← div_eq_inv_mul]
    rw [Triangle.upright_has_iff hne]
    simp [ringEdges, ht, Triangle.doubleArea]
  rw [hg', Option.any_some]
  by_cases hp : t.upright.Has p
  · rw [hinside.mpr hp]
    -- A location of the triangle that is not on a border is strictly on the hand of each edge.
    have hstrict : ∀ e ∈ ringEdges [a, b, c], 0 < (side a b c)⁻¹ * side e.1 e.2 p := by
      intro e he
      refine lt_of_le_of_ne (hhas.mp hp e he) fun hzero => hoff e he ?_
      have hside : side e.1 e.2 p = 0 :=
        (mul_eq_zero.mp hzero.symm).resolve_left (inv_ne_zero harea)
      have hmem : (e.1.atZ 0, e.2.atZ 0) ∈ t.sides :=
        List.mem_map_of_mem (f := fun d : Point2 K × Point2 K => (d.1.atZ 0, d.2.atZ 0)) he
      exact (Segment.on_congr rfl rfl).mp (Triangle.on_of_upright_has hne hmem hp hside)
    have hab : a ≠ b := by
      rintro rfl
      exact harea (side_self a c)
    exact inside_of_within ⟨(a, b), List.mem_cons_self, hab⟩ fun e he _ => hstrict e he
  · rw [Bool.eq_false_iff.mpr fun h => hp (hinside.mp h)]
    simp only [hhas, not_forall, not_le] at hp
    obtain ⟨e, he, hbeyond⟩ := hp
    exact inside_eq_false_of_beyond (side_corner_nonneg harea e he) hbeyond

end

/-! ## What the sides decide -/

/-- **Sides decide.** A ring has nothing inside that a line separates from it, or that one of its
    edges has on the other side than the ring. What all its edges have on the side of the ring is
    inside if the ring has an area. For triangles the barycentric coordinates tell the same. -/
theorem inside_by_sides (ring : List (Point2 K)) (p : Point2 K) :
    (∀ a b, (∀ v ∈ ring, 0 < side a b v) → side a b p < 0 → inside ring p = false) ∧
      ((∀ e ∈ ringEdges ring, Faces ring p e) → (inside ring p = true ↔ signedArea ring ≠ 0)) ∧
      (∀ e ∈ ringEdges ring, ∀ σ : K, (∀ v ∈ ring, 0 ≤ σ * side e.1 e.2 v) →
        σ * side e.1 e.2 p < 0 → inside ring p = false) ∧
      ∀ a b c, side a b c ≠ 0 → (∀ e ∈ ringEdges [a, b, c], ¬ (Segment.flat e.1 e.2).On p) →
        inside [a, b, c] p = (Barycentric.of? a b c p).any Barycentric.inside := by
  refine ⟨fun a b hring hp => ?_, inside_iff_signedArea,
    fun e _ σ hring hp => inside_eq_false_of_beyond hring hp,
    fun a b c harea hoff => inside_eq_barycentric harea hoff⟩
  rw [inside_eq_false_iff]
  exact winding_eq_zero_of_beyond (fun v hv => (hring v hv).le) hp

/-- A square yard, given clockwise and with a corner repeated. -/
noncomputable def clockwiseYard : List (Point2 ℝ) := [⟨0, 0⟩, ⟨0, 2⟩, ⟨2, 2⟩, ⟨2, 0⟩, ⟨2, 0⟩]

theorem ringEdges_clockwiseYard : ringEdges clockwiseYard =
    [(⟨0, 0⟩, ⟨0, 2⟩), (⟨0, 2⟩, ⟨2, 2⟩), (⟨2, 2⟩, ⟨2, 0⟩), (⟨2, 0⟩, ⟨2, 0⟩), (⟨2, 0⟩, ⟨0, 0⟩)] :=
  rfl

/-- The middle of the yard is inside, what is across its eastern edge is not, nor what is beyond
    a line further east. A triangle that is half the yard has the same outside. -/
theorem inside_by_sides_clockwiseYard :
    inside clockwiseYard ⟨1, 1⟩ = true ∧ inside clockwiseYard ⟨3, 1⟩ = false ∧
      inside clockwiseYard ⟨5, 1⟩ = false ∧
      inside [⟨0, 0⟩, ⟨0, 2⟩, ⟨2, 0⟩] (⟨3, 1⟩ : Point2 ℝ) =
        (Barycentric.of? ⟨0, 0⟩ ⟨0, 2⟩ ⟨2, 0⟩ (⟨3, 1⟩ : Point2 ℝ)).any Barycentric.inside := by
  refine ⟨((inside_by_sides clockwiseYard ⟨1, 1⟩).2.1 ?_).mpr ?_,
    (inside_by_sides clockwiseYard ⟨3, 1⟩).2.2.1 (⟨2, 2⟩, ⟨2, 0⟩) ?_ (-1) ?_ ?_,
    (inside_by_sides clockwiseYard ⟨5, 1⟩).1 ⟨4, 0⟩ ⟨4, 1⟩ ?_ ?_,
    (inside_by_sides clockwiseYard ⟨3, 1⟩).2.2.2 _ _ _ ?_ ?_⟩
  · -- The ring runs clockwise, so all is to the right of its edges.
    rw [ringEdges_clockwiseYard]
    intro e he hne
    refine ⟨-1, ?_⟩
    simp only [List.mem_cons, List.not_mem_nil, or_false] at he
    rcases he with rfl | rfl | rfl | rfl | rfl
    · norm_num [clockwiseYard, side_eq]
    · norm_num [clockwiseYard, side_eq]
    · norm_num [clockwiseYard, side_eq]
    · exact absurd rfl hne
    · norm_num [clockwiseYard, side_eq]
  · intro hzero
    have hsum := sum_side clockwiseYard ⟨0, 0⟩
    rw [hzero, ringEdges_clockwiseYard] at hsum
    norm_num [side_eq] at hsum
  · simp [ringEdges_clockwiseYard]
  · simp [clockwiseYard, side_eq]
  · norm_num [side_eq]
  · norm_num [clockwiseYard, side_eq]
  · norm_num [side_eq]
  · norm_num [side_eq]
  · -- The edges end west of the location, or are not at its height.
    intro e he ⟨t, ht, ht', hon⟩
    have hx := congrArg Point2.x hon
    have hy := congrArg Point2.y hon
    simp only [ringEdges, List.cons_append, List.nil_append, pathEdges_cons_cons,
      pathEdges_singleton, List.mem_cons, List.not_mem_nil, or_false] at he
    rcases he with rfl | rfl | rfl
    all_goals
      simp only [Segment.flat, Point2.atZ, Point3.plan_x, Point3.plan_y, Segment.pointAt_x,
        Segment.pointAt_y] at hx hy
      linarith

/-- A ring that runs along one edge and back, and along another and back. -/
noncomputable def thereAndBack : List (Point2 ℝ) := [⟨0, 0⟩, ⟨4, 0⟩, ⟨0, 0⟩, ⟨0, 4⟩]

/-- Without an area a ring winds around nothing, though there are locations that all its edges
    have on the side on which they have the ring. -/
theorem inside_thereAndBack :
    (∀ e ∈ ringEdges thereAndBack, Faces thereAndBack ⟨1, 1⟩ e) ∧
      inside thereAndBack ⟨1, 1⟩ = false := by
  have hedges : ringEdges thereAndBack = [(⟨0, 0⟩, ⟨4, 0⟩), (⟨4, 0⟩, ⟨0, 0⟩), (⟨0, 0⟩, ⟨0, 4⟩),
      (⟨0, 4⟩, ⟨0, 0⟩)] := rfl
  constructor
  · rw [hedges]
    intro e he _
    simp only [List.mem_cons, List.not_mem_nil, or_false] at he
    rcases he with rfl | rfl | rfl | rfl
    · exact ⟨1, by norm_num [thereAndBack, side_eq]⟩
    · exact ⟨-1, by norm_num [thereAndBack, side_eq]⟩
    · exact ⟨-1, by norm_num [thereAndBack, side_eq]⟩
    · exact ⟨1, by norm_num [thereAndBack, side_eq]⟩
  · rw [inside_eq_false_iff, winding_eq_sum, hedges]
    norm_num [windingOf, side_eq]

end Ring

end SiteSection
