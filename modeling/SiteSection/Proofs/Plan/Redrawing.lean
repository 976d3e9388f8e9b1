import Mathlib.Data.List.Rotate
import SiteSection.Proofs.Plan.Winding

/-! # Rings drawn differently

  The same polygon can be drawn by many rings: from another corner, the other way round, with a
  corner given twice or the first one given again at the end, and with more corners on its
  edges. The winding test does not tell them apart, not even on the boundary.

  A ring from another corner has the same edges. The other way round it has them from their
  other ends, and each counts the opposite. A new corner on an edge parts the edge in two. An
  edge that crosses the height of a location crosses it on one of its parts, and the location
  is on the same side of the edge and of the part; of a corner at the very height, the half-open
  rule gives the crossing to one part only.
-/

namespace SiteSection

/-! ## The edges of a ring drawn differently -/

section
variable {ι : Type}

/-- Backwards, a path has its edges from their other ends, in the opposite order. -/
theorem pathEdges_reverse (l : List ι) :
    pathEdges l.reverse = ((pathEdges l).map Prod.swap).reverse := by
  induction l with
  | nil => rfl
  | cons i l ih =>
    cases l with
    | nil => rfl
    | cons j l =>
      rw [List.reverse_cons, List.reverse_cons, List.append_assoc, List.singleton_append,
        pathEdges_append, ← List.reverse_cons, ih, pathEdges_cons_cons j i]
      simp

/-- Drawn from another corner, a ring has the same edges. -/
theorem ringEdges_perm (l l' : List ι) : (ringEdges (l' ++ l)).Perm (ringEdges (l ++ l')) := by
  cases l with
  | nil => simp
  | cons i l =>
    cases l' with
    | nil => simp
    | cons j l' =>
      have hcut : ∀ (i j : ι) (l l' : List ι), ringEdges (i :: l ++ j :: l') =
          pathEdges (i :: l ++ [j]) ++ pathEdges (j :: l' ++ [i]) := by
        intro i j l l'
        rw [List.cons_append, ringEdges_cons, List.append_assoc, ← List.cons_append]
        exact pathEdges_append (i :: l) j (l' ++ [i])
      rw [hcut, hcut]
      exact List.perm_append_comm

/-- The other way round from the same corner, a ring has its edges from their other ends, in the
    opposite order. -/
theorem ringEdges_cons_reverse (i : ι) (l : List ι) :
    ringEdges (i :: l.reverse) = ((ringEdges (i :: l)).map Prod.swap).reverse := by
  rw [ringEdges_cons, ringEdges_cons, ← pathEdges_reverse, List.reverse_cons, List.reverse_append,
    List.reverse_singleton, List.singleton_append, List.cons_append]

/-- Drawn the other way round, a ring has its edges from their other ends. -/
theorem ringEdges_reverse_perm (ring : List ι) :
    (ringEdges ring.reverse).Perm ((ringEdges ring).map Prod.swap) := by
  cases ring with
  | nil => exact .rfl
  | cons i l =>
    rw [List.reverse_cons]
    refine (ringEdges_perm [i] l.reverse).trans ?_
    rw [List.singleton_append, ringEdges_cons_reverse]
    exact List.reverse_perm _

/-- An edge leads from a corner to the next one around the ring. -/
theorem exists_of_getElem?_ringEdges {ring : List ι} {i : Nat} {e : ι × ι}
    (h : (ringEdges ring)[i]? = some e) :
    ∃ l l', ring = l ++ e.1 :: l' ∧ l.length = i ∧ (l' ++ l).headD e.1 = e.2 := by
  cases ring with
  | nil => cases h
  | cons c m =>
    obtain ⟨hfrom, hto⟩ := List.getElem?_zip_eq_some.mp h
    rw [List.cons_append, List.tail_cons] at hto
    have hi : i < m.length + 1 := by
      have hlt := (List.getElem?_eq_some_iff.mp hto).1
      rwa [List.length_append, List.length_singleton] at hlt
    rw [List.getElem?_append_left (by simpa using hi)] at hfrom
    obtain ⟨hlt, hget⟩ := List.getElem?_eq_some_iff.mp hfrom
    refine ⟨(c :: m).take i, m.drop i, ?_, List.length_take_of_le hlt.le, ?_⟩
    · conv_lhs => rw [← List.take_append_drop i (c :: m), List.drop_eq_getElem_cons hlt, hget]
      rfl
    · rcases (Nat.lt_succ_iff.mp hi).lt_or_eq with hinner | hlast
      · rw [List.getElem?_append_left hinner] at hto
        obtain ⟨hlt', hget'⟩ := List.getElem?_eq_some_iff.mp hto
        rw [List.drop_eq_getElem_cons hlt', hget']
        rfl
      · -- The last corner is followed by the first.
        subst hlast
        rw [List.getElem?_concat_length, Option.some.injEq] at hto
        rw [List.drop_length, List.nil_append]
        cases m with
        | nil => exact hget.symm.trans hto
        | cons d m => exact hto

theorem insertIdx_append (l l' : List ι) (v : ι) :
    (l ++ l').insertIdx l.length v = l ++ v :: l' := by
  induction l with
  | nil => rfl
  | cons i l ih =>
    rw [List.length_cons, List.cons_append, List.insertIdx_succ_cons, ih, List.cons_append]

end

namespace Ring

variable {K : Type} [ExactScalar K] {a b p v : Point2 K} {l l' : List (Point2 K)}

/-! ## A corner on an edge -/

/-- An edge counts what its parts count. -/
theorem windingOf_add_of_on (hv : (Segment.flat a b).On v) :
    windingOf p (a, v) + windingOf p (v, b) = windingOf p (a, b) := by
  wlog hab : a.y ≤ b.y
  · -- An edge that falls is one that rises, turned around.
    have hrise := this (p := p) ((Segment.flat a b).on_turned.mpr hv) (le_of_not_ge hab)
    rw [windingOf_swap (a := v), windingOf_swap (a := a) (b := v), windingOf_swap (a := a)] at hrise
    omega
  obtain ⟨t, ht, ht', rfl⟩ := hv
  set v := ((Segment.flat a b).pointAt t).plan with hv
  have hheight : v.y = a.y + (b.y - a.y) * t := rfl
  have hfirst : side a v p = t * side a b p := by
    simp only [side_eq, hv, Segment.flat, Point2.atZ, Point3.plan_x, Point3.plan_y,
      Segment.pointAt_x, Segment.pointAt_y]
    ring
  have hsecond : side v b p = (1 - t) * side a b p := by
    simp only [side_eq, hv, Segment.flat, Point2.atZ, Point3.plan_x, Point3.plan_y,
      Segment.pointAt_x, Segment.pointAt_y]
    ring
  have hav : a.y ≤ v.y := by
    rw [hheight]
    exact le_add_of_nonneg_right (mul_nonneg (sub_nonneg.mpr hab) ht)
  have hvb : v.y ≤ b.y := by
    rw [hheight]
    nlinarith
  rw [windingOf_of_le hav, windingOf_of_le hvb, windingOf_of_le hab]
  -- Only the part that crosses the height of the location can count, and it has a length.
  rcases lt_or_ge p.y v.y with hpv | hvp
  · by_cases hap : a.y ≤ p.y
    · have hpos : 0 < t := by
        refine lt_of_le_of_ne ht fun hzero => ?_
        rw [← hzero, mul_zero, add_zero] at hheight
        linarith
      simp [hap, hpv, hpv.not_ge, hpv.trans_le hvb, hfirst, mul_pos_iff_of_pos_left hpos]
    · simp [hap, hpv.not_ge]
  · by_cases hpb : p.y < b.y
    · have hpos : 0 < 1 - t := by
        refine lt_of_le_of_ne (sub_nonneg.mpr ht') fun hzero => ?_
        have hone : t = 1 := by linarith
        rw [hone, mul_one, add_sub_cancel] at hheight
        linarith
      simp [hvp, hvp.not_gt, hpb, hav.trans hvp, hsecond, mul_pos_iff_of_pos_left hpos]
    · simp [hvp.not_gt, hpb]

/-! ## Winding numbers -/

/-- From another corner, a ring winds as often. -/
theorem winding_append_comm (l l' : List (Point2 K)) (p : Point2 K) :
    winding (l' ++ l) p = winding (l ++ l') p := by
  rw [winding_eq_sum, winding_eq_sum]
  exact ((ringEdges_perm l l').map _).sum_eq

theorem winding_rotate (ring : List (Point2 K)) (n : Nat) (p : Point2 K) :
    winding (ring.rotate n) p = winding ring p := by
  rw [List.rotate_eq_drop_append_take_mod, winding_append_comm, List.take_append_drop]

/-- The other way round, a ring winds as often in the opposite direction. -/
theorem winding_reverse (ring : List (Point2 K)) (p : Point2 K) :
    winding ring.reverse p = -winding ring p := by
  have hturn : windingOf p ∘ Prod.swap = (fun n => -n) ∘ windingOf p :=
    funext fun _ => windingOf_swap
  rw [winding_eq_sum, winding_eq_sum, ((ringEdges_reverse_perm ring).map _).sum_eq,
    List.map_map, hturn, List.sum_neg, List.map_map]

/-- With a corner more on one of its edges, a ring winds as often. -/
theorem winding_insert (hv : (Segment.flat a ((l' ++ l).headD a)).On v) :
    winding (l ++ a :: v :: l') p = winding (l ++ a :: l') p := by
  obtain ⟨m, hnext⟩ := exists_next (l' ++ l) a
  set b := (l' ++ l).headD a with hb
  have hwith : ringEdges (a :: v :: l' ++ l) = (a, v) :: (v, b) :: pathEdges (b :: m) := by
    rw [List.cons_append, List.cons_append, ringEdges_cons, List.cons_append, hnext,
      pathEdges_cons_cons, pathEdges_cons_cons]
  have hwithout : ringEdges (a :: l' ++ l) = (a, b) :: pathEdges (b :: m) := by
    rw [List.cons_append, ringEdges_cons, hnext, pathEdges_cons_cons]
  rw [winding_append_comm (a :: v :: l'), winding_append_comm (a :: l'), winding_eq_sum,
    winding_eq_sum, hwith, hwithout, List.map_cons, List.map_cons, List.sum_cons, List.sum_cons,
    List.map_cons, List.sum_cons, ← add_assoc, windingOf_add_of_on hv]

/-- With a corner given twice, a ring winds as often. -/
theorem winding_repeat (l l' : List (Point2 K)) (v p : Point2 K) :
    winding (l ++ v :: v :: l') p = winding (l ++ v :: l') p :=
  winding_insert (Segment.flat v ((l' ++ l).headD v)).on_p0

/-- With its first corner given again at the end, a ring winds as often. -/
theorem winding_closed (v : Point2 K) (l : List (Point2 K)) (p : Point2 K) :
    winding (v :: l ++ [v]) p = winding (v :: l) p := by
  rw [winding_append_comm [v] (v :: l)]
  exact winding_repeat [] l v p

/-! ## Areas -/

theorem signedArea_eq_sum (ring : List (Point2 K)) :
    signedArea ring = ((ringEdges ring).map fun e => e.1.cross e.2).sum * Scalar.half := by
  rw [signedArea, Scalar.sum, neg_zero, ← List.sum_eq_foldl]

/-- From another corner, a ring has the same area. -/
theorem signedArea_append_comm (l l' : List (Point2 K)) :
    signedArea (l' ++ l) = signedArea (l ++ l') := by
  rw [signedArea_eq_sum, signedArea_eq_sum, ((ringEdges_perm l l').map _).sum_eq]

theorem signedArea_rotate (ring : List (Point2 K)) (n : Nat) :
    signedArea (ring.rotate n) = signedArea ring := by
  rw [List.rotate_eq_drop_append_take_mod, signedArea_append_comm, List.take_append_drop]

/-- The other way round, a ring has the opposite area. -/
theorem signedArea_reverse (ring : List (Point2 K)) :
    signedArea ring.reverse = -signedArea ring := by
  have hturn : (fun e : Point2 K × Point2 K => e.1.cross e.2) ∘ Prod.swap =
      (fun n => -n) ∘ fun e => e.1.cross e.2 := by
    funext e
    simp only [Function.comp_apply, Prod.fst_swap, Prod.snd_swap, Point2.cross]
    ring
  rw [signedArea_eq_sum, signedArea_eq_sum, ((ringEdges_reverse_perm ring).map _).sum_eq,
    List.map_map, hturn, ← neg_mul, List.sum_neg, List.map_map]

/-- With its first corner given again at the end, a ring has the same area. -/
theorem signedArea_closed (v : Point2 K) (l : List (Point2 K)) :
    signedArea (v :: l ++ [v]) = signedArea (v :: l) := by
  have hnone : v.cross v = 0 := by
    rw [Point2.cross]
    ring
  rw [signedArea_append_comm [v] (v :: l), signedArea_eq_sum, signedArea_eq_sum,
    List.singleton_append, ringEdges_cons, List.cons_append, pathEdges_cons_cons, List.map_cons,
    List.sum_cons, hnone, zero_add, ringEdges_cons]

/-! ## What is inside -/

theorem inside_eq_of_winding {ring ring' : List (Point2 K)}
    (h : winding ring' p = winding ring p) : inside ring' p = inside ring p := by
  rw [Bool.eq_iff_iff, inside_iff, inside_iff, h]

/-- **Redrawing a ring.** What is inside does not change if a ring is started from another
    corner or run through the other way round, if a corner is given twice or the first one given
    again at the end, and if a corner is added on an edge. -/
theorem inside_redrawn (ring : List (Point2 K)) (p : Point2 K) :
    (∀ n, inside (ring.rotate n) p = inside ring p) ∧
      inside ring.reverse p = inside ring p ∧
      (∀ i v, ring[i]? = some v → inside (ring.insertIdx i v) p = inside ring p) ∧
      (∀ v, ring.head? = some v → inside (ring ++ [v]) p = inside ring p) ∧
      ∀ i e v, (ringEdges ring)[i]? = some e → (Segment.flat e.1 e.2).On v →
        inside (ring.insertIdx (i + 1) v) p = inside ring p := by
  refine ⟨fun n => inside_eq_of_winding (winding_rotate ring n p), ?_, ?_, ?_, ?_⟩
  · rw [Bool.eq_iff_iff, inside_iff, inside_iff, winding_reverse, neg_ne_zero]
  · intro i v hv
    obtain ⟨hlt, rfl⟩ := List.getElem?_eq_some_iff.mp hv
    obtain ⟨l, l', hring, rfl, _⟩ := @List.exists_of_set _ i ring[i] ring hlt
    set v := ring[l.length]
    rw [hring, insertIdx_append]
    exact inside_eq_of_winding (winding_repeat l l' v p)
  · intro v hv
    obtain ⟨l, rfl⟩ := List.head?_eq_some_iff.mp hv
    exact inside_eq_of_winding (winding_closed v l p)
  · intro i e v he hv
    obtain ⟨l, l', rfl, rfl, hnext⟩ := exists_of_getElem?_ringEdges he
    have hinsert : (l ++ e.1 :: l').insertIdx (l.length + 1) v = l ++ e.1 :: v :: l' := by
      simpa using insertIdx_append (l ++ [e.1]) l' v
    rw [hinsert]
    exact inside_eq_of_winding (winding_insert (hnext ▸ hv))

/-- For a location in the middle of the eastern side of the yard, that side may be parted at
    the location itself. -/
theorem inside_redrawn_notchedYard :
    inside notchedYard.reverse ⟨6, 3⟩ = inside notchedYard ⟨6, 3⟩ ∧
      (notchedYard[4]? = some ⟨3, 3⟩ ∧
        inside (notchedYard.insertIdx 4 ⟨3, 3⟩) ⟨6, 3⟩ = inside notchedYard ⟨6, 3⟩) ∧
      (notchedYard.head? = some ⟨0, 0⟩ ∧
        inside (notchedYard ++ [⟨0, 0⟩]) ⟨6, 3⟩ = inside notchedYard ⟨6, 3⟩) ∧
      (ringEdges notchedYard)[2]? = some (⟨6, 0⟩, ⟨6, 6⟩) ∧
      (Segment.flat ⟨6, 0⟩ ⟨6, 6⟩ : Segment ℝ).On ⟨6, 3⟩ ∧
      inside (notchedYard.insertIdx 3 ⟨6, 3⟩) ⟨6, 3⟩ = inside notchedYard ⟨6, 3⟩ := by
  obtain ⟨_, hreverse, hrepeat, hclosed, hinsert⟩ := inside_redrawn notchedYard ⟨6, 3⟩
  have hon : (Segment.flat ⟨6, 0⟩ ⟨6, 6⟩ : Segment ℝ).On ⟨6, 3⟩ := by
    refine ⟨1 / 2, by norm_num, by norm_num, ?_⟩
    ext
    · norm_num [Segment.flat, Point2.atZ]
    · norm_num [Segment.flat, Point2.atZ]
  exact ⟨hreverse, ⟨rfl, hrepeat 4 ⟨3, 3⟩ rfl⟩, ⟨rfl, hclosed ⟨0, 0⟩ rfl⟩, rfl, hon,
    hinsert 2 (⟨6, 0⟩, ⟨6, 6⟩) ⟨6, 3⟩ rfl hon⟩

end Ring

end SiteSection
