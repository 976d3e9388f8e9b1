import Mathlib.Data.List.Basic
import Mathlib.Data.List.Sort
import SiteSection.Mesh

/-! # Neighbouring faces

  The sides of all faces stand in one list, and the uses of a key are its positions there, in
  increasing order. Where a key has two uses, each is the partner of the other, and so the two
  faces are linked.
-/

namespace SiteSection

namespace Side

variable {keys : List (Nat × Nat)} {e e' : Nat × Nat} {k k' : Nat}

/-- Two sides use the same points if they are the same side, or one is the other from its
    other end. -/
theorem key_eq_iff : key e = key e' ↔ e' = e ∨ e' = e.swap := by
  obtain ⟨a, b⟩ := e
  obtain ⟨c, d⟩ := e'
  simp only [key, Prod.swap_prod_mk]
  split <;> split <;> simp only [Prod.mk.injEq] <;> omega

/-! ## Uses -/

theorem mem_uses : k ∈ uses keys e ↔ keys[k]? = some e := by
  simp only [uses, List.mem_map, List.mem_filter, beq_iff_eq]
  constructor
  · rintro ⟨⟨f, i⟩, ⟨hmem, rfl⟩, rfl⟩
    exact List.mk_mem_zipIdx_iff_getElem?.mp hmem
  · intro h
    exact ⟨(e, k), ⟨List.mk_mem_zipIdx_iff_getElem?.mpr h, rfl⟩, rfl⟩

theorem pairwise_uses (keys : List (Nat × Nat)) (e : Nat × Nat) :
    (uses keys e).Pairwise (· < ·) := by
  have hall : (keys.zipIdx.map (·.2)).Pairwise (· < ·) := by
    rw [List.zipIdx_map_snd]
    exact List.pairwise_lt_range'
  exact hall.sublist (List.filter_sublist.map _)

/-- Two uses that are the only ones are partners. -/
theorem partner?_of_two (hk : keys[k]? = some e) (hk' : keys[k']? = some e) (hne : k ≠ k')
    (honly : ∀ j, keys[j]? = some e → j = k ∨ j = k') : partner? keys k = some k' := by
  have hmem : ∀ j, j ∈ uses keys e ↔ j = k ∨ j = k' := by
    intro j
    rw [mem_uses]
    constructor
    · exact honly j
    · rintro (rfl | rfl)
      · exact hk
      · exact hk'
  -- The uses are in increasing order.
  rcases Nat.lt_or_gt_of_ne hne with hlt | hlt
  · have huses : uses keys e = [k, k'] := by
      apply (pairwise_uses keys e).eq_of_mem_iff (by simpa using hlt)
      intro j
      rw [hmem]
      simp
    simp [partner?, hk, huses]
  · have huses : uses keys e = [k', k] := by
      apply (pairwise_uses keys e).eq_of_mem_iff (by simpa using hlt)
      intro j
      rw [hmem]
      simp [or_comm]
    simp [partner?, hk, huses, hne.symm]

/-! ## Positions -/

/-- The key of side `i` of face `t`. -/
theorem getElem?_keys (faces : List Face) (t : Nat) {i : Nat} (hi : i < 3) :
    (Side.keys faces)[3 * t + i]? = (faces[t]?).bind fun f => (f.sides[i]?).map key := by
  induction faces generalizing t with
  | nil => simp [Side.keys]
  | cons f faces ih =>
    have hcons : Side.keys (f :: faces) = f.sides.map key ++ Side.keys faces := by
      simp [Side.keys]
    cases t with
    | zero =>
      rw [hcons, Nat.mul_zero, Nat.zero_add, List.getElem?_append_left (by simpa using hi)]
      simp
    | succ t =>
      have hpos : 3 * (t + 1) + i = (f.sides.map key).length + (3 * t + i) := by
        simp
        omega
      rw [hcons, hpos, List.getElem?_append_right (Nat.le_add_right _ _), Nat.add_sub_cancel_left,
        ih]
      simp

end Side

/-! ## Links -/

/-- Across a side is the face of the partner of its position. -/
theorem Mesh.getElem?_linksAt {α : Type} (points : List (Point3 α)) {faces : List Face}
    {t i : Nat} (ht : t < faces.length) (hi : i < 3) :
    ((Mesh.ofFaces points faces).linksAt t).toList[i]? =
      some ((Side.partner? (Side.keys faces) (3 * t + i)).map (· / 3)) := by
  have hlinks : (Mesh.ofFaces points faces).linksAt t =
      ⟨(Side.partner? (Side.keys faces) (3 * t + 0)).map (· / 3),
        (Side.partner? (Side.keys faces) (3 * t + 1)).map (· / 3),
        (Side.partner? (Side.keys faces) (3 * t + 2)).map (· / 3)⟩ := by
    simp [Mesh.linksAt, Mesh.ofFaces, linksOf, List.getElem?_range ht]
  rw [hlinks]
  obtain rfl | rfl | rfl : i = 0 ∨ i = 1 ∨ i = 2 := by omega
  · rfl
  · rfl
  · rfl

end SiteSection
