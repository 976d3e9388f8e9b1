import Mathlib.Data.List.SplitBy

/-! # Groups of neighbours

  A list falls into groups of neighbours that belong together. Where belonging together is
  symmetric and transitive, all points of a group belong together and not only the neighbours,
  and no point of a group belongs to one of the next. It need not be reflexive: a point that
  does not belong to itself is a group of its own.
-/

namespace SiteSection

variable {ι : Type}

/-- Where the groups of a list are related one to the next, its first group is related to what
    comes after it. -/
theorem rel_head?_of_isChain {rel : ι → ι → Prop} {G : List ι} {groups : List (List ι)}
    (hne : [] ∉ groups) (h : (G :: groups).IsChain fun G H => ∀ a ∈ G, ∀ b ∈ H, rel a b) :
    ∀ a ∈ G, ∀ b ∈ groups.flatten.head?, rel a b := by
  intro a ha b hb
  match groups, hne with
  | [], _ => cases hb
  | H :: groups, hne =>
    rw [List.mem_cons, not_or] at hne
    rw [List.flatten_cons, List.head?_append_of_ne_nil _ (Ne.symm hne.1)] at hb
    exact (List.isChain_cons_cons.mp h).1 a ha b (List.mem_of_mem_head? hb)

section
variable {r : ι → ι → Bool} {G points : List ι} {a b c : ι}
  [Trans (fun a b => r a b = true) (fun a b => r a b = true) fun a b => r a b = true]

/-- The points of a group belong together. -/
theorem pairwise_of_mem_splitBy (h : G ∈ points.splitBy r) :
    G.Pairwise fun a b => r a b = true :=
  (List.isChain_of_mem_splitBy h).pairwise

variable [Std.Symm fun a b => r a b = true]

/-- Two points of a group belong together. -/
theorem eq_or_rel_of_mem_splitBy (h : G ∈ points.splitBy r) (ha : a ∈ G) (hb : b ∈ G) :
    a = b ∨ r a b = true := by
  by_cases hab : a = b
  · exact .inl hab
  · exact .inr ((pairwise_of_mem_splitBy h).forall ha hb hab)

/-- What belongs to one point of a group belongs to all of them. -/
theorem rel_of_mem_splitBy (h : G ∈ points.splitBy r) (ha : a ∈ G) (hc : c ∈ G)
    (hab : r a b = true) : r c b = true := by
  rcases eq_or_rel_of_mem_splitBy h hc ha with rfl | hca
  · exact hab
  · exact trans_of (fun a b => r a b = true) hca hab

/-- No point of a group belongs to one of the next. -/
theorem isChain_splitBy (points : List ι) :
    (points.splitBy r).IsChain fun G H => ∀ a ∈ G, ∀ b ∈ H, r a b = false := by
  refine (List.isChain_getLast_head_splitBy r points).imp_of_mem_imp ?_
  rintro G H hG hH ⟨hne, hne', hends⟩ a ha b hb
  refine Bool.eq_false_iff.mpr fun hab => Bool.eq_false_iff.mp hends ?_
  -- Otherwise the last of `G`, `a`, `b` and the first of `H` would belong together.
  have hlast : r (G.getLast hne) b = true := rel_of_mem_splitBy hG ha (List.getLast_mem hne) hab
  have hhead : r (H.head hne') (G.getLast hne) = true :=
    rel_of_mem_splitBy hH hb (List.head_mem hne') (symm_of (fun a b => r a b = true) hlast)
  exact symm_of (fun a b => r a b = true) hhead

/-- If something is left of each group, what is left of it is a group again. -/
theorem splitBy_flatten_map {f : List ι → List ι} (hsub : ∀ G, (f G).Sublist G)
    (hne : ∀ G, G ≠ [] → f G ≠ []) :
    ((points.splitBy r).map f).flatten.splitBy r = (points.splitBy r).map f := by
  apply List.splitBy_flatten
  · intro hnil
    obtain ⟨G, hG, hleft⟩ := List.mem_map.mp hnil
    exact hne G (List.ne_nil_of_mem_splitBy hG) hleft
  · intro H hH
    obtain ⟨G, hG, rfl⟩ := List.mem_map.mp hH
    exact ((pairwise_of_mem_splitBy hG).sublist (hsub G)).isChain
  · refine (List.isChain_map _).mpr ((isChain_splitBy points).imp_of_mem_imp ?_)
    intro G H hG hH hapart
    refine ⟨hne G (List.ne_nil_of_mem_splitBy hG), hne H (List.ne_nil_of_mem_splitBy hH), ?_⟩
    exact hapart _ ((hsub G).subset (List.getLast_mem _)) _ ((hsub H).subset (List.head_mem _))

end

end SiteSection
