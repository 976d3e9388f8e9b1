import SiteSection.Proofs.Numbers.ExactScalar

/-! # Choosing the least

  Lists are searched for their best element by keeping the best so far. What is kept in the end
  is an element of the list, by any comparison; by a comparison that goes by a cost first, no
  element costs less; and by a total order it is the first of those that come after none.
-/

namespace SiteSection

/-! ## By any comparison -/

/-- Replacing the best so far by a better one ends with one of the elements. -/
theorem mem_of_foldl_replace {ι : Type} (better : ι → ι → Prop) [∀ i j, Decidable (better i j)]
    (rest : List ι) (best : ι) :
    rest.foldl (fun best j => if better best j then j else best) best ∈ best :: rest := by
  induction rest generalizing best with
  | nil => exact List.mem_cons_self
  | cons b rest ih =>
    rw [List.foldl_cons]
    split
    · exact List.mem_cons_of_mem best (ih b)
    · rcases List.mem_cons.mp (ih best) with hi | hi
      · rw [hi]
        exact List.mem_cons_self
      · exact List.mem_cons_of_mem best (List.mem_cons_of_mem b hi)

theorem mem_of_leastBy?_eq_some {ι : Type} {cmp : ι → ι → Ordering} {l : List ι} {i : ι}
    (h : leastBy? cmp l = some i) : i ∈ l := by
  cases l with
  | nil => cases h
  | cons a rest =>
    rw [leastBy?, Option.some.injEq] at h
    exact h ▸ mem_of_foldl_replace (fun best j => (cmp best j == .gt) = true) rest a

/-! ## By a cost -/

section
variable {K : Type} [ExactScalar K]

/-- Where an element replaces the best so far only if it costs no more, and has to if it costs
    less, the last one to be best costs least. -/
theorem foldl_replace_le {ι : Type} (better : ι → ι → Prop) [∀ i j, Decidable (better i j)]
    (cost : ι → K) (hbetter : ∀ i j, better i j → cost j ≤ cost i)
    (hnot : ∀ i j, ¬ better i j → cost i ≤ cost j) (rest : List ι) (best : ι) :
    ∀ i ∈ best :: rest,
      cost (rest.foldl (fun best j => if better best j then j else best) best) ≤ cost i := by
  induction rest generalizing best with
  | nil =>
    intro i hi
    rw [List.mem_singleton.mp hi]
    exact le_refl _
  | cons b rest ih =>
    intro i hi
    rw [List.foldl_cons]
    split
    · next h =>
      rcases List.mem_cons.mp hi with rfl | hi
      · exact (ih b b List.mem_cons_self).trans (hbetter _ _ h)
      · exact ih b i hi
    · next h =>
      rcases List.mem_cons.mp hi with rfl | hi
      · exact ih i i List.mem_cons_self
      · rcases List.mem_cons.mp hi with rfl | hi
        · exact (ih best best List.mem_cons_self).trans (hnot _ _ h)
        · exact ih best i (List.mem_cons_of_mem best hi)

/-- By a comparison that goes by the cost first, the least element costs least. -/
theorem exists_leastBy?_le {ι : Type} (cost : ι → K) (tie : ι → ι → Ordering) {l : List ι} {i : ι}
    (hi : i ∈ l) :
    ∃ b, leastBy? (fun a b => (Scalar.totalCmp (cost a) (cost b)).then (tie a b)) l = some b ∧
      cost b ≤ cost i := by
  have hgt : ∀ a b, ((Scalar.totalCmp (cost a) (cost b)).then (tie a b) == .gt) = true →
      cost b ≤ cost a := by
    intro a b hcmp
    rw [beq_iff_eq, ExactScalar.totalCmp_eq, Ordering.then_eq_gt, compare_gt_iff_gt] at hcmp
    rcases hcmp with hlt | ⟨heq, _⟩
    · exact hlt.le
    · exact (compare_eq_iff_eq.mp heq).ge
  have hnot : ∀ a b, ¬ ((Scalar.totalCmp (cost a) (cost b)).then (tie a b) == .gt) = true →
      cost a ≤ cost b := by
    intro a b hcmp
    rw [beq_iff_eq, ExactScalar.totalCmp_eq] at hcmp
    refine not_lt.mp fun hlt => hcmp ?_
    rw [compare_gt_iff_gt.mpr hlt, Ordering.gt_then]
  cases l with
  | nil => cases hi
  | cons first rest => exact ⟨_, rfl, foldl_replace_le _ cost hgt hnot rest first i hi⟩

end

/-! ## By a total order -/

section
variable {ι : Type} (cmp : ι → ι → Ordering)

theorem leastBy?_concat (l : List ι) (j : ι) :
    leastBy? cmp (l ++ [j]) = match leastBy? cmp l with
      | none => some j
      | some best => some (if cmp best j == .gt then j else best) := by
  cases l with
  | nil => rfl
  | cons i rest => simp only [leastBy?, List.cons_append, List.foldl_append, List.foldl_cons,
      List.foldl_nil]

/-- Does the element come after none of a list? -/
def leads (l : List ι) (a : ι) : Bool := l.all fun b => (cmp a b).isLE

variable {cmp}

theorem leads_iff {l : List ι} {a : ι} :
    leads cmp l a = true ↔ ∀ b ∈ l, (cmp a b).isLE = true := List.all_eq_true

theorem leads_concat {l : List ι} {a j : ι} :
    leads cmp (l ++ [j]) a = (leads cmp l a && (cmp a j).isLE) := by
  simp [leads]

variable [Std.TransCmp cmp]

/-- The least element is the first of those that lead. -/
theorem leastBy?_eq_find? (l : List ι) : leastBy? cmp l = l.find? (leads cmp l) := by
  -- From the front: the best so far is the least of the elements before.
  induction l using List.reverseRecOn with
  | nil => rfl
  | append_singleton l j ih =>
    have hself : (cmp j j).isLE = true := Std.ReflCmp.isLE_rfl
    rw [leastBy?_concat, List.find?_append]
    cases hbest : leastBy? cmp l with
    | none =>
      cases l with
      | nil => simp [leads, hself]
      | cons => cases hbest
    | some best =>
      rw [hbest] at ih
      have hmem : best ∈ l := List.mem_of_find?_eq_some ih.symm
      have hleast : leads cmp l best = true := List.find?_some ih.symm
      dsimp only
      by_cases hj : cmp best j = .gt
      · -- No element before can lead, and the new one does.
        have hnone : l.find? (leads cmp (l ++ [j])) = none := by
          apply List.find?_eq_none.mpr
          intro a _ ha
          rw [leads_concat, Bool.and_eq_true] at ha
          have hle : (cmp best j).isLE = true :=
            Std.TransCmp.isLE_trans (leads_iff.mp hleast a ‹_›) ha.2
          rw [hj] at hle
          cases hle
        have hleads : leads cmp (l ++ [j]) j = true := by
          rw [leads_concat, hself, Bool.and_true, leads_iff]
          intro b hb
          have hlt : (cmp j best).isLE = true := by
            rw [Std.OrientedCmp.gt_iff_lt.mp hj]
            rfl
          exact Std.TransCmp.isLE_trans hlt (leads_iff.mp hleast b hb)
        rw [hnone, hj, List.find?_cons_of_pos hleads]
        rfl
      · -- The best so far still leads, and those before it still do not.
        have hle : (cmp best j).isLE = true := Ordering.isLE_iff_ne_gt.mpr hj
        have hsame : l.find? (leads cmp (l ++ [j])) = l.find? (leads cmp l) := by
          apply List.find?_congr
          intro a _
          rw [leads_concat]
          cases ha : leads cmp l a with
          | false => rfl
          | true => exact Std.TransCmp.isLE_trans (leads_iff.mp ha best hmem) hle
        rw [hsame, ← ih]
        simp [hj]

/-- The least element comes after none. -/
theorem leads_of_leastBy?_eq_some {l : List ι} {a : ι} (h : leastBy? cmp l = some a) :
    leads cmp l a = true := by
  rw [leastBy?_eq_find?] at h
  exact List.find?_some h

end

/-! ## Orders by a key -/

/-- An order by a key is transitive if the order of the keys is. -/
theorem transCmp_on {ι κ : Type} (cmp : κ → κ → Ordering) [Std.TransCmp cmp] (key : ι → κ) :
    Std.TransCmp fun a b => cmp (key a) (key b) where
  eq_swap {a b} := @Std.OrientedCmp.eq_swap κ cmp _ (key a) (key b)
  isLE_trans {a b c} := @Std.TransCmp.isLE_trans κ cmp _ (key a) (key b) (key c)

section
variable {α : Type} [Scalar α] [Std.TransCmp (Scalar.totalCmp : α → α → Ordering)]

/-- First by a scalar and then by a number is a total order. -/
theorem transCmp_numbered {κ : Type} (number : κ → Nat) :
    Std.TransCmp fun a b : α × κ =>
      (Scalar.totalCmp a.1 b.1).then (compare (number a.2) (number b.2)) :=
  have := transCmp_on (Scalar.totalCmp : α → α → Ordering) (Prod.fst : α × κ → α)
  have := transCmp_on (compare : Nat → Nat → Ordering) fun a : α × κ => number a.2
  inferInstanceAs (Std.TransCmp (compareLex (fun a b : α × κ => Scalar.totalCmp a.1 b.1)
    fun a b => compare (number a.2) (number b.2)))

end

end SiteSection
