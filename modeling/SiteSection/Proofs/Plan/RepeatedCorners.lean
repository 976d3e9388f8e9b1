import Mathlib.Data.List.Destutter
import SiteSection.Proofs.Plan.Winding

/-! # Lists without repeats

  A list keeps the elements that differ from the last one kept. Where equality is an equivalence,
  though maybe not of all elements with themselves, that is one element for every move from an
  element to a different one, and one for the start. What is dropped equals something that is
  kept, so no place is lost.
-/

namespace SiteSection

/-! ## Repeats -/

section
variable {ι κ : Type} (same : ι → ι → Bool)

/-- The element after the last one kept is dropped if it is the same, and else kept. -/
theorem dropRepeats_cons_cons (i j : ι) (l : List ι) :
    dropRepeats same (i :: j :: l) =
      if same j i then dropRepeats same (i :: l) else i :: dropRepeats same (j :: l) := by
  rw [dropRepeats, dropRepeats.go]
  split <;> rfl

/-- What is left is chosen greedily: each element that is not the same as the last one kept. -/
theorem dropRepeats_eq_destutter (l : List ι) :
    dropRepeats same l = l.destutter fun i j => same j i = false := by
  cases l with
  | nil => rfl
  | cons i l =>
    rw [List.destutter_cons']
    induction l generalizing i with
    | nil => rfl
    | cons j l ih =>
      rw [dropRepeats_cons_cons, List.destutter'_cons, ih i, ih j]
      cases same j i <;> rfl

/-- No repeats are left to drop. -/
theorem dropRepeats_dropRepeats (l : List ι) :
    dropRepeats same (dropRepeats same l) = dropRepeats same l := by
  simp only [dropRepeats_eq_destutter]
  exact l.destutter_idem _

/-- Repeats told by a key are the repeats of the keys. -/
theorem map_dropRepeats (same : κ → κ → Bool) (key : ι → κ) (l : List ι) :
    (dropRepeats (fun i j => same (key i) (key j)) l).map key = dropRepeats same (l.map key) := by
  rw [dropRepeats_eq_destutter, dropRepeats_eq_destutter]
  exact List.map_destutter fun _ _ _ _ => Iff.rfl

theorem isChain_dropRepeats (l : List ι) :
    (dropRepeats same l).IsChain fun i j => same j i = false := by
  rw [dropRepeats_eq_destutter]
  exact l.isChain_destutter _

/-- Where neighbours differ there is nothing to drop. -/
theorem dropRepeats_of_isChain {l : List ι} (h : l.IsChain fun i j => same j i = false) :
    dropRepeats same l = l := by
  rw [dropRepeats_eq_destutter]
  exact l.destutter_of_isChain _ h

theorem dropRepeats_sublist (l : List ι) : (dropRepeats same l).Sublist l := by
  rw [dropRepeats_eq_destutter]
  exact l.destutter_sublist _

theorem head?_dropRepeats (l : List ι) : (dropRepeats same l).head? = l.head? := by
  cases l <;> rfl

/-- What is dropped is the same as something that is kept. -/
theorem exists_same_of_mem {l : List ι} (hself : ∀ i ∈ l, same i i = true) {i : ι} (hi : i ∈ l) :
    ∃ k ∈ dropRepeats same l, same i k = true := by
  cases l with
  | nil => cases hi
  | cons a l =>
    induction l generalizing a with
    | nil =>
      rw [List.mem_singleton] at hi
      exact ⟨i, by rw [hi]; exact List.mem_cons_self, hself i (List.mem_singleton.mpr hi)⟩
    | cons b l ih =>
      obtain ⟨ha, hrest⟩ := List.forall_mem_cons.mp hself
      rw [dropRepeats_cons_cons]
      split
      · next hsame =>
        obtain ⟨-, hrest⟩ := List.forall_mem_cons.mp hrest
        rcases List.mem_cons.mp hi with rfl | hi
        · exact ⟨i, List.mem_cons_self, ha⟩
        · rcases List.mem_cons.mp hi with rfl | hi
          · exact ⟨a, List.mem_cons_self, hsame⟩
          · exact ih a (List.forall_mem_cons.mpr ⟨ha, hrest⟩) (List.mem_cons_of_mem a hi)
      · rcases List.mem_cons.mp hi with rfl | hi
        · exact ⟨i, List.mem_cons_self, ha⟩
        · obtain ⟨k, hk, hsame⟩ := ih b hrest hi
          exact ⟨k, List.mem_cons_of_mem a hk, hsame⟩

/-- An element that comes last is dropped if it is the same as the last one kept. -/
theorem dropRepeats_concat (l : List ι) (j : ι) :
    dropRepeats same (l ++ [j]) =
      dropRepeats same l ++ if (dropRepeats same l).getLast?.any (same j) then [] else [j] := by
  cases l with
  | nil => rfl
  | cons i l =>
    induction l generalizing i with
    | nil =>
      cases h : same j i <;> simp [dropRepeats, dropRepeats.go, h]
    | cons k l ih =>
      rw [List.cons_append, List.cons_append, dropRepeats_cons_cons, dropRepeats_cons_cons]
      split
      · exact ih i
      · have hlast : (i :: dropRepeats same (k :: l)).getLast? =
            (dropRepeats same (k :: l)).getLast? := List.getLast?_cons_cons
        rw [hlast, List.cons_append, ← ih k]
        rfl

end

/-! ## Places -/

section
variable {ι : Type} [BEq ι]

/-- Has the list three elements of which no two are equal? -/
def HasThree (l : List ι) : Prop :=
  ∃ a ∈ l, ∃ b ∈ l, ∃ c ∈ l, (a == b) = false ∧ (b == c) = false ∧ (a == c) = false

/-- How often an element of the list is followed by one that differs. -/
def moves (l : List ι) : Nat := (pathEdges l).countP fun e => !(e.1 == e.2)

theorem moves_cons_cons (i j : ι) (l : List ι) :
    moves (i :: j :: l) = moves (j :: l) + if i == j then 0 else 1 := by
  rw [moves, pathEdges_cons_cons, List.countP_cons, moves]
  cases i == j <;> rfl

variable [PartialEquivBEq ι]

/-- Every move keeps one more element. -/
theorem length_dropRepeats {i : ι} {l : List ι} (hself : ∀ j ∈ i :: l, (j == j) = true) :
    (dropRepeats (· == ·) (i :: l)).length = moves (i :: l) + 1 := by
  -- The last one kept equals the element before, so both tell the same of the next one.
  have hlast : ∀ last, (i == last) = true →
      (dropRepeats (· == ·) (last :: l)).length = moves (i :: l) + 1 := by
    induction l generalizing i with
    | nil => exact fun _ _ => rfl
    | cons j l ih =>
      intro last hlast
      obtain ⟨-, hrest⟩ := List.forall_mem_cons.mp hself
      have hsame : (j == last) = (i == j) := by
        rw [BEq.comm (a := i), BEq.congr_right hlast]
      rw [dropRepeats_cons_cons, moves_cons_cons, ← hsame]
      cases h : j == last with
      | true => exact ih hrest last h
      | false =>
        exact congrArg (· + 1) (ih hrest j (hrest j List.mem_cons_self))
  exact hlast i (hself i List.mem_cons_self)

/-- Three different elements are found wherever all elements are found. -/
theorem HasThree.of_forall_exists {l l' : List ι} (h : HasThree l)
    (hall : ∀ a ∈ l, ∃ k ∈ l', (a == k) = true) : HasThree l' := by
  obtain ⟨a, ha, b, hb, c, hc, hab, hbc, hac⟩ := h
  obtain ⟨a', ha', hsa⟩ := hall a ha
  obtain ⟨b', hb', hsb⟩ := hall b hb
  obtain ⟨c', hc', hsc⟩ := hall c hc
  refine ⟨a', ha', b', hb', c', hc', ?_, ?_, ?_⟩
  · rw [← BEq.congr_left hsa, ← BEq.congr_right hsb, hab]
  · rw [← BEq.congr_left hsb, ← BEq.congr_right hsc, hbc]
  · rw [← BEq.congr_left hsa, ← BEq.congr_right hsc, hac]

omit [PartialEquivBEq ι] in
theorem HasThree.three_le_length {l : List ι} (h : HasThree l)
    (hself : ∀ a ∈ l, (a == a) = true) : 3 ≤ l.length := by
  obtain ⟨a, ha, b, hb, c, hc, hab, hbc, hac⟩ := h
  have hne : ∀ {x y : ι}, x ∈ l → (x == y) = false → x ≠ y := by
    rintro x _ hx hxy rfl
    rw [hself x hx] at hxy
    cases hxy
  have hnodup : [a, b, c].Nodup := by
    simp [hne ha hab, hne hb hbc, hne ha hac]
  exact (hnodup.subperm (by simp [ha, hb, hc])).length_le

end

end SiteSection
