import SiteSection.Box

/-! # Box indexes

  Items filed under plan boxes, and the query for the items whose box meets another. The
  order in which a query returns its hits means nothing; callers sort or take a minimum.

  A box is filed as an envelope: both of its corners as computed, put in order axis by axis.
-/

namespace SiteSection

/-- A plan box by its two corners, in order along each axis. -/
structure Envelope (α : Type) where
  /-- The lower corner. -/
  lower : Point2 α
  /-- The upper corner. -/
  upper : Point2 α

namespace Envelope

variable {α : Type} [Scalar α]

/-- The envelope of a box. -/
def ofBox (b : Box2 α) : Envelope α :=
  let lesser := fun (p q : α) => if p < q then p else q
  let greater := fun (p q : α) => if q < p then p else q
  ⟨Coordinates.zipWith lesser b.origin b.upper, Coordinates.zipWith greater b.origin b.upper⟩

/-- Do two envelopes share a point, borders included? Undefined corners meet nothing. -/
def meets (a b : Envelope α) : Bool :=
  decide (a.lower.x ≤ b.upper.x) && decide (a.lower.y ≤ b.upper.y) &&
  decide (b.lower.x ≤ a.upper.x) && decide (b.lower.y ≤ a.upper.y)

end Envelope

/-- Items of type `ι` filed under plan boxes. -/
structure BoxIndex (α ι : Type) where
  /-- The items with their envelopes. -/
  entries : List (Envelope α × ι)

namespace BoxIndex

variable {α ι : Type} [Scalar α]

/-- An index of nothing. -/
def empty : BoxIndex α ι := ⟨[]⟩

/-- The index of some items with their boxes. -/
def ofList (items : List (Box2 α × ι)) : BoxIndex α ι :=
  ⟨items.map fun e => (Envelope.ofBox e.1, e.2)⟩

/-- The number of items. -/
def size (x : BoxIndex α ι) : Nat := x.entries.length

/-- Is nothing filed? -/
def isEmpty (x : BoxIndex α ι) : Bool := x.size == 0

/-- The items whose box meets a box, borders included. -/
def query (x : BoxIndex α ι) (b : Box2 α) : List ι :=
  (x.entries.filter fun e => e.1.meets (Envelope.ofBox b)).map (·.2)

/-- The items whose box holds a location. -/
def queryPoint (x : BoxIndex α ι) (p : Point2 α) : List ι := x.query (Box.ofPoint p)

@[simp] theorem size_ofList (items : List (Box2 α × ι)) :
    (ofList items).size = items.length := by simp [ofList, size]

@[simp] theorem query_empty (b : Box2 α) : (empty : BoxIndex α ι).query b = [] := rfl

end BoxIndex

/-! ## Hits in order -/

/-- Numbers in increasing order, each once. -/
def sortedOnce (ids : List Nat) : List Nat :=
  dropEqual (ids.mergeSort (· ≤ ·))
where
  /-- The list without elements equal to their predecessor. -/
  dropEqual : List Nat → List Nat
    | i :: j :: l => if i = j then dropEqual (j :: l) else i :: dropEqual (j :: l)
    | l => l

namespace sortedOnce

/-- Dropping repeats loses no number. -/
theorem mem_dropEqual (k : Nat) (l : List Nat) : k ∈ dropEqual l ↔ k ∈ l := by
  fun_induction dropEqual l with
  | case1 i l ih => simp [ih]
  | case2 i j l _ ih => simp only [List.mem_cons, ih]
  | case3 => rfl

/-- What increases weakly increases strictly once repeats are dropped. -/
theorem pairwise_dropEqual {l : List Nat} (h : l.Pairwise (· ≤ ·)) :
    (dropEqual l).Pairwise (· < ·) := by
  fun_induction dropEqual l with
  | case1 i l ih => exact ih h.tail
  | case2 i j l hne ih =>
    obtain ⟨hi, htail⟩ := List.pairwise_cons.mp h
    refine List.pairwise_cons.mpr ⟨fun k hk => ?_, ih htail⟩
    have hij : i < j := Nat.lt_of_le_of_ne (hi j List.mem_cons_self) hne
    rcases List.mem_cons.mp ((mem_dropEqual k _).mp hk) with rfl | hkl
    · exact hij
    · exact Nat.lt_of_lt_of_le hij (List.rel_of_pairwise_cons htail hkl)
  | case3 l hl =>
    match l, hl with
    | [], _ => exact List.Pairwise.nil
    | [_], _ => exact List.pairwise_singleton _ _
    | i :: j :: l, hl => exact absurd rfl (hl i j l)

/-- What increases strictly has no repeats to drop. -/
theorem dropEqual_of_pairwise {l : List Nat} (h : l.Pairwise (· < ·)) : dropEqual l = l := by
  fun_induction dropEqual l with
  | case1 i l _ => exact absurd (List.rel_of_pairwise_cons h List.mem_cons_self) (Nat.lt_irrefl i)
  | case2 i j l _ ih => rw [ih h.tail]
  | case3 => rfl

end sortedOnce

/-- Putting numbers in order loses none and invents none. -/
@[simp] theorem mem_sortedOnce {k : Nat} {ids : List Nat} : k ∈ sortedOnce ids ↔ k ∈ ids := by
  rw [sortedOnce, sortedOnce.mem_dropEqual, List.mem_mergeSort]

/-- Numbers in order increase strictly. -/
theorem pairwise_sortedOnce (ids : List Nat) : (sortedOnce ids).Pairwise (· < ·) := by
  have h : (ids.mergeSort (· ≤ ·)).Pairwise fun a b => decide (a ≤ b) = true :=
    List.pairwise_mergeSort (fun a b c hab hbc => by
      simp only [decide_eq_true_eq] at *
      omega) (fun a b => by
      simp only [Bool.or_eq_true, decide_eq_true_eq]
      omega) ids
  exact sortedOnce.pairwise_dropEqual (h.imp of_decide_eq_true)

/-- Numbers that increase strictly are in order already. -/
theorem sortedOnce_of_pairwise {ids : List Nat} (h : ids.Pairwise (· < ·)) :
    sortedOnce ids = ids := by
  rw [sortedOnce, List.mergeSort_of_pairwise (h.imp fun hlt => decide_eq_true (Nat.le_of_lt hlt)),
    sortedOnce.dropEqual_of_pairwise h]

end SiteSection
