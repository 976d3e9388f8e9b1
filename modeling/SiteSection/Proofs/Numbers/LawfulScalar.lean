import SiteSection.Angle
import SiteSection.Segment

/-! # Lawful scalars

  What machine numbers and exact numbers have in common. Numbers that are numerically equal
  need not be the same number, since machine numbers have a zero of either sign. The laws say
  that arithmetic and order cannot tell such numbers apart. Division is excepted on the right,
  where the sign of a zero shows.
-/

namespace SiteSection

/-- Two numbers are alike if they are numerically equal, or both undefined. -/
def Scalar.Alike {α : Type} [Scalar α] (a b : α) : Prop :=
  (a == b) = true ∨ (Scalar.isNaN a = true ∧ Scalar.isNaN b = true)

/-- A scalar type whose operations respect numerical equality. -/
class LawfulScalar (α : Type) [Scalar α] : Prop extends PartialEquivBEq α where
  /-- A number that is defined equals itself. -/
  beq_self {a : α} : Scalar.isNaN a = false → (a == a) = true
  /-- Finite numbers are defined. -/
  isNaN_of_isFinite {a : α} : Scalar.isFinite a = true → Scalar.isNaN a = false
  /-- Sums of like numbers are alike. -/
  add {a a' b b' : α} : Scalar.Alike a a' → Scalar.Alike b b' → Scalar.Alike (a + b) (a' + b')
  /-- Differences of like numbers are alike. -/
  sub {a a' b b' : α} : Scalar.Alike a a' → Scalar.Alike b b' → Scalar.Alike (a - b) (a' - b')
  /-- Products of like numbers are alike. -/
  mul {a a' b b' : α} : Scalar.Alike a a' → Scalar.Alike b b' → Scalar.Alike (a * b) (a' * b')
  /-- Quotients of like numbers by one number are alike. -/
  div {a a' : α} (b : α) : Scalar.Alike a a' → Scalar.Alike (a / b) (a' / b)
  /-- Roots of like numbers are alike. -/
  sqrt {a a' : α} : Scalar.Alike a a' → Scalar.Alike (Scalar.sqrt a) (Scalar.sqrt a')
  /-- Like numbers have the same place in the order. -/
  lt_iff {a a' b b' : α} : Scalar.Alike a a' → Scalar.Alike b b' → (a < b ↔ a' < b')
  /-- Like numbers have the same place in the order. -/
  le_iff {a a' b b' : α} : Scalar.Alike a a' → Scalar.Alike b b' → (a ≤ b ↔ a' ≤ b')

variable {α : Type} [Scalar α]

/-! ## Numerical equality of locations -/

theorem Point2.beq_eq {α : Type} [BEq α] (p q : Point2 α) :
    (p == q) = (p.x == q.x && p.y == q.y) := rfl

instance {α : Type} [BEq α] [PartialEquivBEq α] : PartialEquivBEq (Point2 α) where
  symm := by
    intro p q h
    simp only [Point2.beq_eq, Bool.and_eq_true] at h ⊢
    exact ⟨BEq.symm h.1, BEq.symm h.2⟩
  trans := by
    intro p q r h h'
    simp only [Point2.beq_eq, Bool.and_eq_true] at h h' ⊢
    exact ⟨BEq.trans h.1 h'.1, BEq.trans h.2 h'.2⟩

/-- Two plan locations are alike if their coordinates are. -/
def Point2.Alike (p q : Point2 α) : Prop := Scalar.Alike p.x q.x ∧ Scalar.Alike p.y q.y

theorem Point2.alike_of_beq {p q : Point2 α} (h : (p == q) = true) : p.Alike q := by
  rw [Point2.beq_eq, Bool.and_eq_true] at h
  exact ⟨.inl h.1, .inl h.2⟩

variable [LawfulScalar α]

/-- A location that is defined equals itself. -/
theorem Point2.beq_self {p : Point2 α} (h : Coordinates.hasNaN p = false) : (p == p) = true := by
  have hxy : Scalar.isNaN p.x = false ∧ Scalar.isNaN p.y = false := by
    simpa [Coordinates.hasNaN, Coordinates.toList] using h
  rw [Point2.beq_eq, LawfulScalar.beq_self hxy.1, LawfulScalar.beq_self hxy.2, Bool.and_self]

namespace Scalar.Alike

theorem refl (a : α) : Alike a a := by
  cases h : isNaN a with
  | true => exact .inr ⟨h, h⟩
  | false => exact .inl (LawfulScalar.beq_self h)

theorem clampUnit {a b : α} (h : Alike a b) : Alike (Scalar.clampUnit a) (Scalar.clampUnit b) := by
  have hlow : a < 0 ↔ b < 0 := LawfulScalar.lt_iff h (refl 0)
  have hhigh : 1 < a ↔ 1 < b := LawfulScalar.lt_iff (refl 1) h
  simp only [Scalar.clampUnit, hlow, hhigh]
  split
  · exact refl 0
  · split
    · exact refl 1
    · exact h

end Scalar.Alike

/-! ## Plan locations -/

namespace Point2.Alike

variable {p p' q q' : Point2 α}

theorem refl (p : Point2 α) : p.Alike p := ⟨.refl p.x, .refl p.y⟩

theorem add (h : p.Alike p') (h' : q.Alike q') : (p + q).Alike (p' + q') :=
  ⟨LawfulScalar.add h.1 h'.1, LawfulScalar.add h.2 h'.2⟩

theorem sub (h : p.Alike p') (h' : q.Alike q') : (p - q).Alike (p' - q') :=
  ⟨LawfulScalar.sub h.1 h'.1, LawfulScalar.sub h.2 h'.2⟩

theorem cross (h : p.Alike p') (h' : q.Alike q') : Scalar.Alike (p.cross q) (p'.cross q') :=
  LawfulScalar.sub (LawfulScalar.mul h.1 h'.2) (LawfulScalar.mul h.2 h'.1)

theorem norm (h : p.Alike p') : Scalar.Alike (Coordinates.norm p) (Coordinates.norm p') :=
  LawfulScalar.sqrt (LawfulScalar.add
    (LawfulScalar.add (.refl (-0)) (LawfulScalar.mul h.1 h.1)) (LawfulScalar.mul h.2 h.2))

end Point2.Alike

/-! ## Distances to a segment -/

namespace Segment

variable (s : Segment α) {p q : Point2 α}

theorem project_alike (h : p.Alike q) : Scalar.Alike (s.project p) (s.project q) := by
  simp only [project]
  split
  · exact .refl 0
  · have hsub := h.sub (.refl s.p0.plan)
    exact LawfulScalar.div _ (LawfulScalar.add (LawfulScalar.mul hsub.1 (.refl s.dir.x))
      (LawfulScalar.mul hsub.2 (.refl s.dir.y)))

theorem nearest_alike (h : p.Alike q) : (s.nearest p).plan.Alike (s.nearest q).plan := by
  have ht := (s.project_alike h).clampUnit
  exact ⟨LawfulScalar.add (.refl _) (LawfulScalar.mul (.refl _) ht),
    LawfulScalar.add (.refl _) (LawfulScalar.mul (.refl _) ht)⟩

theorem distTo_alike (h : p.Alike q) : Scalar.Alike (s.distTo p) (s.distTo q) :=
  ((s.nearest_alike h).sub h).norm

end Segment

end SiteSection
