import Mathlib.Algebra.Order.Ring.Defs
import Mathlib.Analysis.SpecialFunctions.Complex.Arg
import Mathlib.Tactic.Linarith
import SiteSection.Angle
import SiteSection.Proofs.Numbers.LawfulScalar

/-! # Exact scalars

  Scalars without rounding: an ordered field whose square root is one, in which every number
  is defined. Statements in exact arithmetic are over `ExactScalar`, and the real numbers are
  an instance.

  Elevations may be undefined even where all plan coordinates are numbers, and nothing in the
  plan depends on them. So nothing is said of which number `nan` is, and `isFinite` is only
  told to accept counts.
-/

namespace SiteSection

/-- A scalar type of exact numbers. -/
class ExactScalar (K : Type) extends
    Scalar K, Field K, LinearOrder K, IsStrictOrderedRing K where
  /-- Numerical equality is equality. -/
  beq_iff_eq : ∀ a b : K, (a == b) = true ↔ a = b
  /-- Every number is defined. -/
  isNaN_eq_false : ∀ a : K, isNaN a = false
  /-- Counts are finite. -/
  isFinite_ofNat : ∀ n : Nat, isFinite (ofNat n) = true
  /-- Counts are not rounded. -/
  ofNat_eq : ∀ n : Nat, ofNat n = (n : K)
  /-- The total order is the order of the field. -/
  totalCmp_eq : ∀ a b : K, totalCmp a b = compare a b
  /-- A square root is not negative. -/
  sqrt_nonneg : ∀ a : K, 0 ≤ sqrt a
  /-- A square root is one. -/
  sqrt_mul_self : ∀ a : K, 0 ≤ a → sqrt a * sqrt a = a
  /-- A number that can be counted is rounded upwards. -/
  le_ceil : ∀ a : K, a ≤ Scalar.greatestCount → a ≤ (ceil a : Nat)
  /-- A number is rounded to the next natural number at most. -/
  ceil_lt : ∀ a : K, 0 ≤ a → ((ceil a : Nat) : K) < a + 1
  /-- Of a number that cannot be counted, there is the greatest count. -/
  ceil_of_lt : ∀ a : K, Scalar.greatestCount < a → ceil a = Scalar.greatestCount

/-- Exact scalars with circular functions, of which nothing is said. -/
class ExactCircular (K : Type) extends ExactScalar K, Circular K

namespace Scalar

variable {K : Type} [ExactScalar K]

instance : LawfulBEq K where
  eq_of_beq := fun h => (ExactScalar.beq_iff_eq _ _).mp h
  rfl := (ExactScalar.beq_iff_eq _ _).mpr rfl

@[simp] theorem isNaN_eq_false (a : K) : Scalar.isNaN a = false := ExactScalar.isNaN_eq_false a

@[simp] theorem ofNat_eq_cast (n : Nat) : (Scalar.ofNat n : K) = n := ExactScalar.ofNat_eq n

/-- Exact numbers are alike if they are equal. -/
theorem alike_iff_eq {a b : K} : Alike a b ↔ a = b := by simp [Alike]

/-- So exact scalars are lawful. -/
instance : LawfulScalar K where
  beq_self _ := beq_self_eq_true _
  isNaN_of_isFinite _ := isNaN_eq_false _
  add h h' := by
    rw [alike_iff_eq] at h h' ⊢
    rw [h, h']
  sub h h' := by
    rw [alike_iff_eq] at h h' ⊢
    rw [h, h']
  mul h h' := by
    rw [alike_iff_eq] at h h' ⊢
    rw [h, h']
  div b h := by
    rw [alike_iff_eq] at h ⊢
    rw [h]
  sqrt h := by
    rw [alike_iff_eq] at h ⊢
    rw [h]
  lt_iff h h' := by rw [alike_iff_eq.mp h, alike_iff_eq.mp h']
  le_iff h h' := by rw [alike_iff_eq.mp h, alike_iff_eq.mp h']

/-! ## Order -/

@[simp] theorem min_eq_min (a b : K) : Scalar.min a b = Min.min a b := by
  simp only [Scalar.min, isNaN_eq_false, Bool.false_eq_true, if_false]
  split
  · next h => exact (min_eq_right h.le).symm
  · next h => exact (min_eq_left (not_lt.mp h)).symm

@[simp] theorem max_eq_max (a b : K) : Scalar.max a b = Max.max a b := by
  simp only [Scalar.max, isNaN_eq_false, Bool.false_eq_true, if_false]
  split
  · next h => exact (max_eq_right h.le).symm
  · next h => exact (max_eq_left (not_lt.mp h)).symm

theorem floorZero_eq_max (a : K) : floorZero a = Max.max a 0 := by
  unfold floorZero
  split
  · next h => exact (max_eq_left h.le).symm
  · next h => exact (max_eq_right (not_lt.mp h)).symm

theorem capOne_eq_min (a : K) : capOne a = Min.min a 1 := by
  unfold capOne
  split
  · next h => exact (min_eq_left h.le).symm
  · next h => exact (min_eq_right (not_lt.mp h)).symm

theorem inUnit_iff {a : K} : inUnit a = true ↔ 0 ≤ a ∧ a ≤ 1 := by
  simp [inUnit]

theorem clampUnit_mem (a : K) : 0 ≤ clampUnit a ∧ clampUnit a ≤ 1 := by
  unfold clampUnit
  split
  · exact ⟨le_refl 0, zero_le_one⟩
  · next h =>
    split
    · exact ⟨zero_le_one, le_refl 1⟩
    · next h' => exact ⟨not_lt.mp h, not_lt.mp h'⟩

theorem clampUnit_of_mem {a : K} (h : 0 ≤ a) (h' : a ≤ 1) : clampUnit a = a := by
  simp [clampUnit, not_lt.mpr h, not_lt.mpr h']

/-- The clamped number is nearest among those of `[0, 1]`. -/
theorem sub_clampUnit_mul_nonneg {t c : K} (h : 0 ≤ t) (h' : t ≤ 1) :
    0 ≤ (t - clampUnit c) * (t + clampUnit c - 2 * c) := by
  unfold clampUnit
  split
  · next hc => exact mul_nonneg (by linarith) (by linarith)
  · split
    · next hc => exact mul_nonneg_of_nonpos_of_nonpos (by linarith) (by linarith)
    · have heq : t + c - 2 * c = t - c := by ring
      rw [heq]
      exact mul_self_nonneg _

theorem isLE_totalCmp {a b : K} : (totalCmp a b).isLE = true ↔ a ≤ b := by
  rw [ExactScalar.totalCmp_eq, Ordering.isLE_iff_ne_gt]
  exact compare_le_iff_le

instance : Std.TransCmp (totalCmp : K → K → Ordering) where
  eq_swap := by
    intro a b
    rw [ExactScalar.totalCmp_eq, ExactScalar.totalCmp_eq]
    exact Std.OrientedCmp.eq_swap
  isLE_trans := by
    intro a b c hab hbc
    exact isLE_totalCmp.mpr (le_trans (isLE_totalCmp.mp hab) (isLE_totalCmp.mp hbc))

/-! ## Counts -/

/-- The count of a number is the least natural number not below it, if the number can be
    counted. -/
theorem ceil_le_iff {a : K} (h : 0 ≤ a) {n : Nat} (hn : a ≤ greatestCount ∨ n < greatestCount) :
    ceil a ≤ n ↔ a ≤ n := by
  constructor
  · intro hle
    have hcounted : a ≤ greatestCount := by
      rcases hn with hn | hn
      · exact hn
      · -- The greatest count would not be above `n`.
        by_contra hlt
        rw [ExactScalar.ceil_of_lt a (not_le.mp hlt)] at hle
        exact absurd hle hn.not_ge
    exact (ExactScalar.le_ceil a hcounted).trans (Nat.cast_le.mpr hle)
  · intro hle
    have hlt := (ExactScalar.ceil_lt a h).trans_le (add_le_add_left hle 1)
    exact Nat.lt_succ_iff.mp (Nat.cast_lt.mp (hlt.trans_eq (Nat.cast_succ n).symm))

/-! ## Fractions and roots -/

theorem negPowTen_pos (n : Nat) : (0 : K) < negPowTen n := by
  have h : (0 : K) < ((10 ^ n : Nat) : K) := Nat.cast_pos.mpr (Nat.pow_pos (by decide))
  rw [negPowTen, ofNat_eq_cast]
  exact div_pos one_pos h

theorem sqrt_eq_zero {a : K} (h : 0 ≤ a) : Scalar.sqrt a = 0 ↔ a = 0 := by
  constructor
  · intro h0
    rw [← ExactScalar.sqrt_mul_self a h, h0, mul_zero]
  · intro h0
    exact mul_self_eq_zero.mp (h0 ▸ ExactScalar.sqrt_mul_self a h)

end Scalar

/-! ## Literals

  A literal of a field carries a proof that it is at least two. Named once, the proof is not
  made anew by every definition with the literal. -/

instance atLeastTwo_two : Nat.AtLeastTwo 2 := ⟨le_rfl⟩
instance atLeastTwo_three : Nat.AtLeastTwo 3 := ⟨by decide⟩
instance atLeastTwo_four : Nat.AtLeastTwo 4 := ⟨by decide⟩
instance atLeastTwo_five : Nat.AtLeastTwo 5 := ⟨by decide⟩
instance atLeastTwo_ten : Nat.AtLeastTwo 10 := ⟨by decide⟩
instance atLeastTwo_fifteen : Nat.AtLeastTwo 15 := ⟨by decide⟩

/-! ## The real numbers -/

/-- The real numbers are exact scalars with circular functions. The undefined number is
    represented by zero. -/
noncomputable instance : ExactCircular ℝ where
  __ := (inferInstance : Field ℝ)
  __ := (inferInstance : LinearOrder ℝ)
  __ := (inferInstance : IsStrictOrderedRing ℝ)
  beq a b := decide (a = b)
  ofNat n := n
  decLt := inferInstance
  decLe := inferInstance
  sqrt := Real.sqrt
  nan := 0
  isNaN _ := false
  isFinite _ := true
  totalCmp := compare
  ceil a := min ⌈a⌉₊ Scalar.greatestCount
  pi := Real.pi
  sin := Real.sin
  cos := Real.cos
  atan2 y x := Complex.arg ⟨x, y⟩
  beq_iff_eq a b := by simp
  isNaN_eq_false _ := rfl
  isFinite_ofNat _ := rfl
  ofNat_eq _ := rfl
  totalCmp_eq _ _ := rfl
  sqrt_nonneg := Real.sqrt_nonneg
  sqrt_mul_self _ h := Real.mul_self_sqrt h
  le_ceil a h := by
    rw [Nat.cast_min]
    exact le_min (Nat.le_ceil a) h
  ceil_lt a h := (Nat.cast_le.mpr (min_le_left _ _)).trans_lt (Nat.ceil_lt_add_one h)
  ceil_of_lt a h := min_eq_right (Nat.lt_ceil.mpr h).le

end SiteSection
