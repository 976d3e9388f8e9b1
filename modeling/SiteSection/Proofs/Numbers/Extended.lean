import SiteSection.Proofs.Numbers.ExactScalar
import SiteSection.Triangulation.Exact

/-! # Extended numbers

  Exact numbers with the values that machine numbers have besides: the two infinite ones and the
  undefined one. Sums, differences, products and quotients of numbers are not rounded, but for a
  division by zero; for the other values the usual rules of machine arithmetic hold. There is one
  zero.

  So elevations and heights can be left out or be infinite, while what is computed from numbers
  is exact.
-/

namespace SiteSection

/-- A number, or one of the values besides. -/
inductive Extended (K : Type) where
  /-- A number. -/
  | number (a : K)
  /-- Beyond all numbers; below them if `negative` is set. -/
  | infinite (negative : Bool)
  /-- The undefined value. -/
  | undefined

namespace Extended

section
variable {K : Type} [ExactScalar K]

/-! ## Arithmetic -/

/-- The opposite value. -/
protected def neg : Extended K → Extended K
  | number a => number (-a)
  | infinite n => infinite !n
  | undefined => undefined

/-- Infinite values of different signs have no sum. -/
protected def add : Extended K → Extended K → Extended K
  | number a, number b => number (a + b)
  | number _, infinite n | infinite n, number _ => infinite n
  | infinite m, infinite n => if m = n then infinite m else undefined
  | undefined, _ | _, undefined => undefined

/-- Zero and an infinite value have no product. -/
protected def mul : Extended K → Extended K → Extended K
  | number a, number b => number (a * b)
  | number a, infinite n | infinite n, number a =>
    if a = 0 then undefined else infinite (n ^^ decide (a < 0))
  | infinite m, infinite n => infinite (m ^^ n)
  | undefined, _ | _, undefined => undefined

/-- What is not zero is infinite over zero. -/
protected def div : Extended K → Extended K → Extended K
  | number a, number b =>
    if b = 0 then if a = 0 then undefined else infinite (decide (a < 0)) else number (a / b)
  | number _, infinite _ => number 0
  | infinite n, number b => infinite (n ^^ decide (b < 0))
  | infinite _, infinite _ => undefined
  | undefined, _ | _, undefined => undefined

/-- Values below zero have no root. -/
protected def sqrt : Extended K → Extended K
  | number a => if a < 0 then undefined else number (Scalar.sqrt a)
  | infinite false => infinite false
  | infinite true | undefined => undefined

/-! ## Order -/

/-- The numerical order, in which the undefined value has no place. -/
protected def below : Extended K → Extended K → Bool
  | undefined, _ | _, undefined | infinite false, _ | _, infinite true => false
  | number a, number b => decide (a < b)
  | infinite true, _ | _, infinite false => true

/-- The numerical order with equality. -/
protected def notAbove : Extended K → Extended K → Bool
  | undefined, _ | _, undefined => false
  | infinite true, _ | _, infinite false => true
  | number a, number b => decide (a ≤ b)
  | infinite false, number _ | _, infinite true => false

/-- Numerical equality. -/
protected def beq : Extended K → Extended K → Bool
  | number a, number b => a == b
  | infinite m, infinite n => m == n
  | _, _ => false

/-- The undefined value comes last. -/
protected def totalCmp : Extended K → Extended K → Ordering
  | number a, number b => Scalar.totalCmp a b
  | infinite m, infinite n => compare n m
  | undefined, undefined => .eq
  | undefined, _ | number _, infinite true | infinite false, number _ => .gt
  | _, undefined | number _, infinite false | infinite true, number _ => .lt

/-! ## Extended numbers as scalars -/

/-- The number that a value is. -/
def number? : Extended K → Option K
  | number a => some a
  | infinite _ | undefined => none

instance scalar : Scalar (Extended K) where
  zero := number 0
  one := number 1
  add := Extended.add
  sub x y := x.add y.neg
  mul := Extended.mul
  div := Extended.div
  neg := Extended.neg
  lt x y := x.below y = true
  le x y := x.notAbove y = true
  beq := Extended.beq
  ofNat n := number n
  decLt x y := inferInstanceAs (Decidable (x.below y = true))
  decLe x y := inferInstanceAs (Decidable (x.notAbove y = true))
  sqrt := Extended.sqrt
  nan := undefined
  isNaN
    | undefined => true
    | number _ | infinite _ => false
  isFinite x := x.number?.isSome
  totalCmp := Extended.totalCmp
  ceil
    | number a => Scalar.ceil a
    | infinite false => Scalar.greatestCount
    | infinite true | undefined => 0

variable {a b : K} {x y : Extended K}

@[simp] theorem number_neg (a : K) : -(number a : Extended K) = number (-a) := rfl
@[simp] theorem number_add (a b : K) : (number a + number b : Extended K) = number (a + b) := rfl
@[simp] theorem number_mul (a b : K) : (number a * number b : Extended K) = number (a * b) := rfl

@[simp] theorem number_sub (a b : K) : (number a - number b : Extended K) = number (a - b) :=
  congrArg number (sub_eq_add_neg a b).symm

theorem number_div (a : K) (h : b ≠ 0) : (number a / number b : Extended K) = number (a / b) :=
  if_neg h

@[simp] theorem infinite_neg (n : Bool) : -(infinite n : Extended K) = infinite !n := rfl

@[simp] theorem infinite_add_number (n : Bool) (a : K) :
    (infinite n + number a : Extended K) = infinite n := rfl

@[simp] theorem number_add_infinite (a : K) (n : Bool) :
    (number a + infinite n : Extended K) = infinite n := rfl

@[simp] theorem infinite_add_infinite (m n : Bool) :
    (infinite m + infinite n : Extended K) = if m = n then infinite m else undefined := rfl

/-- A difference is the sum with the opposite value. -/
theorem sub_eq_add (x y : Extended K) : x - y = x + -y := rfl

@[simp] theorem number_mul_infinite (a : K) (n : Bool) : (number a * infinite n : Extended K) =
    if a = 0 then undefined else infinite (n ^^ decide (a < 0)) := rfl

@[simp] theorem infinite_mul_number (n : Bool) (a : K) : (infinite n * number a : Extended K) =
    if a = 0 then undefined else infinite (n ^^ decide (a < 0)) := rfl

@[simp] theorem infinite_div_number (n : Bool) (a : K) :
    (infinite n / number a : Extended K) = infinite (n ^^ decide (a < 0)) := rfl

@[simp] theorem number_lt : (number a : Extended K) < number b ↔ a < b := decide_eq_true_iff
@[simp] theorem number_le : (number a : Extended K) ≤ number b ↔ a ≤ b := decide_eq_true_iff

theorem number_beq_zero (a : K) : (number a == (0 : Extended K)) = (a == 0) := rfl

@[simp] theorem isNaN_number (a : K) : Scalar.isNaN (number a : Extended K) = false := rfl
@[simp] theorem isNaN_infinite (n : Bool) : Scalar.isNaN (infinite n : Extended K) = false := rfl
@[simp] theorem isNaN_undefined : Scalar.isNaN (undefined : Extended K) = true := rfl
@[simp] theorem isFinite_number (a : K) : Scalar.isFinite (number a : Extended K) = true := rfl

theorem zero_eq : (0 : Extended K) = number 0 := rfl
theorem one_eq : (1 : Extended K) = number 1 := rfl
theorem ofNat_eq (n : Nat) : (Scalar.ofNat n : Extended K) = number (n : K) := rfl

/-- What is finite is a number. -/
theorem isFinite_iff : Scalar.isFinite x = true ↔ ∃ a, x = number a := by
  cases x with
  | number a => exact iff_of_true rfl ⟨a, rfl⟩
  | infinite n => exact iff_of_false Bool.false_ne_true (by simp)
  | undefined => exact iff_of_false Bool.false_ne_true (by simp)

theorem isNaN_iff : Scalar.isNaN x = true ↔ x = undefined := by
  cases x <;> simp

/-- All values but the undefined one equal themselves, and no others. -/
theorem beq_iff : (x == y) = true ↔ x = y ∧ x ≠ undefined := by
  have hbeq : (x == y) = x.beq y := rfl
  rw [hbeq]
  cases x <;> cases y <;> simp [Extended.beq]

/-- What is between numbers is a number. -/
theorem exists_eq_number (ha : number a ≤ x) (hb : x ≤ number b) :
    ∃ c, x = number c := by
  cases x with
  | number c => exact ⟨c, rfl⟩
  | infinite n =>
    cases n with
    | true => cases ha
    | false => cases hb
  | undefined => cases ha

theorem add_zero_eq_self (x : Extended K) : x + 0 = x := by
  cases x with
  | number a => rw [zero_eq, number_add, add_zero]
  | infinite n => rfl
  | undefined => rfl

theorem min_number (a b : K) :
    Scalar.min (number a : Extended K) (number b) = number (Scalar.min a b) := by
  simp only [Scalar.min, isNaN_number, number_lt, Scalar.isNaN_eq_false]
  split
  · rfl
  · split <;> rfl

theorem max_number (a b : K) :
    Scalar.max (number a : Extended K) (number b) = number (Scalar.max a b) := by
  simp only [Scalar.max, isNaN_number, number_lt, Scalar.isNaN_eq_false]
  split
  · rfl
  · split <;> rfl

theorem beq_zero_iff : (x == 0) = true ↔ x = 0 := by
  rw [beq_iff]
  refine and_iff_left_of_imp fun h => ?_
  simp [h, zero_eq]

theorem add_comm_eq (x y : Extended K) : x + y = y + x := by
  cases x with
  | number a =>
    cases y with
    | number b => rw [number_add, number_add, add_comm]
    | infinite | undefined => rfl
  | infinite m =>
    cases y with
    | number | undefined => rfl
    | infinite n => cases m <;> cases n <;> rfl
  | undefined => cases y <;> rfl

theorem floorZero_eq_max (x : Extended K) : Scalar.floorZero x = Scalar.max x 0 := by
  cases x with
  | number a =>
    have hfloor : Scalar.floorZero (number a) = number (Scalar.floorZero a) := by
      simp only [Scalar.floorZero, zero_eq, number_lt]
      split <;> rfl
    rw [hfloor, zero_eq, max_number, Scalar.floorZero_eq_max, Scalar.max_eq_max]
  | infinite n => cases n <;> rfl
  | undefined => rfl

/-- What is not below zero is found again from its sum with a number. -/
theorem max_add_sub (hx : ¬ x < 0) (hdefined : Scalar.isNaN x = false) (a : K) :
    Scalar.max (x + number a - number a) 0 = x := by
  cases x with
  | number b =>
    have hb : 0 ≤ b := by
      rw [zero_eq, number_lt] at hx
      exact not_lt.mp hx
    rw [number_add, number_sub, add_sub_cancel_right, zero_eq, max_number, Scalar.max_eq_max,
      max_eq_left hb]
  | infinite n =>
    cases n with
    | true => exact absurd rfl hx
    | false => rfl
  | undefined => cases hdefined

/-! ## Laws -/

/-- So values are alike if they are equal. -/
theorem alike_iff_eq : Scalar.Alike x y ↔ x = y := by
  rw [Scalar.Alike, beq_iff, isNaN_iff, isNaN_iff]
  constructor
  · rintro (⟨h, -⟩ | ⟨hx, hy⟩)
    · exact h
    · rw [hx, hy]
  · rintro rfl
    by_cases hx : x = undefined
    · exact .inr ⟨hx, hx⟩
    · exact .inl ⟨rfl, hx⟩

instance : LawfulScalar (Extended K) where
  symm := by
    intro x y h
    rw [beq_iff] at h ⊢
    exact ⟨h.1.symm, h.1 ▸ h.2⟩
  trans := by
    intro x y z h h'
    rw [beq_iff] at h h' ⊢
    exact ⟨h.1.trans h'.1, h.2⟩
  beq_self {x} h := by
    rw [beq_iff]
    refine ⟨rfl, fun hx => ?_⟩
    rw [hx] at h
    cases h
  isNaN_of_isFinite {x} h := by
    obtain ⟨a, rfl⟩ := isFinite_iff.mp h
    rfl
  add h h' := by
    rw [alike_iff_eq] at h h' ⊢
    rw [h, h']
  sub h h' := by
    rw [alike_iff_eq] at h h' ⊢
    rw [h, h']
  mul h h' := by
    rw [alike_iff_eq] at h h' ⊢
    rw [h, h']
  div b h := by
    rw [alike_iff_eq] at h ⊢
    rw [h]
  sqrt h := by
    rw [alike_iff_eq] at h ⊢
    rw [h]
  lt_iff h h' := by rw [alike_iff_eq.mp h, alike_iff_eq.mp h']
  le_iff h h' := by rw [alike_iff_eq.mp h, alike_iff_eq.mp h']

/-! ## Sums and means -/

theorem sum_number (as : List K) :
    Scalar.sum (as.map number : List (Extended K)) = number as.sum := by
  have hfrom : ∀ a : K, (as.map number).foldl (· + ·) (number a : Extended K) =
      number (a + as.sum) := by
    induction as with
    | nil => simp
    | cons b as ih =>
      intro a
      rw [List.map_cons, List.foldl_cons, number_add, ih, List.sum_cons, add_assoc]
  rw [Scalar.sum, zero_eq, number_neg, hfrom, neg_zero, zero_add]

/-- The mean of numbers is their exact mean. -/
theorem mean_number (as : List K) : Scalar.mean (as.map number : List (Extended K)) =
    number (if as = [] then 0 else as.sum / as.length) := by
  by_cases has : as = []
  · rw [if_pos has, has]
    rfl
  · have hlength : (as.length : K) ≠ 0 := by
      rw [Nat.cast_ne_zero, ne_eq, List.length_eq_zero_iff]
      exact has
    have hsome : ¬ (as.map number : List (Extended K)).isEmpty = true := by simpa using has
    rw [if_neg has, Scalar.mean, if_neg hsome, sum_number, List.length_map, ofNat_eq,
      number_div _ hlength]

/-! ## Exact values -/

/-- A finite value is exactly its number. -/
instance exact : Exact (Extended K) K := ⟨fun x => x.number?.getD 0⟩

end

/-! ## Circular functions -/

instance {K : Type} [ExactCircular K] : Circular (Extended K) where
  pi := number Circular.pi
  sin
    | number a => number (Circular.sin a)
    | infinite _ | undefined => undefined
  cos
    | number a => number (Circular.cos a)
    | infinite _ | undefined => undefined
  atan2
    | number a, number b => number (Circular.atan2 a b)
    | _, _ => undefined

end Extended

end SiteSection
