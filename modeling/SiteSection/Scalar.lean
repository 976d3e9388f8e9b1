/-! # Scalars

  The numbers that coordinates are made of. Every definition of the geometry is written
  once over the class `Scalar`; a machine number type is an instance, and so is an ordered
  field with a square root.

  The class separates three notions that coincide on a field but not on machine numbers:

  - `==` is numerical equality, under which an undefined number (`nan`) differs from itself;
  - `<` and `≤` are the numerical order, in which `nan` is unordered;
  - `totalCmp` is a total order on all values, used wherever something is sorted.

  `min`, `max` and `clampUnit` say what happens to `nan`: the first two take the other
  operand, the last keeps it.
-/

namespace SiteSection

/-- A number type to measure with. -/
class Scalar (α : Type) extends
    Zero α, One α, Add α, Sub α, Mul α, Div α, Neg α, LT α, LE α, BEq α where
  /-- The scalar nearest to a natural number. -/
  ofNat : Nat → α
  /-- The numerical order is decidable. -/
  decLt : DecidableLT α
  /-- The numerical order is decidable. -/
  decLe : DecidableLE α
  /-- The square root. -/
  sqrt : α → α
  /-- The undefined number. -/
  nan : α
  /-- Is the number undefined? -/
  isNaN : α → Bool
  /-- Is the number neither undefined nor infinite? -/
  isFinite : α → Bool
  /-- A total order that refines the numerical order. -/
  totalCmp : α → α → Ordering
  /-- The least natural number not below a number; `0` for an undefined one, and the
      greatest 64-bit count for one beyond it. -/
  ceil : α → Nat

namespace Scalar

/-- The greatest 64-bit count. -/
def greatestCount : Nat := Nat.pow 2 64 - 1

variable {α : Type} [Scalar α]

instance (a b : α) : Decidable (a < b) := decLt a b
instance (a b : α) : Decidable (a ≤ b) := decLe a b

/-- The number two. -/
def two : α := ofNat 2

/-- One half. -/
def half : α := 1 / ofNat 2

/-- `10 ^ (-n)`, rounded once. -/
def negPowTen (n : Nat) : α := 1 / ofNat (Nat.pow 10 n)

/-- The lesser of two numbers; an undefined operand is passed over. -/
def min (a b : α) : α :=
  if isNaN a then b else if b < a then b else a

/-- The greater of two numbers; an undefined operand is passed over. -/
def max (a b : α) : α :=
  if isNaN a then b else if a < b then b else a

/-- The number, or zero if it is not positive. -/
def floorZero (a : α) : α := if 0 < a then a else 0

/-- The number, or one if it is not below one. -/
def capOne (a : α) : α := if a < 1 then a else 1

/-- The number moved into `[0, 1]`; an undefined one stays as it is. -/
def clampUnit (a : α) : α := if a < 0 then 0 else if 1 < a then 1 else a

/-- Does the number lie in `[0, 1]`? -/
def inUnit (a : α) : Bool := decide (0 ≤ a) && decide (a ≤ 1)

/-- Left-to-right sum. It starts from negative zero, the neutral element of machine
    addition, so that summing one number gives that number back. -/
def sum (as : List α) : α := as.foldl (· + ·) (-0)

/-- The mean of a list, zero for an empty one. -/
def mean (as : List α) : α :=
  if as.isEmpty then 0 else sum as / ofNat as.length

@[simp] theorem sum_nil : sum ([] : List α) = -0 := rfl

@[simp] theorem mean_nil : mean ([] : List α) = 0 := rfl

end Scalar

/-! ## Choosing by an order -/

/-- The least element under a comparison; the first of several equal ones. -/
def leastBy? {ι : Type} (cmp : ι → ι → Ordering) : List ι → Option ι
  | [] => none
  | i :: rest => some (rest.foldl (fun best j => if cmp best j == .gt then j else best) i)

@[simp] theorem leastBy?_nil {ι : Type} (cmp : ι → ι → Ordering) :
    leastBy? cmp [] = none := rfl

@[simp] theorem leastBy?_singleton {ι : Type} (cmp : ι → ι → Ordering) (i : ι) :
    leastBy? cmp [i] = some i := rfl

end SiteSection
