import SiteSection.Angle
import SiteSection.Decimal

/-! # Doubles

  Double-precision numbers as scalars. Arithmetic and the numerical order are the machine's;
  the total order, the exact value and the text are read off the bits.
-/

namespace SiteSection

namespace Double

/-! ## Bits -/

/-- A finite double, taken apart: `± m · 2 ^ q`. -/
structure Parts where
  /-- The sign bit. -/
  negative : Bool
  /-- The significand. -/
  m : Nat
  /-- The binary exponent. -/
  q : Int
  deriving DecidableEq, Repr

/-- The exponent field of a double. -/
def exponentField (bits : Nat) : Nat := bits / Nat.pow 2 52 % Nat.pow 2 11

/-- The fraction field of a double. -/
def fractionField (bits : Nat) : Nat := bits % Nat.pow 2 52

/-- The parts of a finite double, by its bits. -/
def partsOfBits (bits : Nat) : Parts :=
  let e := exponentField bits
  let f := fractionField bits
  { negative := bits / Nat.pow 2 63 == 1
    m := if e = 0 then f else Nat.pow 2 52 + f
    q := (if e = 0 then 1 else e : Nat) - 1075 }

/-- The parts of a finite double. -/
def parts (x : Float) : Parts := partsOfBits x.toBits.toNat

/-- A number that grows with the total order: negative doubles count down from minus one,
    the others up from zero. -/
def totalKey (bits : Nat) : Int :=
  if bits < Nat.pow 2 63 then bits else -(bits - Nat.pow 2 63 : Nat) - 1

/-- The total order on doubles. -/
def totalCmp (x y : Float) : Ordering :=
  compare (totalKey x.toBits.toNat) (totalKey y.toBits.toNat)

/-- The least natural number not below a finite double. -/
def Parts.ceil (p : Parts) : Nat :=
  if p.negative then 0
  else match p.q with
    | .ofNat n => p.m * Nat.pow 2 n
    | .negSucc n => (p.m + Nat.pow 2 (n + 1) - 1) / Nat.pow 2 (n + 1)

/-- The least natural number not below `x`, at most the greatest count; zero if `x` is
    undefined. -/
def ceilNat (x : Float) : Nat :=
  if x.isNaN then 0
  else if x.isInf then if 0 < x then Scalar.greatestCount else 0
  else Nat.min (parts x).ceil Scalar.greatestCount

/-! ## Text -/

/-- The shortest decimal that reads back as the magnitude of a finite double. -/
def shortest (x : Float) : Decimal :=
  let p := parts x
  if p.m = 0 then ⟨0, 0⟩
  else
    Decimal.Source.shortest
      { m := p.m, q := p.q, narrowBelow := p.m == Nat.pow 2 52 && decide (-1074 < p.q) }

/-- The text of a double: shortest digits without an exponent, and a sign also on zero. -/
def text (x : Float) : String :=
  if x.isNaN then "NaN"
  else
    let sign := if (parts x).negative then "-" else ""
    if x.isInf then sign ++ "inf" else sign ++ (shortest x).positional

end Double

/-! ## Instances -/

instance : Scalar Float where
  ofNat := Float.ofNat
  decLt := fun a b => inferInstanceAs (Decidable (a < b))
  decLe := fun a b => inferInstanceAs (Decidable (a ≤ b))
  sqrt := Float.sqrt
  nan := 0 / 0
  isNaN := Float.isNaN
  isFinite := Float.isFinite
  totalCmp := Double.totalCmp
  ceil := Double.ceilNat

instance : Circular Float where
  pi := 3.141592653589793
  sin := Float.sin
  cos := Float.cos
  atan2 := Float.atan2

instance : Written Float := ⟨Double.text⟩

end SiteSection
