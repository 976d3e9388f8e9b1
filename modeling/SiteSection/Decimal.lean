/-! # Decimal text

  The shortest decimal that identifies a binary floating-point number, and its plain
  positional spelling.

  A number `m · 2 ^ q` owns an interval of reals that round to it. A power of ten spans a
  grid of decimals; the coarsest grid with a point in the interval gives the fewest digits,
  and of its points the nearest to the number is taken (the upper one of two equally near).
  If any point of a grid lies in the interval then so does one of the two neighbours of the
  number on that grid, so only these two are looked at. All arithmetic is exact.
-/

namespace SiteSection

/-- A type whose values are written in messages. -/
class Written (α : Type) where
  /-- The text of a value. -/
  written : α → String

export Written (written)

/-- The decimal `digits · 10 ^ exponent`. -/
structure Decimal where
  /-- The digits, read as one number. -/
  digits : Nat
  /-- The power of ten that they count. -/
  exponent : Int
  deriving DecidableEq, Repr, Inhabited

namespace Decimal

/-! ## Fewest digits -/

/-- A binary number `m · 2 ^ q` with what is needed to tell it from its neighbours. -/
structure Source where
  /-- The significand. -/
  m : Nat
  /-- The binary exponent. -/
  q : Int
  /-- The gap below the number is half as wide as the gap above it. -/
  narrowBelow : Bool

namespace Source

/-- The greater part of a quotient of powers: `b ^ e` if `e` is not negative, else `1`. -/
def upPower (b : Nat) (e : Int) : Nat := b.pow e.toNat

/-- `b ^ (-e)` if `e` is negative, else `1`. -/
def downPower (b : Nat) (e : Int) : Nat := b.pow (-e).toNat

/-- The point of the grid `10 ^ k` that identifies the number, if it has one. Quarters of
    `2 ^ q` are the unit of the number and of the two ends of its interval; the ends belong
    to the interval when the significand is even. -/
def gridPoint? (s : Source) (k : Int) : Option Nat :=
  let unit := upPower 2 (s.q - 2) * downPower 10 k
  let step := upPower 10 k * downPower 2 (s.q - 2)
  let mid := 4 * s.m * unit
  let lo := (4 * s.m - if s.narrowBelow then 1 else 2) * unit
  let hi := (4 * s.m + 2) * unit
  let owned := fun (x : Nat) =>
    if s.m % 2 = 0 then decide (lo ≤ x) && decide (x ≤ hi)
    else decide (lo < x) && decide (x < hi)
  let below := mid / step
  let above := below + 1
  match owned (below * step), owned (above * step) with
  | true, true => if mid - below * step < above * step - mid then some below else some above
  | true, false => some below
  | false, true => some above
  | false, false => none

/-- A power of ten above the number. -/
def topExponent (s : Source) : Int :=
  (((s.m.log2 + 1 : Nat) : Int) + s.q) * 30103 / 100000 + 1

/-- The first grid with a point for the number, from `10 ^ k` downwards. -/
def search (s : Source) : Nat → Int → Decimal
  | 0, _ => ⟨s.m, 0⟩
  | fuel + 1, k =>
    match s.gridPoint? k with
    | some d => ⟨d, k⟩
    | none => s.search fuel (k - 1)

/-- The decimal of fewest digits that identifies the number. Twenty grids from the top are
    enough: seventeen digits always identify a double. -/
def shortest (s : Source) : Decimal := s.search 24 s.topExponent

end Source

/-! ## Spelling -/

/-- The digits without an exponent, with a point where there is a fraction. -/
def positional (d : Decimal) : String :=
  let ds := toString d.digits
  if 0 ≤ d.exponent then ds ++ String.ofList (List.replicate d.exponent.toNat '0')
  else
    let places := (-d.exponent).toNat
    if places < ds.length then
      let whole := ds.length - places
      String.ofList (ds.toList.take whole) ++ "." ++ String.ofList (ds.toList.drop whole)
    else "0." ++ String.ofList (List.replicate (places - ds.length) '0') ++ ds

/-- The digits with a power of ten after them. -/
def scientific (d : Decimal) : String := toString d.digits ++ "e" ++ toString d.exponent

end Decimal

end SiteSection
