import SiteSection.Scalar

/-! # Trees

  The plain data that values are stored as. Whole numbers are kept apart from the others: a
  count can be told from a measure, and counts of any size are exact.
-/

namespace SiteSection

/-- Plain data over scalars `α`. -/
inductive Tree (α : Type) where
  /-- Nothing. -/
  | null
  /-- A truth value. -/
  | bool (b : Bool)
  /-- A whole number. -/
  | whole (n : Int)
  /-- A number with a fraction or an exponent. -/
  | real (x : α)
  /-- A text. -/
  | text (s : String)
  /-- A list. -/
  | list (items : List (Tree α))
  /-- Named entries. -/
  | record (entries : List (String × Tree α))
  deriving Inhabited

namespace Tree

variable {α : Type}

/-- The entry of a name; the first of several. -/
def entry? (name : String) (entries : List (String × Tree α)) : Option (Tree α) :=
  entries.lookup name

/-- The scalar nearest to a whole number. -/
def ofInt [Scalar α] (n : Int) : α :=
  if n < 0 then -(Scalar.ofNat n.natAbs) else Scalar.ofNat n.toNat

end Tree

end SiteSection
