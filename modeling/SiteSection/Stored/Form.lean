import SiteSection.Stored.Tree

/-! # Forms

  How the values of a type are stored: a way to write every value as a tree, and a way to read
  trees back that refuses what is no such value. Forms are built from the forms of the parts.

  What is read need not look as it would be written: whole numbers may stand for scalars, and
  fields may be absent. What is written reads back as the same value, provided that its scalars
  are finite and its counts in range; an undefined or infinite scalar has no stored form and is
  written as nothing at all.
-/

namespace SiteSection

/-- The stored form of a type. -/
structure Form (α τ : Type) where
  /-- The tree of a value. -/
  write : τ → Tree α
  /-- The value of a tree, if it is one. -/
  read? : Tree α → Option τ

namespace Form

variable {α σ τ : Type}

/-- What a tree becomes when it is read and written again. -/
def normalise? (f : Form α τ) (t : Tree α) : Option (Tree α) := (f.read? t).map f.write

/-- The form of a type whose values correspond to those of another. -/
def map (f : Form α σ) (toValue : σ → τ) (ofValue : τ → σ) : Form α τ where
  write v := f.write (ofValue v)
  read? t := (f.read? t).map toValue

/-! ## Plain values -/

/-- Truth values. -/
def bool : Form α Bool where
  write := .bool
  read?
    | .bool b => some b
    | _ => none

/-- Counts below a limit. -/
def below (limit : Nat) : Form α Nat where
  write n := .whole n
  read?
    | .whole n => if 0 ≤ n ∧ n < limit then some n.toNat else none
    | _ => none

/-- Counts of sixty-four bits. -/
def count : Form α Nat := below (Nat.pow 2 64)

/-- Counts of thirty-two bits. -/
def shortCount : Form α Nat := below (Nat.pow 2 32)

/-- Signed numbers of sixty-four bits. -/
def signed : Form α Int where
  write := .whole
  read?
    | .whole n => if -Nat.pow 2 63 ≤ n ∧ n < Nat.pow 2 63 then some n else none
    | _ => none

/-- Finite scalars. -/
def scalar [Scalar α] : Form α α where
  write x := if Scalar.isFinite x then .real x else .null
  read? t :=
    let x? := match t with
      | .real x => some x
      | .whole n => some (Tree.ofInt n)
      | _ => none
    x?.filter Scalar.isFinite

/-- One of some names. A name alone may also be written as an entry that holds nothing. -/
def oneOf (names : τ → String) (values : List τ) : Form α τ where
  write v := .text (names v)
  read?
    | .text s => values.find? fun v => names v == s
    | .record [(s, .null)] => values.find? fun v => names v == s
    | _ => none

/-! ## Lists and options -/

/-- Lists of any length. -/
def list (f : Form α τ) : Form α (List τ) where
  write vs := .list (vs.map f.write)
  read?
    | .list ts => ts.mapM f.read?
    | _ => none

/-- Lists of two. -/
def pair (f : Form α τ) : Form α (τ × τ) where
  write v := .list [f.write v.1, f.write v.2]
  read?
    | .list [a, b] => do return (← f.read? a, ← f.read? b)
    | _ => none

/-- Lists of three. -/
def triple (f : Form α τ) : Form α (τ × τ × τ) where
  write v := .list [f.write v.1, f.write v.2.1, f.write v.2.2]
  read?
    | .list [a, b, c] => do return (← f.read? a, ← f.read? b, ← f.read? c)
    | _ => none

/-- A value or nothing. -/
def option (f : Form α τ) : Form α (Option τ) where
  write
    | none => .null
    | some v => f.write v
  read?
    | .null => some none
    | t => (f.read? t).map some

/-! ## Writing, then reading -/

@[simp] theorem read?_write_bool (b : Bool) : (bool : Form α Bool).read? (bool.write b) = some b :=
  rfl

/-- A count in range reads back. -/
theorem read?_write_below {limit n : Nat} (h : n < limit) :
    (below limit : Form α Nat).read? ((below limit).write n) = some n := by
  have hn : 0 ≤ (n : Int) ∧ (n : Int) < limit := by omega
  simp only [below, if_pos hn, Int.toNat_natCast]

/-- A signed number in range reads back. -/
theorem read?_write_signed {n : Int} (h : -Nat.pow 2 63 ≤ n ∧ n < Nat.pow 2 63) :
    (signed : Form α Int).read? (signed.write n) = some n := by
  simp only [signed, if_pos h]

/-- A finite scalar reads back. -/
theorem read?_write_scalar [Scalar α] {x : α} (h : Scalar.isFinite x = true) :
    (scalar : Form α α).read? (scalar.write x) = some x := by
  simp [scalar, h]

/-- A list reads back if its members do. -/
theorem read?_write_list (f : Form α τ) {vs : List τ}
    (h : ∀ v ∈ vs, f.read? (f.write v) = some v) : f.list.read? (f.list.write vs) = some vs := by
  show (vs.map f.write).mapM f.read? = some vs
  induction vs with
  | nil => rfl
  | cons v vs ih =>
    have hv := h v List.mem_cons_self
    have hvs := ih fun u hu => h u (List.mem_cons_of_mem v hu)
    rw [List.map_cons, List.mapM_cons, hv, hvs]
    rfl

end Form

end SiteSection
