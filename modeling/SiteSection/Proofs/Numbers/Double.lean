import Mathlib
import SiteSection.Double
import SiteSection.Proofs.Numbers.LawfulScalar

/-! # Laws of doubles

  Doubles are lawful scalars. The operations compute with the parts of doubles and round; none
  of them but division by zero looks at the sign of a zero, unless it is for the sign of a
  zero again. So two doubles are alike exactly if their parts are equal up to such a sign.
-/

namespace SiteSection

namespace Double

open Float.Model Float.Model.UnpackedFloat

/-! ## Parts without the sign of a zero -/

/-- The parts of a double, a zero without its sign. -/
def unsigned : UnpackedFloat → UnpackedFloat
  | .zero _ => .zero .positive
  | u => u

theorem unsigned_pack (u : UnpackedFloat) :
    unsigned (Float.Model.pack u).unpack = unsigned (Float.Model.pack (unsigned u)).unpack := by
  rcases u with _ | _ | s | _
  · rfl
  · rfl
  · cases s <;> rfl
  · rfl

section
variable (u v : UnpackedFloat)

theorem unsigned_add (f : Format) :
    unsigned (add f u v) = unsigned (add f (unsigned u) (unsigned v)) := by
  -- Only two zeros are left: their sum is a zero, of one sign or the other.
  rcases u with _ | _ | s | _ <;> rcases v with _ | _ | t | _ <;> try rfl
  cases s <;> cases t <;> rfl

theorem unsigned_sub (f : Format) :
    unsigned (sub f u v) = unsigned (sub f (unsigned u) (unsigned v)) := by
  rcases u with _ | _ | s | _ <;> rcases v with _ | _ | t | _ <;> try rfl
  cases s <;> cases t <;> rfl

theorem unsigned_mul (f : Format) :
    unsigned (mul f u v) = unsigned (mul f (unsigned u) (unsigned v)) := by
  rcases u with _ | _ | _ | _ <;> rcases v with _ | _ | _ | _ <;> rfl

theorem unsigned_div (f : Format) : unsigned (div f u v) = unsigned (div f (unsigned u) v) := by
  rcases u with _ | _ | _ | _ <;> rcases v with _ | _ | _ | _ <;> rfl

theorem unsigned_sqrt (f : Format) : unsigned (sqrt f u) = unsigned (sqrt f (unsigned u)) := by
  rcases u with _ | _ | _ | _ <;> rfl

theorem compare_unsigned :
    UnpackedFloat.compare u v = UnpackedFloat.compare (unsigned u) (unsigned v) := by
  rcases u with (_ | _) | _ | _ | ⟨_ | _, _, _, _⟩ <;>
    rcases v with (_ | _) | _ | _ | ⟨_ | _, _, _, _⟩ <;> rfl

theorem beq_iff : u.beq v = true ↔ u ≠ .notANumber ∧ unsigned u = unsigned v := by
  rw [beq_iff_ne_notANumber_and_eq]
  rcases u with _ | _ | s | _ <;> rcases v with _ | _ | t | _ <;> simp [unsigned]
  cases s <;> cases t <;> simp

end

/-! ## What a double says numerically -/

/-- The parts of a double as far as numerical equality can tell. -/
def value (x : Float) : UnpackedFloat := unsigned x.toModel.unpack

/-- The numerical parts of a result that is rounded already. -/
def valueOf (u : UnpackedFloat) : UnpackedFloat :=
  unsigned (Float.Model.pack (unsigned u)).unpack

section
variable (x y : Float)

theorem value_add : value (x + y) = valueOf (add .binary64 (value x) (value y)) := by
  simp only [valueOf, value]
  rw [← unsigned_add, ← unsigned_pack]
  rfl

theorem value_sub : value (x - y) = valueOf (sub .binary64 (value x) (value y)) := by
  simp only [valueOf, value]
  rw [← unsigned_sub, ← unsigned_pack]
  rfl

theorem value_mul : value (x * y) = valueOf (mul .binary64 (value x) (value y)) := by
  simp only [valueOf, value]
  rw [← unsigned_mul, ← unsigned_pack]
  rfl

theorem value_div : value (x / y) = valueOf (div .binary64 (value x) y.toModel.unpack) := by
  simp only [valueOf, value]
  rw [← unsigned_div, ← unsigned_pack]
  rfl

theorem value_sqrt : value x.sqrt = valueOf (sqrt .binary64 (value x)) := by
  simp only [valueOf, value]
  rw [← unsigned_sqrt, ← unsigned_pack]
  rfl

theorem lt_iff_value : x < y ↔ (value x).lt (value y) = true := by
  rw [UnpackedFloat.lt, value, value, ← compare_unsigned]
  exact decide_eq_true_iff

theorem le_iff_value : x ≤ y ↔ (value x).le (value y) = true := by
  rw [UnpackedFloat.le, value, value, ← compare_unsigned]
  exact decide_eq_true_iff

theorem isNaN_iff_value : x.isNaN = true ↔ value x = .notANumber := by
  have h : x.isNaN = x.toModel.unpack.isNaN := rfl
  rw [h, value, isNaN_iff]
  cases x.toModel.unpack <;> simp [unsigned]

theorem beq_iff_value : (x == y) = true ↔ value x ≠ .notANumber ∧ value x = value y := by
  have h : (x == y) = x.toModel.unpack.beq y.toModel.unpack := rfl
  rw [h, beq_iff, value, value]
  cases x.toModel.unpack <;> simp [unsigned]

/-- Doubles are alike if they have the same numerical parts. -/
theorem alike_iff : Scalar.Alike x y ↔ value x = value y := by
  have hx : Scalar.isNaN x = true ↔ value x = .notANumber := isNaN_iff_value x
  have hy : Scalar.isNaN y = true ↔ value y = .notANumber := isNaN_iff_value y
  rw [Scalar.Alike, beq_iff_value, hx, hy]
  constructor
  · rintro (⟨_, h⟩ | ⟨h, h'⟩)
    · exact h
    · rw [h, h']
  · intro h
    by_cases hnan : value x = .notANumber
    · exact .inr ⟨hnan, h ▸ hnan⟩
    · exact .inl ⟨hnan, h⟩

end

end Double

open Double in
instance : LawfulScalar Float where
  symm {x y} h := by
    rw [beq_iff_value] at h ⊢
    exact ⟨h.2 ▸ h.1, h.2.symm⟩
  trans {x y z} h h' := by
    rw [beq_iff_value] at h h' ⊢
    exact ⟨h.1, h.2.trans h'.2⟩
  beq_self {x} h := by
    rw [beq_iff_value]
    refine ⟨fun hnan => ?_, rfl⟩
    rw [← isNaN_iff_value] at hnan
    exact absurd hnan (Bool.eq_false_iff.mp h)
  isNaN_of_isFinite {x} h := by
    refine Bool.eq_false_iff.mpr fun hnan => ?_
    have hfinite : x.toModel.unpack.isFinite = true := h
    have hnan : x.toModel.unpack.isNaN = true := hnan
    rw [Float.Model.UnpackedFloat.isNaN_iff.mp hnan] at hfinite
    cases hfinite
  add {x x' y y'} h h' := by
    rw [alike_iff] at h h' ⊢
    rw [value_add, value_add, h, h']
  sub {x x' y y'} h h' := by
    rw [alike_iff] at h h' ⊢
    rw [value_sub, value_sub, h, h']
  mul {x x' y y'} h h' := by
    rw [alike_iff] at h h' ⊢
    rw [value_mul, value_mul, h, h']
  div {x x'} y h := by
    rw [alike_iff] at h ⊢
    rw [value_div, value_div, h]
  sqrt {x x'} h := by
    rw [alike_iff] at h ⊢
    exact (value_sqrt x).trans ((congrArg _ (congrArg _ h)).trans (value_sqrt x').symm)
  lt_iff {x x' y y'} h h' := by
    rw [alike_iff] at h h'
    rw [lt_iff_value, lt_iff_value, h, h']
  le_iff {x x' y y'} h h' := by
    rw [alike_iff] at h h'
    rw [le_iff_value, le_iff_value, h, h']

end SiteSection
