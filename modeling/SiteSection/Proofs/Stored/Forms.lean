import SiteSection.Stored.Fields

/-! # Forms that restore

  A form restores values of some kind if it reads them back from what it writes, and reads no
  others. The forms of the parts say which values these are: finite scalars, counts in range,
  and whatever is made of them.

  There is one lemma for each way to build a form, so that of a type follows the build of its
  own form.
-/

namespace SiteSection

variable {α σ τ : Type}

/-- The form reads back the storable values, and reads nothing else. -/
structure Form.Restores (f : Form α τ) (storable : τ → Prop) : Prop where
  /-- A storable value is read back from what it is written as. -/
  read?_write : ∀ v, storable v → f.read? (f.write v) = some v
  /-- What is read of any tree is storable. -/
  storable_of_read? : ∀ t v, f.read? t = some v → storable v

namespace Form

/-- Every storable value is read back from what it is written as; and whatever a tree is read as is
    storable, and reads back. -/
def RoundTrips (f : Form α τ) (storable : τ → Prop) : Prop :=
  (∀ v, storable v → f.read? (f.write v) = some v) ∧
    ∀ t v, f.read? t = some v → storable v ∧ f.read? (f.write v) = some v

section
variable {f : Form α τ} {p q : τ → Prop}

theorem Restores.roundTrips (h : f.Restores p) : f.RoundTrips p := by
  refine ⟨h.read?_write, fun t v hread => ?_⟩
  have hv : p v := h.storable_of_read? t v hread
  exact ⟨hv, h.read?_write v hv⟩

theorem Restores.congr (h : f.Restores p) (hpq : ∀ v, q v ↔ p v) : f.Restores q where
  read?_write v hv := h.read?_write v ((hpq v).mp hv)
  storable_of_read? t v hv := (hpq v).mpr (h.storable_of_read? t v hv)

/-! ## Plain values -/

theorem restores_bool : (bool : Form α Bool).Restores fun _ => True where
  read?_write b _ := read?_write_bool b
  storable_of_read? _ _ _ := trivial

theorem restores_below (limit : Nat) : (below limit : Form α Nat).Restores (· < limit) where
  read?_write _ h := read?_write_below h
  storable_of_read? t n h := by
    simp only [below] at h
    split at h
    · split at h
      · cases h
        omega
      · cases h
    · cases h

theorem restores_signed : (signed : Form α Int).Restores
    fun n => -Nat.pow 2 63 ≤ n ∧ n < Nat.pow 2 63 where
  read?_write _ h := read?_write_signed h
  storable_of_read? t n h := by
    simp only [signed] at h
    split at h
    · split at h
      · next hrange =>
        cases h
        exact hrange
      · cases h
    · cases h

theorem restores_scalar [Scalar α] : (scalar : Form α α).Restores
    fun x => Scalar.isFinite x = true where
  read?_write _ h := read?_write_scalar h
  storable_of_read? _ _ h := (Option.filter_eq_some_iff.mp h).2

/-- Values with names of their own are restored by their names. -/
theorem restores_oneOf {names : τ → String} {values : List τ}
    (hnames : ∀ v, values.find? (fun u => names u == names v) = some v) :
    (oneOf names values : Form α τ).Restores fun _ => True where
  read?_write v _ := hnames v
  storable_of_read? _ _ _ := trivial

/-! ## Lists and options -/

theorem Restores.list (h : f.Restores p) : f.list.Restores fun vs => ∀ v ∈ vs, p v where
  read?_write _ hvs := read?_write_list f fun v hv => h.read?_write v (hvs v hv)
  storable_of_read? t vs hread := by
    simp only [Form.list] at hread
    split at hread
    · next ts =>
      -- Each value of the list is read of one of the trees.
      induction ts generalizing vs with
      | nil =>
        cases hread
        simp
      | cons t ts ih =>
        rw [List.mapM_cons] at hread
        obtain ⟨v, hv, hread⟩ := Option.bind_eq_some_iff.mp hread
        obtain ⟨vs', hvs', hread⟩ := Option.bind_eq_some_iff.mp hread
        cases hread
        exact List.forall_mem_cons.mpr ⟨h.storable_of_read? t v hv, ih vs' hvs'⟩
    · cases hread

theorem Restores.pair (h : f.Restores p) : f.pair.Restores fun v => p v.1 ∧ p v.2 where
  read?_write v hv := by
    simp [Form.pair, h.read?_write v.1 hv.1, h.read?_write v.2 hv.2]
  storable_of_read? t v hread := by
    simp only [Form.pair] at hread
    split at hread
    · next a b =>
      obtain ⟨x, hx, hread⟩ := Option.bind_eq_some_iff.mp hread
      obtain ⟨y, hy, hread⟩ := Option.bind_eq_some_iff.mp hread
      cases hread
      exact ⟨h.storable_of_read? a x hx, h.storable_of_read? b y hy⟩
    · cases hread

theorem Restores.triple (h : f.Restores p) :
    f.triple.Restores fun v => p v.1 ∧ p v.2.1 ∧ p v.2.2 where
  read?_write v hv := by
    simp [Form.triple, h.read?_write v.1 hv.1, h.read?_write v.2.1 hv.2.1,
      h.read?_write v.2.2 hv.2.2]
  storable_of_read? t v hread := by
    simp only [Form.triple] at hread
    split at hread
    · next a b c =>
      obtain ⟨x, hx, hread⟩ := Option.bind_eq_some_iff.mp hread
      obtain ⟨y, hy, hread⟩ := Option.bind_eq_some_iff.mp hread
      obtain ⟨z, hz, hread⟩ := Option.bind_eq_some_iff.mp hread
      cases hread
      exact ⟨h.storable_of_read? a x hx, h.storable_of_read? b y hy, h.storable_of_read? c z hz⟩
    · cases hread

/-- A value or nothing is told apart if nothing is no value. -/
theorem Restores.option (h : f.Restores p) (hnull : f.read? .null = none) :
    f.option.Restores fun o => ∀ v ∈ o, p v where
  read?_write o ho := by
    cases o with
    | none => rfl
    | some v =>
      have hread := h.read?_write v (ho v rfl)
      -- A value is not written as nothing, so it is read as a value.
      have hwrite : f.write v ≠ .null := by
        intro hw
        rw [hw, hnull] at hread
        cases hread
      simp only [Form.option, hread, Option.map_some]
  storable_of_read? t o hread := by
    simp only [Form.option] at hread
    split at hread
    · cases hread
      simp
    · obtain ⟨v, hv, rfl⟩ := Option.map_eq_some_iff.mp hread
      simpa using h.storable_of_read? t v hv

/-- Values that correspond to those of a form are restored with them. -/
theorem Restores.map {g : Form α σ} {r : σ → Prop} (h : g.Restores r) {toValue : σ → τ}
    {ofValue : τ → σ} (hvalue : ∀ v, toValue (ofValue v) = v)
    (hparts : ∀ c, ofValue (toValue c) = c) :
    (g.map toValue ofValue).Restores fun v => r (ofValue v) where
  read?_write v hv := by
    simp [Form.map, h.read?_write (ofValue v) hv, hvalue]
  storable_of_read? t v hread := by
    obtain ⟨c, hc, rfl⟩ := Option.map_eq_some_iff.mp hread
    rw [hparts]
    exact h.storable_of_read? t c hc

end

end Form

/-! ## Fields -/

namespace Fields

/-- The row reads back the storable values, and reads nothing else. -/
structure Restores (f : Fields α τ) (storable : τ → Prop) : Prop extends f.Faithful storable where
  /-- What is read of any trees is storable. -/
  storable_of_read? : ∀ ts v, f.read? ts = some v → storable v

variable {f : Form α τ} {p : τ → Prop}

theorem Restores.required (name : String) (h : f.Restores p) :
    (Fields.required name f).Restores p where
  toFaithful := faithful_required name h.read?_write
  storable_of_read? ts v hread := by
    simp only [Fields.required] at hread
    split at hread
    · exact h.storable_of_read? _ v hread
    · cases hread

/-- A field with a default restores if the default is storable. -/
theorem Restores.withDefault (name : String) (h : f.Restores p) (otherwise : τ)
    (hotherwise : p otherwise) : (Fields.withDefault name f otherwise).Restores p where
  toFaithful := faithful_withDefault name otherwise h.read?_write
  storable_of_read? ts v hread := by
    simp only [Fields.withDefault] at hread
    split at hread
    · exact h.storable_of_read? _ v hread
    · cases hread
      exact hotherwise
    · cases hread

theorem Restores.optional (name : String) (h : f.Restores p) (hnull : f.read? .null = none) :
    (Fields.optional name f).Restores fun o => ∀ v ∈ o, p v :=
  .withDefault name (h.option hnull) none (by simp)

theorem Restores.and {f : Fields α σ} {g : Fields α τ} {p : σ → Prop} {q : τ → Prop}
    (hf : f.Restores p) (hg : g.Restores q) : (f.and g).Restores fun v => p v.1 ∧ q v.2 where
  toFaithful := hf.toFaithful.and hg.toFaithful
  storable_of_read? ts v hread := by
    obtain ⟨a, ha, hread⟩ := Option.bind_eq_some_iff.mp hread
    obtain ⟨b, hb, hread⟩ := Option.bind_eq_some_iff.mp hread
    cases hread
    exact ⟨hf.storable_of_read? _ a ha, hg.storable_of_read? _ b hb⟩

/-- A record restores what its fields do, whether it is read by names or by places. -/
theorem Restores.record {f : Fields α τ} {p : τ → Prop} (h : f.Restores p)
    (distinct : f.names.Nodup) (positional : Positional) :
    (f.record positional).Restores p where
  read?_write _ hv := read?_write_record h.toFaithful distinct positional hv
  storable_of_read? t v hread := by
    simp only [Fields.record] at hread
    split at hread
    · exact h.storable_of_read? _ v hread
    · split at hread
      · exact h.storable_of_read? _ v hread
      · cases hread
    · cases hread

end Fields

end SiteSection
