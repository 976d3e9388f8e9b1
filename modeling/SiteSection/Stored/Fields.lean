import SiteSection.Stored.Form

/-! # Fields

  Records are stored as named fields. A row of fields is read from the trees under its names,
  each of which may be absent; what absence means is up to the field.
-/

namespace SiteSection

/-- A row of named fields that together hold a value. -/
structure Fields (α τ : Type) where
  /-- The names. -/
  names : List String
  /-- The trees of a value, in the order of the names. -/
  write : τ → List (Tree α)
  /-- The value of the trees under the names, in the same order. -/
  read? : List (Option (Tree α)) → Option τ

namespace Fields

variable {α σ τ : Type}

/-! ## Building rows -/

/-- A field that has to be there. -/
def required (name : String) (f : Form α τ) : Fields α τ where
  names := [name]
  write v := [f.write v]
  read?
    | [some t] => f.read? t
    | _ => none

/-- A field that may be absent, with the value that it then has. -/
def withDefault (name : String) (f : Form α τ) (otherwise : τ) : Fields α τ where
  names := [name]
  write v := [f.write v]
  read?
    | [some t] => f.read? t
    | [none] => some otherwise
    | _ => none

/-- A field that holds a value or nothing, and holds nothing where it is absent. -/
def optional (name : String) (f : Form α τ) : Fields α (Option τ) :=
  withDefault name f.option none

/-- Two rows, one after the other. -/
def and (f : Fields α σ) (g : Fields α τ) : Fields α (σ × τ) where
  names := f.names ++ g.names
  write v := f.write v.1 ++ g.write v.2
  read? ts := do
    return (← f.read? (ts.take f.names.length), ← g.read? (ts.drop f.names.length))

/-! ## Records -/

/-- May a plain list of the field values stand for a record? -/
inductive Positional where
  /-- It may not. -/
  | refused
  /-- It may, if it has all fields. -/
  | complete
  /-- It may, and fields at its end may be missing. -/
  | leading
  deriving DecidableEq, Repr

/-- Are `given` values enough for `wanted` fields? -/
def Positional.admits (p : Positional) (given wanted : Nat) : Bool :=
  match p with
  | .refused => false
  | .complete => given == wanted
  | .leading => decide (given ≤ wanted)

/-- The form of a record of some fields. Entries of other names are passed over. -/
def record (f : Fields α τ) (positional : Positional) : Form α τ where
  write v := .record (f.names.zip (f.write v))
  read?
    | .record entries => f.read? (f.names.map fun n => Tree.entry? n entries)
    | .list items =>
      if positional.admits items.length f.names.length then
        f.read? (items.map some ++ List.replicate (f.names.length - items.length) none)
      else none
    | _ => none

/-! ## Writing, then reading -/

/-- Are the trees of every written value as many as the names, and do they read back as the
    value where it is admitted? -/
structure Faithful (f : Fields α τ) (admitted : τ → Prop) : Prop where
  /-- There is a tree for each name. -/
  length_write : ∀ v, (f.write v).length = f.names.length
  /-- An admitted value reads back. -/
  read?_write : ∀ v, admitted v → f.read? ((f.write v).map some) = some v

/-- A required field reads back what its form does. -/
theorem faithful_required (name : String) {f : Form α τ} {admitted : τ → Prop}
    (h : ∀ v, admitted v → f.read? (f.write v) = some v) : (required name f).Faithful admitted where
  length_write _ := rfl
  read?_write := h

/-- A field with a default reads back what its form does. -/
theorem faithful_withDefault (name : String) {f : Form α τ} (otherwise : τ)
    {admitted : τ → Prop} (h : ∀ v, admitted v → f.read? (f.write v) = some v) :
    (withDefault name f otherwise).Faithful admitted where
  length_write _ := rfl
  read?_write := h

/-- Two rows read back together what each reads back. -/
theorem Faithful.and {f : Fields α σ} {g : Fields α τ} {p : σ → Prop} {q : τ → Prop}
    (hf : f.Faithful p) (hg : g.Faithful q) : (f.and g).Faithful fun v => p v.1 ∧ q v.2 where
  length_write v := by simp [Fields.and, hf.length_write, hg.length_write]
  read?_write v h := by
    obtain ⟨a, b⟩ := v
    have hlen : ((f.write a).map some).length = f.names.length := by simp [hf.length_write]
    simp [Fields.and, ← hlen, hf.read?_write a h.1, hg.read?_write b h.2]

/-- Entries under distinct names are found again in the order of the names. -/
theorem map_entry?_zip {names : List String} {ts : List (Tree α)} (distinct : names.Nodup)
    (h : ts.length = names.length) :
    (names.map fun n => Tree.entry? n (names.zip ts)) = ts.map some := by
  induction names generalizing ts with
  | nil =>
    rw [List.length_nil] at h
    rw [List.length_eq_zero_iff.mp h]
    rfl
  | cons n names ih =>
    match ts, h with
    | t :: ts, h =>
      obtain ⟨hn, hnames⟩ := List.nodup_cons.mp distinct
      have htail := ih hnames (Nat.succ_inj.mp h)
      have hskip : ∀ m ∈ names, Tree.entry? m ((n, t) :: names.zip ts) =
          Tree.entry? m (names.zip ts) := by
        intro m hm
        have hne : (m == n) = false := beq_eq_false_iff_ne.mpr fun e => hn (e ▸ hm)
        simp [Tree.entry?, List.lookup_cons, hne]
      rw [List.zip_cons_cons, List.map_cons, List.map_cons, List.map_congr_left hskip, htail]
      simp [Tree.entry?]

/-- A record of distinct names reads back what its fields do. -/
theorem read?_write_record {f : Fields α τ} {admitted : τ → Prop} (hf : f.Faithful admitted)
    (distinct : f.names.Nodup) (positional : Positional) {v : τ} (h : admitted v) :
    (f.record positional).read? ((f.record positional).write v) = some v := by
  show f.read? (f.names.map fun n => Tree.entry? n (f.names.zip (f.write v))) = some v
  rw [map_entry?_zip distinct (hf.length_write v)]
  exact hf.read?_write v h

end Fields

end SiteSection
