import SiteSection.Proofs.Numbers.LawfulScalar
import SiteSection.Section.Cleanup

/-! # Laws of the clean-up passes

  The passes over the points of a section, one step at a time, and what follows for a whole
  pass: points of different kinds never meet in a pass, settling by the ground ahead works
  on each place separately, and no place loses its last point.
-/

namespace SiteSection

namespace SectionPoint

variable {α : Type} [Scalar α] {a b c : SectionPoint α}

/-! ## Places -/

theorem samePlace_iff :
    a.samePlace b = true ↔ a.kind = b.kind ∧ (a.position.plan == b.position.plan) = true := by
  simp [samePlace, Point3.samePlan]

theorem samePlace_of_kind_ne (h : a.kind ≠ b.kind) : a.samePlace b = false := by
  simp [samePlace, h]

theorem sameEvent_of_not_samePlace (h : a.samePlace b = false) : a.sameEvent b = false := by
  simp [sameEvent, h]

theorem sameEvent_of_kind_ne (h : a.kind ≠ b.kind) : a.sameEvent b = false :=
  sameEvent_of_not_samePlace (samePlace_of_kind_ne h)

theorem samePlace_of_sameEvent (h : a.sameEvent b = true) : a.samePlace b = true := by
  simp only [sameEvent, Bool.and_eq_true] at h
  exact h.1

theorem samePlace_of_conflicts (h : a.conflicts b = true) : a.samePlace b = true := by
  simp only [conflicts, Bool.and_eq_true] at h
  exact h.1.2

theorem conflicts_of_not_samePlace (h : a.samePlace b = false) : a.conflicts b = false := by
  simp [conflicts, h]

section
variable [PartialEquivBEq α]

theorem samePlace_symm (h : a.samePlace b = true) : b.samePlace a = true := by
  rw [samePlace_iff] at h ⊢
  exact ⟨h.1.symm, BEq.symm h.2⟩

theorem samePlace_trans (h : a.samePlace b = true) (h' : b.samePlace c = true) :
    a.samePlace c = true := by
  rw [samePlace_iff] at h h' ⊢
  exact ⟨h.1.trans h'.1, BEq.trans h.2 h'.2⟩

theorem sameEvent_symm (h : a.sameEvent b = true) : b.sameEvent a = true := by
  simp only [sameEvent, Bool.and_eq_true] at h ⊢
  exact ⟨samePlace_symm h.1, BEq.symm h.2⟩

theorem sameEvent_trans (h : a.sameEvent b = true) (h' : b.sameEvent c = true) :
    a.sameEvent c = true := by
  simp only [sameEvent, Bool.and_eq_true] at h h' ⊢
  exact ⟨samePlace_trans h.1 h'.1, BEq.trans h.2 h'.2⟩

end

/-! ## One step of settling by the ground ahead -/

/-- The neighbours conflict and only the earlier is over the ground ahead. -/
def prevails (ahead : Point2 α → α) (a b : SectionPoint α) : Bool :=
  a.ground == ahead a.position.plan && b.ground != ahead a.position.plan

section
variable (ahead : Point2 α → α) (rest : List (SectionPoint α))

@[simp] theorem settleAhead_nil : settleAhead ahead [] = [] := by simp [settleAhead]

@[simp] theorem settleAhead_singleton (a : SectionPoint α) : settleAhead ahead [a] = [a] := by
  simp [settleAhead]

theorem settleAhead_pass (h : a.conflicts b = false) :
    settleAhead ahead (a :: b :: rest) = a :: settleAhead ahead (b :: rest) := by
  rw [settleAhead]
  simp [h]

theorem settleAhead_earlier (h : a.conflicts b = true) (hp : prevails ahead a b = true) :
    settleAhead ahead (a :: b :: rest) = settleAhead ahead (a :: rest) := by
  rw [settleAhead]
  simp only [prevails] at hp
  simp [h, hp]

theorem settleAhead_later (h : a.conflicts b = true) (hp : prevails ahead a b = false) :
    settleAhead ahead (a :: b :: rest) = settleAhead ahead (b :: rest) := by
  rw [settleAhead]
  simp only [prevails] at hp
  simp [h, hp]

end

/-- Settling by the ground ahead, case by case: a list is at most one point, its first two
    points agree, or one of them goes. -/
theorem settleAhead_cases (ahead : Point2 α → α) {motive : List (SectionPoint α) → Prop}
    (nil : motive []) (single : ∀ a, motive [a])
    (pass : ∀ a b rest, a.conflicts b = false → motive (b :: rest) → motive (a :: b :: rest))
    (earlier : ∀ a b rest, a.conflicts b = true → prevails ahead a b = true →
      motive (a :: rest) → motive (a :: b :: rest))
    (later : ∀ a b rest, a.conflicts b = true → prevails ahead a b = false →
      motive (b :: rest) → motive (a :: b :: rest))
    (points : List (SectionPoint α)) : motive points := by
  fun_induction settleAhead ahead points with
  | case1 a b rest hab _ hp ih => exact earlier a b rest hab hp ih
  | case2 a b rest hab _ hp ih => exact later a b rest hab (Bool.eq_false_iff.mpr hp) ih
  | case3 a b rest hab ih => exact pass a b rest (Bool.eq_false_iff.mpr hab) ih
  | case4 points hshort =>
    rcases points with _ | ⟨a, _ | ⟨b, rest⟩⟩
    · exact nil
    · exact single a
    · exact absurd rfl (hshort a b rest)

/-- Settling by the ground ahead treats two parts of a list separately if no point of the
    first is at the place where the second begins. -/
theorem settleAhead_append (ahead : Point2 α → α) {front back : List (SectionPoint α)}
    (h : ∀ a ∈ front, ∀ b ∈ back.head?, a.samePlace b = false) :
    settleAhead ahead (front ++ back) = settleAhead ahead front ++ settleAhead ahead back := by
  -- Each case of `front` is one step of the pass, and the same step on `front ++ back`; only
  -- where `front` is down to one point does the pass look at `back`.
  induction front using settleAhead_cases ahead with
  | nil => simp
  | single a =>
    match back with
    | [] => simp
    | b :: rest =>
      have hab : a.conflicts b = false :=
        conflicts_of_not_samePlace (h a List.mem_cons_self b rfl)
      simp [settleAhead_pass ahead rest hab]
  | pass a b rest hab ih =>
    have ih := ih fun c hc => h c (List.mem_cons_of_mem a hc)
    rw [List.cons_append, List.cons_append, settleAhead_pass ahead _ hab,
      settleAhead_pass ahead _ hab, ← List.cons_append, ih, List.cons_append]
  | earlier a b rest hab hp ih =>
    rw [List.cons_append, List.cons_append, settleAhead_earlier ahead _ hab hp,
      settleAhead_earlier ahead _ hab hp, ← List.cons_append]
    exact ih fun c hc => h c (by rcases List.mem_cons.mp hc with rfl | hc <;> simp [*])
  | later a b rest hab hp ih =>
    rw [List.cons_append, List.cons_append, settleAhead_later ahead _ hab hp,
      settleAhead_later ahead _ hab hp, ← List.cons_append]
    exact ih fun c hc => h c (List.mem_cons_of_mem a hc)

/-! ## Settling in turn -/

/-- A first point of a kind of its own takes no part in settling in turn. -/
theorem settleInTurn_cons (k : Nat) {points : List (SectionPoint α)}
    (h : ∀ b ∈ points, a.kind ≠ b.kind) :
    settleInTurn k (a :: points) = a :: settleInTurn k points := by
  match points with
  | [] | [_] => simp [settleInTurn]
  | b :: c :: rest =>
    have hab : a.conflicts b = false :=
      conflicts_of_not_samePlace (samePlace_of_kind_ne (h b List.mem_cons_self))
    rw [settleInTurn]
    simp [hab]

/-- The last point takes no part in settling in turn. -/
theorem getLast?_settleInTurn (k : Nat) (points : List (SectionPoint α)) :
    (settleInTurn k points).getLast? = points.getLast? := by
  -- A removal takes place only where a third point follows, so never at the last.
  fun_induction settleInTurn k points with
  | case1 k a b c rest _ _ ih => simpa [List.getLast?_cons_cons] using ih
  | case2 k a b c rest _ _ ih =>
    rw [List.getLast?_cons, ih]
    simp [List.getLast?_cons]
  | case3 k a b c rest _ ih =>
    rw [List.getLast?_cons, ih]
    simp [List.getLast?_cons]
  | case4 => rfl

/-! ## Building points stay -/

/-- Points of buildings never conflict. -/
theorem isBuilding_of_conflicts (h : a.conflicts b = true) :
    a.isBuilding = false ∧ b.isBuilding = false := by
  have hkind : a.kind = b.kind := (samePlace_iff.mp (samePlace_of_conflicts h)).1
  simp only [conflicts, Bool.and_eq_true, Bool.not_eq_true'] at h
  have ha : a.isBuilding = false := h.1.1
  refine ⟨ha, ?_⟩
  rw [isBuilding, ← hkind]
  exact ha

theorem filter_building_capAfter (latest points : List (SectionPoint α)) :
    (capAfter latest points).filter isBuilding = points.filter isBuilding := by
  fun_induction capAfter latest points with
  | case1 => rfl
  | case2 latest c rest hdrop ih =>
    rw [Bool.and_eq_true, Bool.not_eq_true'] at hdrop
    rw [ih, List.filter_cons, hdrop.1]
    rfl
  | case3 latest c rest _ ih => rw [List.filter_cons, List.filter_cons, ih]

theorem filter_building_settleAhead (ahead : Point2 α → α) (points : List (SectionPoint α)) :
    (settleAhead ahead points).filter isBuilding = points.filter isBuilding := by
  induction points using settleAhead_cases ahead with
  | nil => rw [settleAhead_nil]
  | single a => rw [settleAhead_singleton]
  | pass a b rest hab ih =>
    rw [settleAhead_pass ahead rest hab, List.filter_cons, ih, List.filter_cons (x := a)]
  | earlier a b rest hab hp ih =>
    rw [settleAhead_earlier ahead rest hab hp, ih]
    simp [isBuilding_of_conflicts hab]
  | later a b rest hab hp ih =>
    rw [settleAhead_later ahead rest hab hp, ih]
    simp [isBuilding_of_conflicts hab]

theorem filter_building_settleInTurn (k : Nat) (points : List (SectionPoint α)) :
    (settleInTurn k points).filter isBuilding = points.filter isBuilding := by
  fun_induction settleInTurn k points with
  | case1 k a b c rest hab _ ih =>
    rw [ih]
    simp [List.filter_cons, isBuilding_of_conflicts hab]
  | case2 k a b c rest hab _ ih =>
    rw [List.filter_cons, ih]
    simp [List.filter_cons, isBuilding_of_conflicts hab]
  | case3 k a b c rest _ ih => rw [List.filter_cons, ih, List.filter_cons (x := a)]
  | case4 => rfl

/-- Settling keeps the building points, under either policy. -/
theorem filter_building_settle (policy : ConflictPolicy) (ahead : Point2 α → α)
    (points : List (SectionPoint α)) :
    (settle policy ahead points).filter isBuilding = points.filter isBuilding := by
  cases policy with
  | groundAhead => exact filter_building_settleAhead ahead points
  | alternate => exact filter_building_settleInTurn 0 points

/-! ## What is left at a place

  A point goes only beside another at its place, so every place of the list keeps a point. -/

/-- Is the point, or another at its place, among some points? -/
def KeepsPlace (points : List (SectionPoint α)) (c : SectionPoint α) : Prop :=
  ∃ c' ∈ points, c' = c ∨ c'.samePlace c = true

theorem KeepsPlace.of_mem {points : List (SectionPoint α)} (h : c ∈ points) :
    KeepsPlace points c := ⟨c, h, .inl rfl⟩

theorem KeepsPlace.cons {points : List (SectionPoint α)} (h : KeepsPlace points c)
    (a : SectionPoint α) : KeepsPlace (a :: points) c := by
  obtain ⟨c', hc', h⟩ := h
  exact ⟨c', List.mem_cons_of_mem a hc', h⟩

/-- After some points that are kept, capping keeps the place of a point or has kept it. -/
theorem keepsPlace_capAfter (latest : List (SectionPoint α)) {points : List (SectionPoint α)}
    (h : c ∈ points) :
    KeepsPlace (capAfter latest points) c ∨ ∃ b ∈ latest, b.samePlace c = true := by
  induction points generalizing latest with
  | nil => cases h
  | cons d rest ih =>
    rw [capAfter]
    split
    · next hdrop =>
      rcases List.mem_cons.mp h with rfl | h
      · -- The point that goes repeats the one kept last.
        match latest with
        | [] | [_] => simp [repeatsBoth] at hdrop
        | b :: _ :: _ =>
          simp only [repeatsBoth, Bool.and_eq_true] at hdrop
          exact .inr ⟨b, List.mem_cons_self, samePlace_of_sameEvent hdrop.2.1⟩
      · exact ih latest h
    · rcases List.mem_cons.mp h with rfl | h
      · exact .inl (.of_mem List.mem_cons_self)
      · rcases ih (d :: latest.take 1) h with hk | ⟨b, hb, hbc⟩
        · exact .inl (hk.cons d)
        · rcases List.mem_cons.mp hb with rfl | hb
          · exact .inl ⟨b, List.mem_cons_self, .inr hbc⟩
          · exact .inr ⟨b, List.mem_of_mem_take hb, hbc⟩

theorem keepsPlace_capRuns {points : List (SectionPoint α)} (h : c ∈ points) :
    KeepsPlace (capRuns points) c := by
  rcases keepsPlace_capAfter [] h with hk | ⟨b, hb, _⟩
  · exact hk
  · cases hb

section
variable [PartialEquivBEq α]

/-- What keeps the place of a point keeps the place of every point there. -/
theorem KeepsPlace.trans {points : List (SectionPoint α)} (h : KeepsPlace points b)
    (hbc : b.samePlace c = true) : KeepsPlace points c := by
  obtain ⟨c', hc', rfl | h⟩ := h
  · exact ⟨c', hc', .inr hbc⟩
  · exact ⟨c', hc', .inr (samePlace_trans h hbc)⟩

theorem keepsPlace_settleAhead (ahead : Point2 α → α) {points : List (SectionPoint α)}
    (h : c ∈ points) : KeepsPlace (settleAhead ahead points) c := by
  -- The point that is kept of a pair stands for the one that goes, and what is kept for it
  -- further on stands for both.
  induction points using settleAhead_cases ahead generalizing c with
  | nil => cases h
  | single a => exact .of_mem (by simpa using h)
  | pass a b rest hab ih =>
    rw [settleAhead_pass ahead rest hab]
    rcases List.mem_cons.mp h with rfl | h
    · exact .of_mem List.mem_cons_self
    · exact (ih h).cons a
  | earlier a b rest hab hp ih =>
    rw [settleAhead_earlier ahead rest hab hp]
    rcases List.mem_cons.mp h with rfl | h
    · exact ih List.mem_cons_self
    · rcases List.mem_cons.mp h with rfl | h
      · exact (ih List.mem_cons_self).trans (samePlace_of_conflicts hab)
      · exact ih (List.mem_cons_of_mem a h)
  | later a b rest hab hp ih =>
    rw [settleAhead_later ahead rest hab hp]
    rcases List.mem_cons.mp h with rfl | h
    · exact (ih List.mem_cons_self).trans (samePlace_symm (samePlace_of_conflicts hab))
    · exact ih h

theorem keepsPlace_settleInTurn (k : Nat) {points : List (SectionPoint α)}
    (h : c ∈ points) : KeepsPlace (settleInTurn k points) c := by
  fun_induction settleInTurn k points generalizing c with
  | case1 k a b d rest hab _ ih =>
    rcases List.mem_cons.mp h with rfl | h
    · exact ih List.mem_cons_self
    · rcases List.mem_cons.mp h with rfl | h
      · exact (ih List.mem_cons_self).trans (samePlace_of_conflicts hab)
      · exact ih (List.mem_cons_of_mem a h)
  | case2 k a b d rest hab _ ih =>
    rcases List.mem_cons.mp h with rfl | h
    · exact ⟨b, List.mem_cons_self, .inr (samePlace_symm (samePlace_of_conflicts hab))⟩
    · rcases List.mem_cons.mp h with rfl | h
      · exact .of_mem List.mem_cons_self
      · exact (ih h).cons b
  | case3 k a b d rest _ ih =>
    rcases List.mem_cons.mp h with rfl | h
    · exact .of_mem List.mem_cons_self
    · exact (ih h).cons a
  | case4 => exact .of_mem h

/-- No place loses its last point when conflicts are settled, under either policy. -/
theorem keepsPlace_settle (policy : ConflictPolicy) (ahead : Point2 α → α)
    {points : List (SectionPoint α)} (h : c ∈ points) :
    KeepsPlace (settle policy ahead points) c := by
  cases policy with
  | groundAhead => exact keepsPlace_settleAhead ahead h
  | alternate => exact keepsPlace_settleInTurn 0 h

end

end SectionPoint

end SiteSection
