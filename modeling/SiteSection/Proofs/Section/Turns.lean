import Mathlib.Logic.Relation
import SiteSection.Double
import SiteSection.Proofs.Section.Cleanup

/-! # Settling in turn

  Conflicts are settled in turn by a pass that goes along the points, looks at a point and the
  next one, and counts the conflicts that it has settled. Which of two points is kept depends on
  the count and on the grounds, and where the pass goes on depends on which is kept: from the
  earlier it does not move, since that may conflict with the next point too, but the later it
  leaves behind.

  A step of the pass moves on or takes a turn. `Turn` says what a turn does, and what every turn
  preserves is true of what the pass leaves.
-/

namespace SiteSection

namespace SectionPoint

variable {α : Type} [Scalar α]

/-! ## Turns -/

/-- Is the point over hard ground? -/
def isHard (c : SectionPoint α) : Bool := c.ground == 0

/-- Which of two points in conflict is kept at turn `k`, counted from one. If one of them is over
    hard ground and the other is not, odd turns keep the hard one and even turns the other. If
    neither is, odd turns keep the later and even turns the earlier. -/
structure Survives (k : Nat) (earlier later kept : SectionPoint α) : Prop where
  /-- One of the two is kept. -/
  one_of : kept = earlier ∨ kept = later
  /-- Hard ground and soft ground alternate. -/
  hard_iff : earlier.isHard ≠ later.isHard → (kept.isHard = true ↔ k % 2 = 1)
  /-- On soft ground the later and the earlier alternate. -/
  soft : earlier.isHard = false → later.isHard = false →
    kept = if k % 2 = 1 then later else earlier

/-- Turn `k`: of two neighbours that conflict and are not the last two points, one goes. -/
inductive Turn (k : Nat) : List (SectionPoint α) → List (SectionPoint α) → Prop where
  | settle (front : List (SectionPoint α)) {a b kept : SectionPoint α} (c : SectionPoint α)
      (rest : List (SectionPoint α)) (hconflict : a.conflicts b = true)
      (hkept : Survives k a b kept) :
      Turn k (front ++ a :: b :: c :: rest) (front ++ kept :: c :: rest)

section
variable {k : Nat} {a b : SectionPoint α} {points points' : List (SectionPoint α)}

theorem survives_earlier (h : (k % 2 == 0) = a.isHard) : Survives (k + 1) a b a where
  one_of := .inl rfl
  hard_iff _ := by
    rw [← h, beq_iff_eq]
    omega
  soft ha _ := by
    rw [ha, beq_eq_false_iff_ne] at h
    rw [if_neg (by omega)]

theorem survives_later (h : (k % 2 == 0) ≠ a.isHard) : Survives (k + 1) a b b where
  one_of := .inr rfl
  hard_iff hne := by
    -- Two truth values that differ from a third are the same.
    have hsame : (k % 2 == 0) = b.isHard := by
      rw [Bool.eq_not_of_ne h, Bool.eq_not_of_ne hne.symm]
    rw [← hsame, beq_iff_eq]
    omega
  soft ha _ := by
    rw [ha, ne_eq, Bool.not_eq_false, beq_iff_eq] at h
    rw [if_pos (by omega)]

theorem Turn.length_eq (h : Turn k points points') : points.length = points'.length + 1 := by
  obtain ⟨front, c, rest, -, -⟩ := h
  simp only [List.length_append, List.length_cons]
  omega

/-- A turn keeps all that can take no part in a conflict. -/
theorem Turn.filter_eq (h : Turn k points points') {keep : SectionPoint α → Bool}
    (hkeep : ∀ a b, [a, b] <:+: points → a.conflicts b = true →
      keep a = false ∧ keep b = false) :
    points'.filter keep = points.filter keep := by
  obtain ⟨front, c, rest, hconflict, hkept⟩ := h
  obtain ⟨ha, hb⟩ := hkeep _ _ ⟨front, c :: rest, by simp⟩ hconflict
  rcases hkept.one_of with rfl | rfl <;> simp [List.filter_cons, ha, hb]

end

/-! ## The pass at work -/

/-- The pass at work. -/
structure InTurn (α : Type) where
  /-- The points that are left. -/
  points : List (SectionPoint α)
  /-- The place of the point that is looked at with the next one. -/
  place : Nat
  /-- How many conflicts have been settled. -/
  turns : Nat

namespace InTurn

/-- The pass before its first step. -/
def start (points : List (SectionPoint α)) : InTurn α := ⟨points, 0, 0⟩

/-- One step of the pass. It has come to its end where no third point follows the two. -/
def next? (s : InTurn α) : Option (InTurn α) :=
  match s.points[s.place]?, s.points[s.place + 1]?, s.points[s.place + 2]? with
  | some a, some b, some _ =>
    if a.conflicts b then
      if (s.turns % 2 == 0) == a.isHard then
        some ⟨s.points.eraseIdx (s.place + 1), s.place, s.turns + 1⟩
      else some ⟨s.points.eraseIdx s.place, s.place + 1, s.turns + 1⟩
    else some { s with place := s.place + 1 }
  | _, _, _ => none

/-- A step of the pass leads from one state to the other. -/
def Step (s s' : InTurn α) : Prop := s.next? = some s'

/-- Steps of the pass lead from one state to the other. -/
def Reaches : InTurn α → InTurn α → Prop := Relation.ReflTransGen Step

/-! ## What a step does -/

section
variable {s s' : InTurn α}

theorem eraseIdx_length {ι : Type} (l l' : List ι) (i : ι) :
    (l ++ i :: l').eraseIdx l.length = l ++ l' := by
  rw [List.eraseIdx_append_of_length_le (Nat.le_refl _), Nat.sub_self, List.eraseIdx_cons_zero]

theorem next?_append (front rest : List (SectionPoint α)) (a b c : SectionPoint α) (k : Nat) :
    (⟨front ++ a :: b :: c :: rest, front.length, k⟩ : InTurn α).next? =
      if a.conflicts b then
        if (k % 2 == 0) == a.isHard then some ⟨front ++ a :: c :: rest, front.length, k + 1⟩
        else some ⟨front ++ b :: c :: rest, front.length + 1, k + 1⟩
      else some ⟨front ++ a :: b :: c :: rest, front.length + 1, k⟩ := by
  have hearlier : (front ++ a :: b :: c :: rest).eraseIdx front.length =
      front ++ b :: c :: rest := eraseIdx_length front (b :: c :: rest) a
  have hlater : (front ++ a :: b :: c :: rest).eraseIdx (front.length + 1) =
      front ++ a :: c :: rest := by
    simpa using eraseIdx_length (front ++ [a]) (c :: rest) b
  simp [next?, hearlier, hlater]

/-- Where the pass takes a step, three points are ahead of it. -/
theorem Step.exists_append (h : Step s s') : ∃ front a b c rest,
    s = ⟨front ++ a :: b :: c :: rest, front.length, s.turns⟩ := by
  obtain ⟨points, place, k⟩ := s
  rw [Step, next?] at h
  split at h
  · next a b c ha hb hc =>
    have hlt : place + 2 < points.length := (List.getElem?_eq_some_iff.mp hc).1
    refine ⟨points.take place, points[place], points[place + 1], points[place + 2],
      points.drop (place + 3), ?_⟩
    rw [← List.drop_eq_getElem_cons, ← List.drop_eq_getElem_cons, ← List.drop_eq_getElem_cons,
      List.take_append_drop, List.length_take_of_le (by omega)]
  · cases h

/-- A step moves on from a point that does not conflict with the next one, or takes a turn. -/
theorem Step.cases (h : Step s s') :
    (s'.turns = s.turns ∧ s'.points = s.points ∧ s'.place = s.place + 1 ∧
      ∃ a b, s.points[s.place]? = some a ∧ s.points[s.place + 1]? = some b ∧
        a.conflicts b = false) ∨
    (s'.turns = s.turns + 1 ∧ Turn s'.turns s.points s'.points) := by
  obtain ⟨front, a, b, c, rest, hs⟩ := h.exists_append
  generalize s.turns = k at hs
  subst hs
  rw [Step, next?_append] at h
  split at h
  · next hconflict =>
    right
    split at h
    · next hkeep =>
      cases h
      exact ⟨rfl, .settle front c rest hconflict (survives_earlier (eq_of_beq hkeep))⟩
    · next hkeep =>
      cases h
      exact ⟨rfl, .settle front c rest hconflict (survives_later fun h => hkeep (beq_iff_eq.mpr h))⟩
  · next hconflict =>
    left
    cases h
    exact ⟨rfl, rfl, rfl, a, b, by simp, by simp, Bool.eq_false_iff.mpr hconflict⟩

/-! ## What a run does -/

/-- What every turn preserves, a run preserves. -/
theorem Reaches.invariant (inv : List (SectionPoint α) → Prop)
    (hturn : ∀ k points points', inv points → Turn k points points' → inv points')
    (h : Reaches s s') (hs : inv s.points) : inv s'.points := by
  induction h with
  | refl => exact hs
  | tail _ hstep ih =>
    rcases hstep.cases with ⟨-, hpoints, -⟩ | ⟨-, hstep⟩
    · rwa [hpoints]
    · exact hturn _ _ _ ih hstep

/-- As many points go as turns are taken. -/
theorem Reaches.turns_add_length (h : Reaches s s') :
    s'.turns + s'.points.length = s.turns + s.points.length := by
  induction h with
  | refl => rfl
  | tail _ hstep ih =>
    rcases hstep.cases with ⟨hturns, hpoints, -⟩ | ⟨hturns, hstep⟩
    · rw [hturns, hpoints, ih]
    · have hlength := hstep.length_eq
      omega

/-- A point that is the only one of its kind is kept. -/
theorem Reaches.filter_kind {kind : PointKind} (h : Reaches s s')
    (honce : s.points.countP (·.kind == kind) ≤ 1) :
    s'.points.filter (·.kind == kind) = s.points.filter (·.kind == kind) := by
  refine h.invariant (fun points =>
    points.filter (·.kind == kind) = s.points.filter (·.kind == kind)) ?_ rfl
  intro k points points' hsame hturn
  rw [← hsame]
  refine hturn.filter_eq fun a b hin hconflict => ?_
  -- Points in conflict are of one kind, and of this kind there are no two.
  have hkind : a.kind = b.kind := (samePlace_iff.mp (samePlace_of_conflicts hconflict)).1
  have hcount : [a, b].countP (·.kind == kind) ≤ 1 := by
    refine Nat.le_trans hin.sublist.countP_le ?_
    rwa [List.countP_eq_length_filter, hsame, ← List.countP_eq_length_filter]
  cases hb : b.kind == kind with
  | false => exact ⟨by rw [hkind, hb], rfl⟩
  | true => simp [hkind, hb] at hcount

end

/-! ## Where the pass ends -/

/-- From behind some points, the pass comes to its end with these and the others settled. -/
theorem exists_reaches (k : Nat) (front points : List (SectionPoint α)) :
    ∃ s, Reaches ⟨front ++ points, front.length, k⟩ s ∧ s.next? = none ∧
      s.points = front ++ settleInTurn k points := by
  -- Each case of the settling is a step of the pass; where it moves on, one more point is
  -- behind it.
  fun_induction settleInTurn k points generalizing front with
  | case1 k a b c rest hconflict hkeep ih =>
    obtain ⟨s, hs, hend, hpoints⟩ := ih front
    refine ⟨s, hs.head ?_, hend, hpoints⟩
    rw [Step, next?_append, if_pos hconflict]
    exact if_pos hkeep
  | case2 k a b c rest hconflict hkeep ih =>
    obtain ⟨s, hs, hend, hpoints⟩ := ih (front ++ [b])
    rw [List.append_assoc] at hs hpoints
    refine ⟨s, hs.head ?_, hend, hpoints⟩
    rw [Step, next?_append, if_pos hconflict, List.length_append]
    exact if_neg hkeep
  | case3 k a b c rest hconflict ih =>
    obtain ⟨s, hs, hend, hpoints⟩ := ih (front ++ [a])
    rw [List.append_assoc] at hs hpoints
    refine ⟨s, hs.head ?_, hend, hpoints⟩
    rw [Step, next?_append, if_neg hconflict, List.length_append]
    rfl
  | case4 k points hshort =>
    refine ⟨_, .refl, ?_, rfl⟩
    rcases points with _ | ⟨a, _ | ⟨b, _ | ⟨c, rest⟩⟩⟩
    · simp [next?]
    · simp [next?]
    · simp [next?]
    · exact absurd rfl (hshort a b c rest)

end InTurn

/-- **Conflicts are settled in turn.** Settling by the alternating policy is a pass from the first
    point to the last but one, and what it leaves are the points with as many removed as it took
    turns. On its way every step moves on from two points that do not conflict, and changes
    nothing, or takes the next turn: of two points in conflict one goes, hard ground and soft
    ground being kept alternately.

    The order of the points does not change. The last point is kept, and so is every point of a
    building, the source, the receiver, and any other point that is the only one of its kind. -/
theorem settle_alternate_in_turn (ahead : Point2 α → α) (points : List (SectionPoint α)) :
    (∃ s, InTurn.Reaches (.start points) s ∧ s.next? = none ∧
      s.points = settle .alternate ahead points ∧ s.turns + s.points.length = points.length) ∧
    (∀ s s', InTurn.Reaches (.start points) s → InTurn.Step s s' →
      (s'.turns = s.turns ∧ s'.points = s.points ∧ s'.place = s.place + 1 ∧
        ∃ a b, s.points[s.place]? = some a ∧ s.points[s.place + 1]? = some b ∧
          a.conflicts b = false) ∨
      (s'.turns = s.turns + 1 ∧ Turn s'.turns s.points s'.points)) ∧
    (settle .alternate ahead points).Sublist points ∧
    (settle .alternate ahead points).getLast? = points.getLast? ∧
    (settle .alternate ahead points).filter isBuilding = points.filter isBuilding ∧
    ∀ kind, points.countP (·.kind == kind) ≤ 1 →
      (settle .alternate ahead points).filter (·.kind == kind) =
        points.filter (·.kind == kind) := by
  obtain ⟨s, hreaches, hend, hpoints⟩ := InTurn.exists_reaches 0 [] points
  rw [List.nil_append] at hpoints
  have hlength : s.turns + s.points.length = points.length := by
    simpa using hreaches.turns_add_length
  refine ⟨⟨s, hreaches, hend, hpoints, hlength⟩, fun t t' _ hstep => hstep.cases,
    settle_sublist .alternate ahead points, getLast?_settleInTurn 0 points,
    filter_building_settle .alternate ahead points, fun kind honce => ?_⟩
  have hkept := hreaches.filter_kind honce
  rwa [hpoints] at hkept

/-- A section that meets five walls at one place, on hard ground and on soft. -/
def fiveWalls : List (SectionPoint Float) :=
  [.plain ⟨0, 0, 1⟩ .source 0, .plain ⟨5, 0, 2⟩ .wall 0, .plain ⟨5, 0, 2⟩ .wall 0.5,
    .plain ⟨5, 0, 2⟩ .wall 0.25, .plain ⟨5, 0, 2⟩ .wall 0, .plain ⟨5, 0, 2⟩ .wall 0.75,
    .plain ⟨9, 0, 1⟩ .receiver 0.5]

/-- The first turn keeps the hard wall, the second the soft one, and moves on; the third keeps the
    hard one again. The source and the receiver are kept. -/
theorem settle_alternate_in_turn_fiveWalls :
    settle .alternate (fun _ => 0.5) fiveWalls =
      [.plain ⟨0, 0, 1⟩ .source 0, .plain ⟨5, 0, 2⟩ .wall 0.25, .plain ⟨5, 0, 2⟩ .wall 0,
        .plain ⟨9, 0, 1⟩ .receiver 0.5] ∧
    (∃ s, InTurn.Reaches (.start fiveWalls) s ∧ s.next? = none ∧ s.turns = 3) ∧
    fiveWalls.countP (·.kind == .source) ≤ 1 ∧
    (settle .alternate (fun _ => 0.5) fiveWalls).filter (·.kind == .source) =
      [.plain ⟨0, 0, 1⟩ .source 0] := by
  have hkept : settle .alternate (fun _ => 0.5) fiveWalls =
      [.plain ⟨0, 0, 1⟩ .source 0, .plain ⟨5, 0, 2⟩ .wall 0.25, .plain ⟨5, 0, 2⟩ .wall 0,
        .plain ⟨9, 0, 1⟩ .receiver 0.5] := by
    decide +kernel
  have honce : fiveWalls.countP (·.kind == .source) ≤ 1 := by decide +kernel
  obtain ⟨⟨s, hreaches, hend, hpoints, hturns⟩, -, -, -, -, hkind⟩ :=
    settle_alternate_in_turn (fun _ => 0.5) fiveWalls
  refine ⟨hkept, ⟨s, hreaches, hend, ?_⟩, honce, hkind .source honce⟩
  rw [hpoints, hkept] at hturns
  exact Nat.add_right_cancel hturns

end SectionPoint

end SiteSection
