import SiteSection.Proofs.Section.Conflicts

/-! # Clean-up place by place

  Both passes of the clean-up work on one group of neighbours at one place after the other.
  Capping has no memory that reaches over a change of place. Settling in turn has one: the
  number of conflicts settled so far. So a group is settled from a count, and what is known of
  it in the end is what is left of its points and the count to go on with.

  The theorem at the end puts this together for the points before a last one of a kind of its
  own, as the receiver is.
-/

namespace SiteSection

namespace SectionPoint

variable {α : Type} [Scalar α] {a b c r : SectionPoint α}
  {G front back points : List (SectionPoint α)} {groups : List (List (SectionPoint α))}

/-! ## Capping -/

/-- The first point is kept. -/
theorem capRuns_cons (a : SectionPoint α) (rest : List (SectionPoint α)) :
    capRuns (a :: rest) = a :: capAfter [a] rest := by
  simp [capRuns, capAfter, repeatsBoth]

@[simp] theorem capRuns_singleton (a : SectionPoint α) : capRuns [a] = [a] := capRuns_cons a []

theorem capRuns_ne_nil (h : G ≠ []) : capRuns G ≠ [] := by
  cases G with
  | nil => exact absurd rfl h
  | cons a G => simp [capRuns_cons]

/-- Building points are all kept. -/
theorem capAfter_of_building (latest : List (SectionPoint α))
    (h : ∀ c ∈ points, c.isBuilding = true) : capAfter latest points = points := by
  induction points generalizing latest with
  | nil => rfl
  | cons c rest ih =>
    have hc : c.isBuilding = true := h c List.mem_cons_self
    have hrest : ∀ d ∈ rest, d.isBuilding = true := fun d hd => h d (List.mem_cons_of_mem c hd)
    rw [capAfter]
    simp [hc, ih _ hrest]

/-- What repeats the last two points is all dropped. -/
theorem capAfter_of_repeats {latest : List (SectionPoint α)}
    (h : ∀ c ∈ points, c.isBuilding = false ∧ repeatsBoth latest c = true) :
    capAfter latest points = [] := by
  induction points with
  | nil => rfl
  | cons c rest ih =>
    have hc := h c List.mem_cons_self
    have hdrop : (!c.isBuilding && repeatsBoth latest c) = true := by simp [hc]
    rw [capAfter, if_pos hdrop]
    exact ih fun d hd => h d (List.mem_cons_of_mem c hd)

/-- Of points that are one event the first two are kept. -/
theorem capRuns_of_repeats (hevent : G.Pairwise fun a b => a.sameEvent b = true)
    (hkind : ∀ c ∈ G, c.isBuilding = false) : capRuns G = G.take 2 := by
  rcases G with _ | ⟨a, _ | ⟨b, rest⟩⟩
  · rfl
  · simp
  · have hrest : capAfter [b, a] rest = [] := by
      apply capAfter_of_repeats
      intro c hc
      have hac : a.sameEvent c = true := List.rel_of_pairwise_cons hevent (by simp [hc])
      have hbc : b.sameEvent c = true := List.rel_of_pairwise_cons hevent.of_cons hc
      exact ⟨hkind c (by simp [hc]), by simp [repeatsBoth, hbc, hac]⟩
    rw [capRuns_cons, capAfter]
    simp [repeatsBoth, hrest]

/-- No point of one list is the same event as a point of the other. -/
def Differ (G H : List (SectionPoint α)) : Prop := ∀ a ∈ G, ∀ b ∈ H, a.sameEvent b = false

theorem Apart.differ {H : List (SectionPoint α)} (h : Apart G H) : Differ G H :=
  fun a ha b hb => sameEvent_of_not_samePlace (h a ha b hb)

section
variable [PartialEquivBEq α]

/-- What was kept of other events is as good as nothing: no point repeats it. -/
theorem capAfter_of_differ {latest : List (SectionPoint α)}
    (h : ∀ a ∈ latest, ∀ b ∈ points.head?, a.sameEvent b = false) :
    capAfter latest points = capRuns points := by
  match points, latest with
  | [], _ => rfl
  | b :: rest, [] => rfl
  | b :: rest, x :: latest =>
    have hxb : x.sameEvent b = false := h x List.mem_cons_self b rfl
    have hkeep : repeatsBoth (x :: latest) b = false := by
      cases latest with
      | nil => rfl
      | cons y latest => simp [repeatsBoth, hxb]
    -- The point after `b` may not repeat both `b` and `x`: they are different events.
    have hnext : capAfter [b, x] rest = capAfter [b] rest := by
      cases rest with
      | nil => rfl
      | cons c rest =>
        have hboth : (b.sameEvent c && x.sameEvent c) = false := by
          refine Bool.eq_false_iff.mpr fun hbc => Bool.eq_false_iff.mp hxb ?_
          rw [Bool.and_eq_true] at hbc
          exact sameEvent_trans hbc.2 (sameEvent_symm hbc.1)
        simp [capAfter, repeatsBoth, hboth]
    rw [capRuns_cons, capAfter, hkeep]
    simp [hnext]

theorem capAfter_append {latest : List (SectionPoint α)}
    (h : ∀ a ∈ latest ++ front, ∀ b ∈ back.head?, a.sameEvent b = false) :
    capAfter latest (front ++ back) = capAfter latest front ++ capRuns back := by
  induction front generalizing latest with
  | nil => exact capAfter_of_differ (by simpa using h)
  | cons c front ih =>
    have hskip : ∀ a ∈ latest ++ front, ∀ b ∈ back.head?, a.sameEvent b = false := by
      intro a ha
      exact h a (by rcases List.mem_append.mp ha with ha | ha <;> simp [ha])
    have hkeep : ∀ a ∈ (c :: latest.take 1) ++ front, ∀ b ∈ back.head?,
        a.sameEvent b = false := by
      intro a ha
      apply h a
      simp only [List.cons_append, List.mem_cons, List.mem_append] at ha ⊢
      rcases ha with rfl | ha | ha
      · exact .inr (.inl rfl)
      · exact .inl (List.mem_of_mem_take ha)
      · exact .inr (.inr ha)
    rw [List.cons_append, capAfter, capAfter]
    split
    · exact ih hskip
    · rw [ih hkeep, List.cons_append]

/-- Two parts of a list are capped separately if no point of the first is the event that the
    second begins with. -/
theorem capRuns_append (h : ∀ a ∈ front, ∀ b ∈ back.head?, a.sameEvent b = false) :
    capRuns (front ++ back) = capRuns front ++ capRuns back := by
  show capAfter [] (front ++ back) = capAfter [] front ++ capRuns back
  exact capAfter_append h

theorem capRuns_flatten (hne : [] ∉ groups) (hdiffer : groups.IsChain Differ) :
    capRuns groups.flatten = (groups.map capRuns).flatten := by
  induction groups with
  | nil => rfl
  | cons G groups ih =>
    rw [List.mem_cons, not_or] at hne
    rw [List.flatten_cons, List.map_cons, List.flatten_cons, ← ih hne.2 hdiffer.tail]
    exact capRuns_append (rel_head?_of_isChain hne.2 hdiffer)

/-- Capping leaves the groups what they are, each of them capped. -/
theorem places_capRuns (points : List (SectionPoint α)) :
    places (capRuns points) = (places points).map capRuns := by
  have hne : [] ∉ places points := List.nil_notMem_splitBy _ _
  have hdiffer : (places points).IsChain Differ := (isChain_apart points).imp fun _ _ h => h.differ
  have hflatten : capRuns points = ((places points).map capRuns).flatten := by
    rw [← capRuns_flatten hne hdiffer, places, List.flatten_splitBy]
  rw [hflatten]
  exact splitBy_flatten_map capRuns_sublist fun _ => capRuns_ne_nil

end

/-! ## Settling in turn -/

/-- Conflicts settled in turn, after `k` earlier ones, among points that all take part: what
    is left, and how many conflicts are settled then. -/
def settleTurns : Nat → List (SectionPoint α) → List (SectionPoint α) × Nat
  | k, a :: b :: rest =>
    if a.conflicts b then
      if (k % 2 == 0) == (a.ground == 0) then settleTurns (k + 1) (a :: rest)
      else (b :: (settleTurns (k + 1) rest).1, (settleTurns (k + 1) rest).2)
    else (a :: (settleTurns k (b :: rest)).1, (settleTurns k (b :: rest)).2)
  | k, points => (points, k)
termination_by _ points => points.length

@[simp] theorem settleTurns_nil (k : Nat) :
    settleTurns k ([] : List (SectionPoint α)) = ([], k) := by simp [settleTurns]

@[simp] theorem settleTurns_singleton (k : Nat) (a : SectionPoint α) :
    settleTurns k [a] = ([a], k) := by simp [settleTurns]

theorem settleTurns_sublist (k : Nat) (points : List (SectionPoint α)) :
    (settleTurns k points).1.Sublist points := by
  fun_induction settleTurns k points with
  | case1 k a b rest _ _ ih => exact ih.trans ((List.Sublist.refl rest).cons b |>.cons_cons a)
  | case2 k a b rest _ _ ih => exact (ih.cons_cons b).cons a
  | case3 k a b rest _ ih => exact ih.cons_cons a
  | case4 => exact List.Sublist.refl _

theorem settleTurns_ne_nil (k : Nat) (h : points ≠ []) : (settleTurns k points).1 ≠ [] := by
  fun_induction settleTurns k points with
  | case1 k a b rest _ _ ih => exact ih (List.cons_ne_nil a rest)
  | case2 k a b rest _ _ ih => exact List.cons_ne_nil _ _
  | case3 k a b rest _ ih => exact List.cons_ne_nil _ _
  | case4 => exact h

/-- Points without conflict are left as they are. -/
theorem settleTurns_of_isChain (k : Nat) (h : points.IsChain fun a b => a.conflicts b = false) :
    settleTurns k points = (points, k) := by
  fun_induction settleTurns k points with
  | case1 k a b rest hab _ ih =>
    rw [(List.isChain_cons_cons.mp h).1] at hab
    cases hab
  | case2 k a b rest hab _ ih =>
    rw [(List.isChain_cons_cons.mp h).1] at hab
    cases hab
  | case3 k a b rest _ ih => rw [ih h.tail]
  | case4 => rfl

/-- Up to a change of place settling in turn is settling of all points, and it goes on with
    the count that this leaves. -/
theorem settleInTurn_append (k : Nat) (h : ∀ a ∈ front, a.samePlace r = false) :
    settleInTurn k (front ++ r :: back) =
      (settleTurns k front).1 ++ settleInTurn (settleTurns k front).2 (r :: back) := by
  fun_induction settleTurns k front with
  | case1 k a b rest hab hkeep ih =>
    -- Behind `b` there is `r` at least, so the conflict is settled.
    obtain ⟨c, tail, hc⟩ := List.exists_cons_of_ne_nil (by simp : rest ++ r :: back ≠ [])
    have ih := ih fun d hd => h d (by rcases List.mem_cons.mp hd with rfl | hd <;> simp [*])
    rw [← ih, List.cons_append, List.cons_append, List.cons_append, hc, settleInTurn]
    simp [hab, hkeep]
  | case2 k a b rest hab hkeep ih =>
    obtain ⟨c, tail, hc⟩ := List.exists_cons_of_ne_nil (by simp : rest ++ r :: back ≠ [])
    have ih := ih fun d hd => h d (by simp [hd])
    rw [List.cons_append, List.cons_append, List.cons_append, ← ih, hc, settleInTurn]
    simp [hab, hkeep]
  | case3 k a b rest hab ih =>
    obtain ⟨c, tail, hc⟩ := List.exists_cons_of_ne_nil (by simp : rest ++ r :: back ≠ [])
    have ih := ih fun d hd => h d (List.mem_cons_of_mem a hd)
    rw [List.cons_append, List.cons_append, List.cons_append, ← ih, List.cons_append, hc,
      settleInTurn]
    simp [hab]
  | case4 k front hshort =>
    rcases front with _ | ⟨a, _ | ⟨b, rest⟩⟩
    · rfl
    · have har : a.conflicts r = false := conflicts_of_not_samePlace (h a List.mem_cons_self)
      cases back with
      | nil => simp [settleInTurn]
      | cons c back =>
        rw [List.singleton_append, settleInTurn]
        simp [har]
    · exact absurd rfl (hshort a b rest)

/-! ## Settling -/

/-- What is left of a group of points, and how many conflicts are settled by then, if `k` were
    settled before. Only settling in turn counts. -/
def settleGroup (policy : ConflictPolicy) (ahead : Point2 α → α) (k : Nat)
    (G : List (SectionPoint α)) : List (SectionPoint α) × Nat :=
  match policy with
  | .groundAhead => (settleAhead ahead G, k)
  | .alternate => settleTurns k G

/-- What is left of some groups, one settled after the other. -/
def settleGroups (policy : ConflictPolicy) (ahead : Point2 α → α) :
    Nat → List (List (SectionPoint α)) → List (List (SectionPoint α))
  | _, [] => []
  | k, G :: groups =>
    (settleGroup policy ahead k G).1 ::
      settleGroups policy ahead (settleGroup policy ahead k G).2 groups

/-- Settling by the ground ahead needs no count. -/
theorem settleGroups_groundAhead (ahead : Point2 α → α) (k : Nat)
    (groups : List (List (SectionPoint α))) :
    settleGroups .groundAhead ahead k groups = groups.map (settleAhead ahead) := by
  induction groups generalizing k with
  | nil => rfl
  | cons G groups ih => rw [settleGroups, settleGroup, ih, List.map_cons]

section
variable (policy : ConflictPolicy) (ahead : Point2 α → α)

theorem settleGroup_sublist (k : Nat) (G : List (SectionPoint α)) :
    (settleGroup policy ahead k G).1.Sublist G := by
  cases policy with
  | groundAhead => exact settleAhead_sublist ahead G
  | alternate => exact settleTurns_sublist k G

theorem settleGroup_ne_nil (k : Nat) (h : G ≠ []) : (settleGroup policy ahead k G).1 ≠ [] := by
  cases policy with
  | groundAhead => exact settleAhead_ne_nil h
  | alternate => exact settleTurns_ne_nil k h

/-- A group without conflict is left as it is, and counts nothing. -/
theorem settleGroup_of_isChain (k : Nat) (h : G.IsChain fun a b => a.conflicts b = false) :
    settleGroup policy ahead k G = (G, k) := by
  cases policy with
  | groundAhead =>
    have hkept : settleAhead ahead G = G := by
      induction G using settleAhead_cases ahead with
      | nil => simp
      | single a => simp
      | pass a b rest hab ih => rw [settleAhead_pass ahead rest hab, ih h.tail]
      | earlier a b rest hab =>
        rw [(List.isChain_cons_cons.mp h).1] at hab
        cases hab
      | later a b rest hab =>
        rw [(List.isChain_cons_cons.mp h).1] at hab
        cases hab
    rw [settleGroup, hkept]
  | alternate => exact settleTurns_of_isChain k h

/-- The groups are settled one after the other if neighbouring ones are at different places,
    and a last point of a kind of its own stays. -/
theorem settle_flatten_concat (hne : [] ∉ groups) (hapart : groups.IsChain Apart)
    (hr : ∀ a ∈ groups.flatten, a.kind ≠ r.kind) :
    settle policy ahead (groups.flatten ++ [r]) =
      (settleGroups policy ahead 0 groups).flatten ++ [r] := by
  cases policy with
  | groundAhead =>
    have hlast : settleAhead ahead (groups.flatten ++ [r]) =
        settleAhead ahead groups.flatten ++ settleAhead ahead [r] := by
      refine settleAhead_append ahead fun a ha b hb => ?_
      rw [← Option.some.inj hb]
      exact samePlace_of_kind_ne (hr a ha)
    rw [settle, hlast, settleAhead_flatten hne hapart, settleGroups_groundAhead,
      settleAhead_singleton, List.flatMap_def]
  | alternate =>
    rw [settle]
    generalize 0 = k
    -- The count so far takes part in the induction over the groups.
    induction groups generalizing k with
    | nil => simp [settleGroups, settleInTurn]
    | cons G groups ih =>
      rw [List.mem_cons, not_or] at hne
      rw [settleGroups, List.flatten_cons, List.flatten_cons, List.append_assoc,
        List.append_assoc,
        ← ih hne.2 hapart.tail (fun a ha => hr a (by simp only [List.flatten_cons,
          List.mem_append, ha, or_true]))]
      -- What follows the group is the next group or the last point.
      obtain ⟨d, tail, hd⟩ := List.exists_cons_of_ne_nil (by simp : groups.flatten ++ [r] ≠ [])
      rw [hd]
      apply settleInTurn_append
      intro a ha
      cases hhead : groups.flatten with
      | nil =>
        rw [hhead, List.nil_append, List.cons_eq_cons] at hd
        rw [← hd.1]
        exact samePlace_of_kind_ne (hr a (by simp [ha]))
      | cons e rest =>
        rw [hhead, List.cons_append, List.cons_eq_cons] at hd
        rw [← hd.1]
        exact rel_head?_of_isChain hne.2 hapart a ha e (by simp [hhead])

variable {policy ahead} in
theorem mem_settleGroups {k : Nat} {O : List (SectionPoint α)}
    (h : O ∈ settleGroups policy ahead k groups) :
    ∃ G ∈ groups, ∃ k, O = (settleGroup policy ahead k G).1 := by
  induction groups generalizing k with
  | nil => cases h
  | cons G groups ih =>
    rcases List.mem_cons.mp h with rfl | h
    · exact ⟨G, List.mem_cons_self, k, rfl⟩
    · obtain ⟨H, hH, k', hO⟩ := ih h
      exact ⟨H, List.mem_cons_of_mem G hH, k', hO⟩

/-- What is left of neighbouring groups is at different places. -/
theorem isChain_apart_settleGroups (k : Nat) (hapart : groups.IsChain Apart) :
    (settleGroups policy ahead k groups).IsChain Apart := by
  induction groups generalizing k with
  | nil => exact .nil
  | cons G groups ih =>
    cases groups with
    | nil => exact .singleton _
    | cons H groups =>
      have hGH := (List.isChain_cons_cons.mp hapart).1
      refine List.isChain_cons_cons.mpr ⟨fun a ha b hb => ?_, ih _ hapart.tail⟩
      exact hGH a ((settleGroup_sublist policy ahead _ G).subset ha) b
        ((settleGroup_sublist policy ahead _ H).subset hb)

/-- A last group of one point stays as it is. -/
theorem settleGroups_concat (k : Nat) :
    settleGroups policy ahead k (groups ++ [[r]]) =
      settleGroups policy ahead k groups ++ [[r]] := by
  induction groups generalizing k with
  | nil => cases policy <;> simp [settleGroups, settleGroup]
  | cons G groups ih => rw [List.cons_append, settleGroups, settleGroups, ih, List.cons_append]

end

/-- A last point of a kind of its own is a group of its own. -/
theorem places_concat (hr : ∀ a ∈ points, a.kind ≠ r.kind) :
    places (points ++ [r]) = places points ++ [[r]] := by
  have hflatten : points ++ [r] = (places points ++ [[r]]).flatten := by
    simp [places, List.flatten_splitBy]
  rw [hflatten]
  apply List.splitBy_flatten
  · simp [places, List.nil_notMem_splitBy]
  · intro G hG
    rcases List.mem_append.mp hG with hG | hG
    · exact List.isChain_of_mem_splitBy hG
    · rw [List.mem_singleton.mp hG]
      exact .singleton r
  · refine List.isChain_append.mpr
      ⟨List.isChain_getLast_head_splitBy samePlace points, .singleton _, ?_⟩
    intro G hG H hH
    rw [← Option.some.inj hH]
    have hmem : G ∈ places points := List.mem_of_getLast? hG
    have hne : G ≠ [] := List.ne_nil_of_mem_splitBy hmem
    exact ⟨hne, List.cons_ne_nil r [], samePlace_of_kind_ne
      (hr _ ((sublist_of_mem_places hmem).subset (List.getLast_mem hne)))⟩

section
variable [PartialEquivBEq α]

/-- **Clean-up place by place.** Points that end with one of a kind of its own are capped and
    settled group by group. -/
theorem settle_capRuns_concat (policy : ConflictPolicy) (ahead : Point2 α → α)
    (hr : ∀ a ∈ points, a.kind ≠ r.kind) :
    settle policy ahead (capRuns (points ++ [r])) =
      (settleGroups policy ahead 0 ((places (points ++ [r])).map capRuns)).flatten := by
  have hlast : capRuns (points ++ [r]) = capRuns points ++ capRuns [r] := by
    refine capRuns_append fun a ha b hb => ?_
    rw [← Option.some.inj hb]
    exact sameEvent_of_kind_ne (hr a ha)
  have hgroups : capRuns points = (places (capRuns points)).flatten := by
    rw [places, List.flatten_splitBy]
  have hkind : ∀ a ∈ (places (capRuns points)).flatten, a.kind ≠ r.kind := by
    intro a ha
    rw [← hgroups] at ha
    exact hr a ((capRuns_sublist points).subset ha)
  have hne : [] ∉ places (capRuns points) := List.nil_notMem_splitBy _ _
  have hsettle := settle_flatten_concat policy ahead hne (isChain_apart (capRuns points)) hkind
  rw [← hgroups] at hsettle
  rw [hlast, capRuns_singleton, hsettle, places_concat hr, List.map_append, ← places_capRuns,
    List.map_singleton, capRuns_singleton, settleGroups_concat, List.flatten_concat]

end

end SectionPoint

/-- The points of a profile are those of the section, cleaned up place by place. -/
theorem Site.points_eq_flatten {α : Type} [Scalar α] [PartialEquivBEq α] (s : Site α)
    (source receiver : Point3 α) (g : α) :
    (s.profile source receiver g).points =
      (SectionPoint.settleGroups s.settings.policy (s.groundAhead ⟨source, receiver⟩ g) 0
        ((SectionPoint.places (s.sectionPoints ⟨source, receiver⟩ g)).map
          SectionPoint.capRuns)).flatten := by
  simp only [profile, anchor_sectionPoints]
  have hlist : s.sectionPoints ⟨source, receiver⟩ g =
      (s.sourcePoint source g :: s.interior ⟨source, receiver⟩ g) ++
        [s.receiverPoint receiver g] := rfl
  rw [hlist]
  apply SectionPoint.settle_capRuns_concat
  intro a ha
  rcases List.mem_cons.mp ha with rfl | ha
  · simp [sourcePoint, receiverPoint]
  · exact (s.kind_of_mem_interior ha).2

end SiteSection
