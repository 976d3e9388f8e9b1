import SiteSection.Proofs.Section.Groups

/-! # Repeats that come back

  Capping leaves no event three times in a row. Settling conflicts comes after it and removes
  points, and what it removes may have stood between points that are the same event. Then they
  are neighbours, and nothing caps them again.

  The theorem at the end says when a profile has an event three times in a row: never without
  a conflict that stood between, and, where conflicts are settled by the ground ahead, exactly
  if some group is left with one.
-/

namespace SiteSection

namespace SectionPoint

variable {α : Type} [Scalar α] {a b c : SectionPoint α}
  {G O front back points : List (SectionPoint α)} {groups : List (List (SectionPoint α))}

/-! ## Triples -/

/-- Three points that are one event, not of a building. -/
def Tripled (a b c : SectionPoint α) : Prop :=
  a.isBuilding = false ∧ a.sameEvent b = true ∧ b.sameEvent c = true

/-- Are there three points in a row that are one event, not of a building? -/
def HasTriple (points : List (SectionPoint α)) : Prop :=
  ∃ a b c, [a, b, c] <:+: points ∧ Tripled a b c

theorem not_hasTriple_of_length (h : points.length ≤ 2) : ¬ HasTriple points := by
  intro ⟨a, b, c, hin, _⟩
  have hlength : 3 ≤ points.length := hin.length_le
  omega

theorem HasTriple.exists_not_building (h : HasTriple points) :
    ∃ a ∈ points, a.isBuilding = false := by
  obtain ⟨a, b, c, hin, ha, _⟩ := h
  exact ⟨a, hin.subset (by simp), ha⟩

/-- One point further: a triple begins with the first point or lies behind it. -/
theorem hasTriple_cons :
    HasTriple (a :: points) ↔
      (∃ b c rest, points = b :: c :: rest ∧ Tripled a b c) ∨ HasTriple points := by
  constructor
  · intro ⟨x, y, z, hin, htriple⟩
    rcases List.infix_cons_iff.mp hin with hfirst | hrest
    · obtain ⟨rfl, rest, hrest⟩ := List.cons_prefix_cons.mp hfirst
      exact .inl ⟨y, z, rest, hrest.symm, htriple⟩
    · exact .inr ⟨x, y, z, hrest, htriple⟩
  · intro h
    rcases h with ⟨b, c, rest, rfl, htriple⟩ | ⟨x, y, z, hin, htriple⟩
    · exact ⟨a, b, c, List.IsPrefix.isInfix ⟨rest, rfl⟩, htriple⟩
    · exact ⟨x, y, z, List.infix_cons hin, htriple⟩

/-- A change of place stands within no triple. -/
theorem hasTriple_append (h : ∀ a ∈ front, ∀ b ∈ back.head?, a.samePlace b = false) :
    HasTriple (front ++ back) ↔ HasTriple front ∨ HasTriple back := by
  induction front with
  | nil => simp [not_hasTriple_of_length]
  | cons x front ih =>
    have ih := ih fun a ha => h a (List.mem_cons_of_mem x ha)
    -- A triple that begins with `x` ends before the change of place.
    have hfirst : (∃ b c rest, front ++ back = b :: c :: rest ∧ Tripled x b c) ↔
        ∃ b c rest, front = b :: c :: rest ∧ Tripled x b c := by
      constructor
      · intro ⟨b, c, rest, hsplit, htriple⟩
        match front with
        | [] =>
          have hxb : x.samePlace b = false := h x List.mem_cons_self b (by
            rw [List.nil_append] at hsplit
            rw [hsplit]
            rfl)
          have hevent := samePlace_of_sameEvent htriple.2.1
          rw [hxb] at hevent
          cases hevent
        | [y] =>
          rw [List.singleton_append, List.cons_eq_cons] at hsplit
          obtain ⟨rfl, hback⟩ := hsplit
          have hyc : y.samePlace c = false := h y (by simp) c (by
            rw [hback]
            rfl)
          have hevent := samePlace_of_sameEvent htriple.2.2
          rw [hyc] at hevent
          cases hevent
        | y :: z :: rest' =>
          simp only [List.cons_append, List.cons_eq_cons] at hsplit
          obtain ⟨rfl, rfl, _⟩ := hsplit
          exact ⟨y, z, rest', rfl, htriple⟩
      · intro ⟨b, c, rest, hfront, htriple⟩
        exact ⟨b, c, rest ++ back, by rw [hfront]; rfl, htriple⟩
    rw [List.cons_append, hasTriple_cons, hfirst, ih, hasTriple_cons, or_assoc]

/-- Where neighbouring groups are at different places, a triple lies in one of them. -/
theorem hasTriple_flatten (hne : [] ∉ groups) (hapart : groups.IsChain Apart) :
    HasTriple groups.flatten ↔ ∃ G ∈ groups, HasTriple G := by
  induction groups with
  | nil => simp [not_hasTriple_of_length]
  | cons G groups ih =>
    rw [List.mem_cons, not_or] at hne
    rw [List.flatten_cons, hasTriple_append (rel_head?_of_isChain hne.2 hapart),
      ih hne.2 hapart.tail, List.exists_mem_cons_iff]

/-! ## Capping leaves no triple -/

section
variable [PartialEquivBEq α]

/-- The points kept last and those kept after them have no triple. -/
theorem not_hasTriple_capAfter {latest : List (SectionPoint α)} (h : latest.length ≤ 2)
    (points : List (SectionPoint α)) :
    ¬ HasTriple (latest.reverse ++ capAfter latest points) := by
  induction points generalizing latest with
  | nil => exact not_hasTriple_of_length (by simpa [capAfter] using h)
  | cons c rest ih =>
    rw [capAfter]
    split
    · exact ih h
    · next hkeep =>
      -- Behind the oldest of `latest` the list is the one of the next step.
      have hnext : ¬ HasTriple ((c :: latest.take 1).reverse ++
          capAfter (c :: latest.take 1) rest) := ih (by simp)
      rcases latest with _ | ⟨b, _ | ⟨a, _ | ⟨_, _⟩⟩⟩
      · exact hnext
      · exact hnext
      · show ¬ HasTriple (a :: b :: c :: capAfter [c, b] rest)
        rw [hasTriple_cons]
        intro htriple
        rcases htriple with ⟨x, y, tail, hsplit, ha, hab, hbc⟩ | htriple
        · simp only [List.cons_eq_cons] at hsplit
          obtain ⟨rfl, rfl, _⟩ := hsplit
          have hkind : c.kind = a.kind :=
            (samePlace_iff.mp (samePlace_of_sameEvent (sameEvent_trans hab hbc))).1.symm
          have hc : c.isBuilding = false := by
            rw [isBuilding, hkind]
            exact ha
          apply hkeep
          simp [repeatsBoth, hc, hbc, sameEvent_trans hab hbc]
        · exact hnext htriple
      · simp at h

/-- Capping leaves no event, other than of buildings, three times in a row. -/
theorem not_hasTriple_capRuns (points : List (SectionPoint α)) :
    ¬ HasTriple (capRuns points) := by
  have hlatest : ([] : List (SectionPoint α)).length ≤ 2 := Nat.zero_le 2
  exact not_hasTriple_capAfter hlatest points

end

/-! ## What stood between -/

/-- A triple among some points of a group that has none: the group has a conflict between two
    of the three points. -/
theorem exists_conflict_between [PartialEquivBEq α]
    (hplace : G.Pairwise fun a b => a.samePlace b = true) (hnone : ¬ HasTriple G)
    (hsub : O.Sublist G) (h : HasTriple O) :
    ∃ a d c, [a, d, c].Sublist G ∧ a.sameEvent c = true ∧ a.conflicts d = true := by
  obtain ⟨a, b, c, hin, ha, hab, hbc⟩ := h
  have hac : a.sameEvent c = true := sameEvent_trans hab hbc
  -- In `G` there may be more between `a` and `c` than `b`.
  obtain ⟨pre, between, post, rfl, hb⟩ :
      ∃ pre between post, G = pre ++ a :: (between ++ c :: post) ∧ b ∈ between := by
    obtain ⟨r₁, r₂, rfl, har, hbcr⟩ := List.cons_sublist_iff.mp (hin.sublist.trans hsub)
    obtain ⟨r₃, r₄, rfl, hbr, hcr⟩ := List.cons_sublist_iff.mp hbcr
    obtain ⟨pre, front, rfl⟩ := List.append_of_mem har
    obtain ⟨back, post, rfl⟩ := List.append_of_mem (List.singleton_sublist.mp hcr)
    exact ⟨pre, front ++ (r₃ ++ back), post, by simp, by simp [hbr]⟩
  by_contra hfree
  have hbetween : ∀ d ∈ between, a.sameEvent d = true := by
    intro d hd
    by_contra hevent
    apply hfree
    refine ⟨a, d, c, ?_, hac, ?_⟩
    · apply List.Sublist.trans _ (List.sublist_append_right pre _)
      apply List.Sublist.cons_cons
      exact (List.singleton_sublist.mpr hd).append
        (List.singleton_sublist.mpr (List.mem_cons_self (l := post)))
    · have hsame : a.samePlace d = true :=
        List.rel_of_pairwise_cons (List.pairwise_append.mp hplace).2.1 (by simp [hd])
      simpa [conflicts, sameEvent, ha, hsame, bne] using hevent
  -- So the first three points from `a` on are one event.
  apply hnone
  cases between with
  | nil => cases hb
  | cons d between =>
    have had := hbetween d (by simp)
    cases between with
    | nil =>
      exact ⟨a, d, c, ⟨pre, post, by simp⟩, ha, had, sameEvent_trans (sameEvent_symm had) hac⟩
    | cons e rest =>
      have hae := hbetween e (by simp)
      exact ⟨a, d, e, ⟨pre, rest ++ c :: post, by simp⟩, ha, had,
        sameEvent_trans (sameEvent_symm had) hae⟩

/-! ## What settling by the ground ahead leaves of a group -/

/-- The points that the next one repeats. -/
def repeated : List (SectionPoint α) → List (SectionPoint α)
  | a :: b :: rest => if a.sameEvent b then a :: repeated (b :: rest) else repeated (b :: rest)
  | _ => []

/-- The points over the ground ahead, or else the last. -/
def winners (ahead : Point2 α → α) (G : List (SectionPoint α)) : List (SectionPoint α) :=
  if G.any (isOver ahead) then G.filter (isOver ahead) else G.getLast?.toList

section
variable {ahead : Point2 α → α}

theorem winners_of_isOver (h : isOver ahead a = true) :
    winners ahead (a :: G) = a :: G.filter (isOver ahead) := by simp [winners, h]

theorem winners_of_not_isOver (h : isOver ahead a = false) :
    winners ahead (a :: b :: G) = winners ahead (b :: G) := by
  simp [winners, h, List.getLast?_cons_cons]

theorem beforeOver_of_isOver (h : isOver ahead a = true) : beforeOver ahead (a :: G) = [] := by
  simp [beforeOver, h]

theorem beforeOver_of_not_isOver (h : isOver ahead a = false) :
    beforeOver ahead (a :: G) = a :: beforeOver ahead G := by simp [beforeOver, h]

/-- **What is left of a group.** Before the first point over the ground ahead those that the
    next one repeats, and then the points over the ground ahead; or else the last point. -/
theorem OnePlace.settleAhead_eq [PartialEquivBEq α] (h : OnePlace ahead G) :
    settleAhead ahead G = repeated (beforeOver ahead G) ++ winners ahead G := by
  induction G using settleAhead_cases ahead with
  | nil => simp [beforeOver, repeated, winners]
  | single a => cases ha : isOver ahead a <;> simp [winners, beforeOver, repeated, ha]
  | pass a b rest hab ih =>
    have hground : (a.ground == b.ground) = true := by
      rw [h.conflicts_eq List.mem_cons_self] at hab
      simpa using hab
    have hevent : a.sameEvent b = true := by rwa [h.sameEvent_eq List.mem_cons_self]
    have hover : isOver ahead a = isOver ahead b :=
      h.isOver_eq List.mem_cons_self (by simp) hground
    rw [settleAhead_pass ahead rest hab, ih h.tail]
    cases ha : isOver ahead a with
    | true =>
      have hb : isOver ahead b = true := hover ▸ ha
      simp [beforeOver_of_isOver, winners_of_isOver, ha, hb, repeated]
    | false =>
      have hb : isOver ahead b = false := hover ▸ ha
      simp [beforeOver_of_not_isOver, winners_of_not_isOver, ha, hb, repeated, hevent]
  | earlier a b rest hab hp ih =>
    have ha : isOver ahead a = true := isOver_of_prevails hp
    have hb : isOver ahead b = false := by
      have hne := h.ahead_eq a List.mem_cons_self b (by simp)
      simp only [prevails, Bool.and_eq_true, bne, Bool.not_eq_true'] at hp
      rw [isOver, ← hne]
      exact hp.2
    rw [settleAhead_earlier ahead rest hab hp,
      ih (h.sublist ((List.sublist_cons_self b rest).cons_cons a))]
    simp [beforeOver_of_isOver, winners_of_isOver, ha, hb]
  | later a b rest hab hp ih =>
    have ha : isOver ahead a = false := isOver_eq_false hab hp
    have hevent : a.sameEvent b = false := by
      rw [h.conflicts_eq List.mem_cons_self] at hab
      rw [h.sameEvent_eq List.mem_cons_self]
      simpa using hab
    rw [settleAhead_later ahead rest hab hp, ih h.tail, winners_of_not_isOver ha,
      beforeOver_of_not_isOver ha]
    cases hb : isOver ahead b with
    | true => simp [beforeOver_of_isOver, hb, repeated]
    | false => simp [beforeOver_of_not_isOver, hb, repeated, hevent]

end

end SectionPoint

/-! ## Triples of a profile -/

namespace Site

variable {α : Type} {g : α}

open SectionPoint in
/-- The groups of a section that are not of buildings: their grounds are defined, and they have
    one ground ahead of them. -/
theorem onePlace_of_mem_capped [Circular α] [LawfulScalar α] {s : Site α} (hs : s.IsSealed)
    {line : Segment α} (hg : Scalar.isNaN g = false) {G : List (SectionPoint α)}
    (hG : G ∈ places (capRuns (s.sectionPoints line g)))
    (hbuilding : ∀ c ∈ G, c.isBuilding = false) : OnePlace (s.groundAhead line g) G := by
  have hregions : ∀ r ∈ s.regions, Scalar.isNaN r.coefficient = false := fun r hr =>
    LawfulScalar.isNaN_of_isFinite (hs.finiteGround r hr)
  have hahead : ∀ a b : SectionPoint α, a.samePlace b = true →
      s.groundAhead line g a.position.plan = s.groundAhead line g b.position.plan :=
    fun a b hab => s.groundAhead_alike (Point2.alike_of_beq (samePlace_iff.mp hab).2) _ g
  apply onePlace_of_mem_places _ hahead hG hbuilding
  intro c hc
  exact LawfulScalar.beq_self
    (s.isNaN_ground_of_mem hregions hg ((capRuns_sublist _).subset hc))

open SectionPoint in
/-- **Triple duplicates.** After capping no event, other than of buildings, stands three times
    in a row. Whatever the policy, a triple of the profile is one of what is left of some group
    of neighbours at one place, and two points of that group that are one event had a conflict
    between them. Where conflicts are settled by the ground ahead, there is a triple exactly if
    the repeats before the first point over the ground ahead, and the points over it, make
    one in some group. -/
theorem triples_left_iff [Circular α] [LawfulScalar α] (s : Site α) (hs : s.IsSealed)
    (source receiver : Point3 α) (hg : Scalar.isNaN g = false) :
    let ahead := s.groundAhead ⟨source, receiver⟩ g
    let capped := capRuns (s.sectionPoints ⟨source, receiver⟩ g)
    let points := (s.profile source receiver g).points
    ¬ HasTriple capped ∧
    (HasTriple points ↔
      ∃ O ∈ settleGroups s.settings.policy ahead 0 (places capped), HasTriple O) ∧
    (HasTriple points → ∃ G ∈ places capped, ∃ a d c, [a, d, c].Sublist G ∧
      a.sameEvent c = true ∧ a.conflicts d = true) ∧
    (s.settings.policy = .groundAhead → (HasTriple points ↔
      ∃ G ∈ places capped, (∀ c ∈ G, c.isBuilding = false) ∧
        HasTriple (repeated (beforeOver ahead G) ++ winners ahead G))) := by
  intro ahead capped points
  have hcapped : ¬ HasTriple capped := not_hasTriple_capRuns _
  have hgroups : places capped =
      (places (s.sectionPoints ⟨source, receiver⟩ g)).map capRuns := places_capRuns _
  have hleft : HasTriple points ↔
      ∃ O ∈ settleGroups s.settings.policy ahead 0 (places capped), HasTriple O := by
    have hpoints : points =
        (settleGroups s.settings.policy ahead 0 (places capped)).flatten := by
      rw [hgroups]
      exact s.points_eq_flatten source receiver g
    have hne : [] ∉ settleGroups s.settings.policy ahead 0 (places capped) := by
      intro hnil
      obtain ⟨G, hG, k, hO⟩ := mem_settleGroups hnil
      exact settleGroup_ne_nil _ _ k (List.ne_nil_of_mem_splitBy hG) hO.symm
    rw [hpoints]
    exact hasTriple_flatten hne (isChain_apart_settleGroups _ _ 0 (isChain_apart capped))
  refine ⟨hcapped, hleft, ?_, ?_⟩
  · intro htriple
    obtain ⟨O, hO, htriple⟩ := hleft.mp htriple
    obtain ⟨G, hG, k, rfl⟩ := mem_settleGroups hO
    -- The group itself has no triple: it is a part of what capping left.
    have hnone : ¬ HasTriple G := by
      intro hG'
      apply hcapped
      have hflatten : capped = (places capped).flatten := by
        rw [places, List.flatten_splitBy]
      rw [hflatten]
      exact (hasTriple_flatten (List.nil_notMem_splitBy _ _) (isChain_apart capped)).mpr
        ⟨G, hG, hG'⟩
    exact ⟨G, hG, exists_conflict_between (pairwise_of_mem_places hG) hnone
      (settleGroup_sublist _ _ k G) htriple⟩
  · intro hpolicy
    rw [hleft, hpolicy, settleGroups_groundAhead]
    constructor
    · rintro ⟨O, hO, htriple⟩
      obtain ⟨G, hG, rfl⟩ := List.mem_map.mp hO
      -- A group has one kind, so no point of this one is of a building.
      obtain ⟨a, ha, hkind⟩ := htriple.exists_not_building
      have hbuilding : ∀ c ∈ G, c.isBuilding = false := by
        intro c hc
        rcases eq_or_samePlace hG hc ((settleAhead_sublist ahead G).subset ha) with rfl | hca
        · exact hkind
        · rw [isBuilding, (samePlace_iff.mp hca).1]
          exact hkind
      have hone : OnePlace ahead G := onePlace_of_mem_capped hs hg hG hbuilding
      exact ⟨G, hG, hbuilding, hone.settleAhead_eq ▸ htriple⟩
    · rintro ⟨G, hG, hbuilding, htriple⟩
      have hone : OnePlace ahead G := onePlace_of_mem_capped hs hg hG hbuilding
      exact ⟨settleAhead ahead G, List.mem_map_of_mem hG, hone.settleAhead_eq ▸ htriple⟩

/-! ## Four walls through one place

  The third wall has another ground than the others, so capping leaves all four of them, and
  settling removes it from between them. -/

/-- Four walls that cross at one place, and four regions away from it. -/
def fourWalls : Site Float :=
  ((Draft.empty Settings.default).afterAll
    [.wall [⟨10, -10, 0⟩, ⟨10, 10, 0⟩] 4 [] 1,
     .wall [⟨0, -10, 0⟩, ⟨20, 10, 0⟩] 4 [] 2,
     .wall [⟨20, -10, 0⟩, ⟨0, 10, 0⟩] 4 [] 3,
     .wall [⟨5, -10, 0⟩, ⟨15, 10, 0⟩] 4 [] 4,
     .rectangle ⟨200, 200⟩ ⟨210, 210⟩ 0.25,
     .rectangle ⟨220, 200⟩ ⟨230, 210⟩ 0.25,
     .rectangle ⟨240, 200⟩ ⟨250, 210⟩ 0.75,
     .rectangle ⟨260, 200⟩ ⟨270, 210⟩ 0.25]).siteOver none

/-- Where the line crosses the four walls. -/
def fourCrossings : List (SectionPoint Float) :=
  [crossedWall 0 0.25, crossedWall 1 0.25, crossedWall 2 0.75, crossedWall 3 0.25]

theorem alongPieces_fourWalls :
    fourWalls.alongPieces fourWalls.boundaryIndex acrossWalls = [0, 1, 2, 3] := by
  have hquery : (acrossWalls.split fourWalls.settings.pieceLength).flatMap
      (fun piece => fourWalls.boundaryIndex.query piece.box) = [0, 1, 2, 3] := by
    decide +kernel
  rw [alongPieces, hquery, sortedOnce_of_pairwise (by decide)]

theorem sortAlong_fourWalls :
    sortAlong acrossWalls (fourWalls.collected acrossWalls 0.25) = fourCrossings := by
  have hcollected : fourWalls.collected acrossWalls 0.25 = fourCrossings := by
    rw [collected, crossings, alongPieces_fourWalls]
    decide +kernel
  rw [hcollected]
  exact List.mergeSort_of_pairwise (by decide +kernel)

/-- The profile across the four walls has three points that are one event. -/
theorem triples_left_fourWalls :
    fourWalls.IsSealed ∧ fourWalls.settings.policy = .groundAhead ∧
    Scalar.isNaN (0.25 : Float) = false ∧
    SectionPoint.HasTriple
      (fourWalls.profile acrossWalls.p0 acrossWalls.p1 0.25).points := by
  have hsealed : fourWalls.IsSealed := ⟨_, _, none, rfl⟩
  have hpolicy : fourWalls.settings.policy = .groundAhead := by decide +kernel
  have hdefined : Scalar.isNaN (0.25 : Float) = false := by decide +kernel
  have hgroup : (SectionPoint.places
      (SectionPoint.capRuns (fourWalls.sectionPoints acrossWalls 0.25)))[1]? =
        some fourCrossings := by
    rw [sectionPoints, interior, sortAlong_fourWalls]
    decide +kernel
  -- The first wall is over the ground ahead, and so are the second and the fourth.
  have hleft : SectionPoint.repeated (SectionPoint.beforeOver
      (fourWalls.groundAhead acrossWalls 0.25) fourCrossings) ++
      SectionPoint.winners (fourWalls.groundAhead acrossWalls 0.25) fourCrossings =
        [crossedWall 0 0.25, crossedWall 1 0.25, crossedWall 3 0.25] := by decide +kernel
  have hiff := (fourWalls.triples_left_iff hsealed acrossWalls.p0 acrossWalls.p1
    hdefined).2.2.2 hpolicy
  refine ⟨hsealed, hpolicy, hdefined,
    hiff.mpr ⟨fourCrossings, List.mem_of_getElem? hgroup, ?_, ?_⟩⟩
  · decide +kernel
  · rw [hleft]
    refine ⟨crossedWall 0 0.25, crossedWall 1 0.25, crossedWall 3 0.25, List.infix_rfl, ?_⟩
    exact ⟨by decide +kernel, by decide +kernel, by decide +kernel⟩

end Site

end SiteSection
