import SiteSection.Proofs.Numbers.Double
import SiteSection.Proofs.Section.Ends
import SiteSection.Proofs.Section.Neighbours
import SiteSection.Proofs.Site.Sealed
import SiteSection.Proofs.Site.SamePlace

/-! # Conflicts that remain

  Settling by the ground ahead looks at two neighbours at a time and never looks back. In a
  group of points at one place the point over the ground ahead wins, or else the last one;
  but a point that its neighbour repeats is passed over, and if that happens before the winner
  is reached, it stays beside it.

  The theorem at the end says exactly when: a profile is left with a conflict if and only if
  some group of its points strands one.
-/

namespace SiteSection

namespace SectionPoint

variable {α : Type} [Scalar α] (ahead : Point2 α → α)

/-! ## Winners -/

/-- Is the point over the ground ahead of its place? -/
def isOver (c : SectionPoint α) : Bool := c.ground == ahead c.position.plan

/-- The points of a group before the first that is over the ground ahead. -/
def beforeOver (G : List (SectionPoint α)) : List (SectionPoint α) :=
  G.takeWhile fun c => !isOver ahead c

/-- The point whose ground settles a group: the first over the ground ahead, or else the
    last. -/
def winner? (G : List (SectionPoint α)) : Option (SectionPoint α) :=
  (G.find? (isOver ahead)).or G.getLast?

/-- A group strands a point if, before any is over the ground ahead, two neighbours are the
    same event and conflict with the winner. -/
def Stranded (G : List (SectionPoint α)) : Prop :=
  ∃ c d w, [c, d] <:+: beforeOver ahead G ∧ c.sameEvent d = true ∧
    winner? ahead G = some w ∧ c.conflicts w = true

section
variable {ahead} {a b w : SectionPoint α} {G : List (SectionPoint α)}

theorem winner?_of_isOver (h : isOver ahead a = true) : winner? ahead (a :: G) = some a := by
  simp [winner?, h]

theorem winner?_of_not_isOver (h : isOver ahead a = false) :
    winner? ahead (a :: b :: G) = winner? ahead (b :: G) := by
  rw [winner?, winner?, List.find?_cons, h, List.getLast?_cons_cons]

theorem mem_of_winner?_eq_some (h : winner? ahead G = some w) : w ∈ G := by
  rw [winner?, Option.or_eq_some_iff] at h
  rcases h with h | ⟨_, h⟩
  · exact List.mem_of_find?_eq_some h
  · exact List.mem_of_getLast? h

theorem exists_winner? (a : SectionPoint α) (G : List (SectionPoint α)) :
    ∃ w, winner? ahead (a :: G) = some w := by
  rw [winner?]
  cases List.find? (isOver ahead) (a :: G) with
  | some w => exact ⟨w, rfl⟩
  | none => exact ⟨_, List.getLast?_cons⟩

theorem isOver_of_prevails (h : prevails ahead a b = true) : isOver ahead a = true := by
  simp only [prevails, Bool.and_eq_true] at h
  exact h.1

theorem not_stranded_of_isOver (h : isOver ahead a = true) : ¬ Stranded ahead (a :: G) := by
  rintro ⟨c, d, w, hpair, _⟩
  simp [beforeOver, h] at hpair

/-- One point further: a group strands its first point or one of the others. -/
theorem stranded_cons_cons (h : isOver ahead a = false) :
    Stranded ahead (a :: b :: G) ↔
      (isOver ahead b = false ∧ a.sameEvent b = true ∧
        ∃ w, winner? ahead (b :: G) = some w ∧ a.conflicts w = true) ∨
      Stranded ahead (b :: G) := by
  have hbefore : beforeOver ahead (a :: b :: G) = a :: beforeOver ahead (b :: G) := by
    simp [beforeOver, h]
  have hpair : ∀ c d, [c, d] <:+: beforeOver ahead (a :: b :: G) ↔
      (c = a ∧ d = b ∧ isOver ahead b = false) ∨ [c, d] <:+: beforeOver ahead (b :: G) := by
    intro c d
    rw [hbefore, List.infix_cons_iff, List.cons_prefix_cons]
    cases hb : isOver ahead b <;> simp [beforeOver, hb]
  simp only [Stranded, hpair, winner?_of_not_isOver h]
  constructor
  · rintro ⟨c, d, w, ⟨rfl, rfl, hb⟩ | hin, hevent, hw, hconflict⟩
    · exact .inl ⟨hb, hevent, w, hw, hconflict⟩
    · exact .inr ⟨c, d, w, hin, hevent, hw, hconflict⟩
  · rintro (⟨hb, hevent, w, hw, hconflict⟩ | ⟨c, d, w, hin, hevent, hw, hconflict⟩)
    · exact ⟨a, b, w, .inl ⟨rfl, rfl, hb⟩, hevent, hw, hconflict⟩
    · exact ⟨c, d, w, .inr hin, hevent, hw, hconflict⟩

end

/-! ## One place -/

/-- Points at one place, not of buildings, with grounds that are defined and one ground
    ahead of them. -/
structure OnePlace (G : List (SectionPoint α)) : Prop where
  /-- The points are at one place. -/
  samePlace : G.Pairwise fun a b => a.samePlace b = true
  /-- None is of a building. -/
  not_building : ∀ c ∈ G, c.isBuilding = false
  /-- The grounds are defined. -/
  beq_ground : ∀ c ∈ G, (c.ground == c.ground) = true
  /-- The ground ahead is the same. -/
  ahead_eq : ∀ a ∈ G, ∀ b ∈ G, ahead a.position.plan = ahead b.position.plan

namespace OnePlace

variable {ahead} {a b c w : SectionPoint α} {G H : List (SectionPoint α)}

theorem sublist (h : OnePlace ahead G) (hsub : H.Sublist G) : OnePlace ahead H where
  samePlace := h.samePlace.sublist hsub
  not_building := fun c hc => h.not_building c (hsub.subset hc)
  beq_ground := fun c hc => h.beq_ground c (hsub.subset hc)
  ahead_eq := fun a ha b hb => h.ahead_eq a (hsub.subset ha) b (hsub.subset hb)

theorem tail (h : OnePlace ahead (a :: G)) : OnePlace ahead G :=
  h.sublist (List.sublist_cons_self a G)

/-- At one place points conflict if their grounds differ. -/
theorem conflicts_eq (h : OnePlace ahead (a :: G)) (hb : b ∈ G) :
    a.conflicts b = !(a.ground == b.ground) := by
  have hplace : a.samePlace b = true := List.rel_of_pairwise_cons h.samePlace hb
  simp [conflicts, bne, hplace, h.not_building a List.mem_cons_self]

theorem sameEvent_eq (h : OnePlace ahead (a :: G)) (hb : b ∈ G) :
    a.sameEvent b = (a.ground == b.ground) := by
  have hplace : a.samePlace b = true := List.rel_of_pairwise_cons h.samePlace hb
  simp [sameEvent, hplace]

variable [PartialEquivBEq α]

/-- Points of one ground are over the ground ahead together. -/
theorem isOver_eq (h : OnePlace ahead G) (ha : a ∈ G) (hb : b ∈ G)
    (hground : (a.ground == b.ground) = true) : isOver ahead a = isOver ahead b := by
  rw [isOver, isOver, h.ahead_eq a ha b hb]
  exact BEq.congr_left hground

/-- The earlier of two neighbours goes only if it is not over the ground ahead. -/
theorem isOver_eq_false (hab : a.conflicts b = true) (hp : prevails ahead a b = false) :
    isOver ahead a = false := by
  refine Bool.eq_false_iff.mpr fun hover => ?_
  have hb : (b.ground == ahead a.position.plan) = true := by
    have ha : (a.ground == ahead a.position.plan) = true := hover
    simpa [prevails, bne, ha] using hp
  have hground : (a.ground == b.ground) = true := BEq.trans hover (BEq.symm hb)
  simp [conflicts, bne, hground] at hab

/-- The winner is never passed over and never removed. -/
theorem winner_mem (h : OnePlace ahead G) (hw : winner? ahead G = some w) :
    w ∈ settleAhead ahead G := by
  -- A step over `a` leaves the winner what it was: `a` wins and stays, or `a` does not win.
  induction G using settleAhead_cases ahead generalizing w with
  | nil => simp [winner?] at hw
  | single a =>
    simpa using mem_of_winner?_eq_some hw
  | pass a b rest hab ih =>
    rw [settleAhead_pass ahead rest hab]
    cases hover : isOver ahead a with
    | true =>
      rw [winner?_of_isOver hover] at hw
      exact Option.some.inj hw ▸ List.mem_cons_self
    | false =>
      rw [winner?_of_not_isOver hover] at hw
      exact List.mem_cons_of_mem a (ih h.tail hw)
  | earlier a b rest hab hp ih =>
    have hover : isOver ahead a = true := isOver_of_prevails hp
    rw [settleAhead_earlier ahead rest hab hp]
    refine ih (h.sublist ((List.sublist_cons_self b rest).cons_cons a)) ?_
    rwa [winner?_of_isOver hover] at hw ⊢
  | later a b rest hab hp ih =>
    rw [settleAhead_later ahead rest hab hp]
    rw [winner?_of_not_isOver (isOver_eq_false hab hp)] at hw
    exact ih h.tail hw

/-- **Settling one group.** The survivors that differ from the winner are the stranded. -/
theorem stranded_iff (h : OnePlace ahead G) (hw : winner? ahead G = some w) :
    Stranded ahead G ↔ ∃ c ∈ settleAhead ahead G, (c.ground == w.ground) = false := by
  induction G using settleAhead_cases ahead generalizing w with
  | nil => simp [winner?] at hw
  | single a =>
    have hwa : w = a := by simpa using mem_of_winner?_eq_some hw
    have hnone : ¬ Stranded ahead [a] := by
      rintro ⟨c, d, _, hpair, _⟩
      have hlength := hpair.length_le.trans (List.takeWhile_sublist _).length_le
      simp at hlength
    refine iff_of_false hnone ?_
    simp [hwa, h.beq_ground a List.mem_cons_self]
  | pass a b rest hab ih =>
    -- Neighbours that do not conflict have one ground, so both are over the ground ahead or
    -- neither is.
    have hground : (a.ground == b.ground) = true := by
      rw [h.conflicts_eq List.mem_cons_self] at hab
      simpa using hab
    have hover := h.isOver_eq List.mem_cons_self (by simp) hground
    rw [settleAhead_pass ahead rest hab]
    cases ha : isOver ahead a with
    | true =>
      -- Both are: the first wins, and the rest is settled to its ground.
      rw [ha] at hover
      have hrest : ∀ c ∈ settleAhead ahead (b :: rest), (c.ground == b.ground) = true := by
        intro c hc
        cases hcb : c.ground == b.ground with
        | true => rfl
        | false =>
          have hstranded : Stranded ahead (b :: rest) :=
            (ih h.tail (winner?_of_isOver hover.symm)).mpr ⟨c, hc, hcb⟩
          exact absurd hstranded (not_stranded_of_isOver hover.symm)
      refine iff_of_false (not_stranded_of_isOver ha) ?_
      rw [winner?_of_isOver ha] at hw
      rw [← Option.some.inj hw]
      rintro ⟨c, hc, hne⟩
      refine Bool.eq_false_iff.mp hne ?_
      rcases List.mem_cons.mp hc with rfl | hc
      · exact h.beq_ground c List.mem_cons_self
      · exact BEq.trans (hrest c hc) (BEq.symm hground)
    | false =>
      -- Neither is: the first stays for good, and is stranded if it differs from the winner.
      rw [ha] at hover
      rw [winner?_of_not_isOver ha] at hw
      have hconflict := h.conflicts_eq (mem_of_winner?_eq_some hw)
      rw [stranded_cons_cons ha, h.sameEvent_eq List.mem_cons_self, ih h.tail hw]
      simp [hw, hconflict, hground, hover.symm]
  | earlier a b rest hab hp ih =>
    have hover : isOver ahead a = true := isOver_of_prevails hp
    -- A group that begins over the ground ahead strands nothing, with or without its second.
    rw [settleAhead_earlier ahead rest hab hp]
    rw [winner?_of_isOver hover] at hw
    rw [← ih (h.sublist ((List.sublist_cons_self b rest).cons_cons a))
      ((winner?_of_isOver hover).trans hw)]
    exact iff_of_false (not_stranded_of_isOver hover) (not_stranded_of_isOver hover)
  | later a b rest hab hp ih =>
    -- The first goes, and was not stranded: it conflicts with its neighbour.
    have hover := isOver_eq_false hab hp
    have hevent : a.sameEvent b = false := by
      rw [h.conflicts_eq List.mem_cons_self] at hab
      rw [h.sameEvent_eq List.mem_cons_self]
      simpa using hab
    rw [settleAhead_later ahead rest hab hp, stranded_cons_cons hover, hevent]
    rw [winner?_of_not_isOver hover] at hw
    simpa using ih h.tail hw

/-- Neighbours at one place are free of conflict only if all grounds are the same. -/
theorem isChain_iff (h : OnePlace ahead G) :
    G.IsChain (fun a b => a.conflicts b = false) ↔
      ∀ a ∈ G, ∀ b ∈ G, (a.ground == b.ground) = true := by
  induction G with
  | nil => simp
  | cons a G ih =>
    match G with
    | [] => simpa using h.beq_ground a List.mem_cons_self
    | b :: rest =>
      have hab : a.conflicts b = false ↔ (a.ground == b.ground) = true := by
        rw [h.conflicts_eq List.mem_cons_self]
        simp
      rw [List.isChain_cons_cons, ih h.tail, hab]
      constructor
      · rintro ⟨hground, hrest⟩
        have hfirst : ∀ c ∈ a :: b :: rest, (c.ground == b.ground) = true := by
          intro c hc
          rcases List.mem_cons.mp hc with rfl | hc
          · exact hground
          · exact hrest c hc b List.mem_cons_self
        exact fun c hc d hd => BEq.trans (hfirst c hc) (BEq.symm (hfirst d hd))
      · intro hall
        exact ⟨hall a (by simp) b (by simp), fun c hc d hd =>
          hall c (List.mem_cons_of_mem a hc) d (List.mem_cons_of_mem a hd)⟩

/-- A group is settled without conflict unless it strands a point. -/
theorem isChain_settleAhead (h : OnePlace ahead G) :
    (settleAhead ahead G).IsChain (fun a b => a.conflicts b = false) ↔ ¬ Stranded ahead G := by
  match G, h with
  | [], _ => simp [Stranded, winner?]
  | a :: G, h =>
    obtain ⟨w, hw⟩ : ∃ w, winner? ahead (a :: G) = some w := exists_winner? a G
    rw [h.stranded_iff hw, (h.sublist (settleAhead_sublist ahead (a :: G))).isChain_iff]
    constructor
    · rintro hall ⟨c, hc, hne⟩
      exact Bool.eq_false_iff.mp hne (hall c hc w (h.winner_mem hw))
    · intro hnone
      have hwin : ∀ c ∈ settleAhead ahead (a :: G), (c.ground == w.ground) = true :=
        fun c hc => Bool.of_not_eq_false fun hne => hnone ⟨c, hc, hne⟩
      exact fun c hc d hd => BEq.trans (hwin c hc) (BEq.symm (hwin d hd))

/-- Where some point of a group is over the ground ahead, all that is left of the group is,
    unless a point is stranded. -/
theorem all_isOver_iff (h : OnePlace ahead G) (hover : ∃ c ∈ G, isOver ahead c = true) :
    (∀ c ∈ settleAhead ahead G, isOver ahead c = true) ↔ ¬ Stranded ahead G := by
  obtain ⟨w, hw⟩ : ∃ w, G.find? (isOver ahead) = some w := by
    rw [← Option.isSome_iff_exists, List.find?_isSome]
    exact hover
  have hwinner : winner? ahead G = some w := by simp [winner?, hw]
  have hwover : isOver ahead w = true := List.find?_some hw
  have hwmem : w ∈ G := List.mem_of_find?_eq_some hw
  rw [h.stranded_iff hwinner]
  -- The winner is over the ground ahead, so to be over it is to agree with the winner.
  have hiff : ∀ c ∈ settleAhead ahead G,
      isOver ahead c = true ↔ ¬ (c.ground == w.ground) = false := by
    intro c hc
    have hcmem := (settleAhead_sublist ahead G).subset hc
    rw [Bool.not_eq_false]
    constructor
    · intro hcover
      rw [isOver, h.ahead_eq c hcmem w hwmem] at hcover
      exact BEq.trans hcover (BEq.symm hwover)
    · intro hground
      rw [h.isOver_eq hcmem hwmem hground, hwover]
  constructor
  · rintro hall ⟨c, hc, hne⟩
    exact (hiff c hc).mp (hall c hc) hne
  · intro hnone c hc
    exact (hiff c hc).mpr fun hne => hnone ⟨c, hc, hne⟩

end OnePlace

/-! ## Groups -/

/-- The groups of neighbours at one place. -/
def places (points : List (SectionPoint α)) : List (List (SectionPoint α)) :=
  points.splitBy samePlace

/-- No point of one list is at the place of a point of the other. -/
def Apart (G H : List (SectionPoint α)) : Prop := ∀ a ∈ G, ∀ b ∈ H, a.samePlace b = false

section
variable {ahead} {points : List (SectionPoint α)} {G H : List (SectionPoint α)}

theorem sublist_of_mem_places (h : G ∈ places points) : G.Sublist points := by
  have hflatten := List.flatten_splitBy SectionPoint.samePlace points
  exact hflatten ▸ List.sublist_flatten_of_mem h

theorem settleAhead_ne_nil (h : G ≠ []) : settleAhead ahead G ≠ [] := by
  induction G using settleAhead_cases ahead with
  | nil => exact absurd rfl h
  | single a => simp
  | pass a b rest hab ih => simp [settleAhead_pass ahead rest hab]
  | earlier a b rest hab hp ih =>
    rw [settleAhead_earlier ahead rest hab hp]
    exact ih (List.cons_ne_nil a rest)
  | later a b rest hab hp ih =>
    rw [settleAhead_later ahead rest hab hp]
    exact ih (List.cons_ne_nil b rest)

/-- Groups at different places are settled separately. -/
theorem settleAhead_flatten {groups : List (List (SectionPoint α))} (hne : [] ∉ groups)
    (hapart : groups.IsChain Apart) :
    settleAhead ahead groups.flatten = groups.flatMap (settleAhead ahead) := by
  induction groups with
  | nil => simp
  | cons G groups ih =>
    rw [List.mem_cons, not_or] at hne
    rw [List.flatten_cons, List.flatMap_cons, ← ih hne.2 hapart.tail]
    exact settleAhead_append ahead (rel_head?_of_isChain hne.2 hapart)

variable [PartialEquivBEq α]

instance : Std.Symm fun a b : SectionPoint α => a.samePlace b = true := ⟨fun _ _ => samePlace_symm⟩

instance : Trans (fun a b : SectionPoint α => a.samePlace b = true)
    (fun a b => a.samePlace b = true) fun a b => a.samePlace b = true := ⟨samePlace_trans⟩

theorem pairwise_of_mem_places (h : G ∈ places points) :
    G.Pairwise fun a b => a.samePlace b = true :=
  pairwise_of_mem_splitBy h

/-- Two points of a group are at one place. -/
theorem eq_or_samePlace {a b : SectionPoint α} (h : G ∈ places points) (ha : a ∈ G)
    (hb : b ∈ G) : a = b ∨ a.samePlace b = true :=
  eq_or_rel_of_mem_splitBy h ha hb

/-- Neighbouring groups are at different places. -/
theorem isChain_apart (points : List (SectionPoint α)) : (places points).IsChain Apart :=
  isChain_splitBy points

theorem settleAhead_eq_flatMap (points : List (SectionPoint α)) :
    settleAhead ahead points = (places points).flatMap (settleAhead ahead) := by
  have hne : [] ∉ places points := List.nil_notMem_splitBy _ _
  rw [← settleAhead_flatten hne (isChain_apart points), places, List.flatten_splitBy]

/-- No conflict is left of some points exactly if none is left of each of their groups. -/
theorem isChain_settleAhead_iff (points : List (SectionPoint α)) :
    (settleAhead ahead points).IsChain (fun a b => a.conflicts b = false) ↔
      ∀ G ∈ places points, (settleAhead ahead G).IsChain fun a b => a.conflicts b = false := by
  have hne : [] ∉ (places points).map (settleAhead ahead) := by
    intro h
    obtain ⟨G, hG, hnil⟩ := List.mem_map.mp h
    exact settleAhead_ne_nil (List.ne_nil_of_mem_splitBy hG) hnil
  -- Where one settled group meets the next there is no conflict: the places differ.
  have hends : ((places points).map (settleAhead ahead)).IsChain fun G H =>
      ∀ᵉ (a ∈ G.getLast?) (b ∈ H.head?), a.conflicts b = false := by
    refine (List.isChain_map _).mpr ((isChain_apart points).imp fun G H hapart a ha b hb => ?_)
    refine conflicts_of_not_samePlace (hapart a ?_ b ?_)
    · exact (settleAhead_sublist ahead G).subset (List.mem_of_getLast? ha)
    · exact (settleAhead_sublist ahead H).subset (List.mem_of_mem_head? hb)
  rw [settleAhead_eq_flatMap, List.flatMap, List.isChain_flatten hne, and_iff_left hends]
  simp only [List.mem_map, forall_exists_index, and_imp, forall_apply_eq_imp_iff₂]

/-- The group of a building has no conflict, and nothing to strand. -/
theorem isChain_settleAhead_of_building (ahead : Point2 α → α) {b : SectionPoint α}
    (hG : G ∈ places points) (hb : b ∈ G) (hbuilding : b.isBuilding = true) :
    (settleAhead ahead G).IsChain (fun a b => a.conflicts b = false) ∧ ¬ Stranded ahead G := by
  have hall : ∀ c ∈ G, ∀ d, c.conflicts d = false := by
    intro c hc d
    have hkind : c.kind = b.kind := by
      rcases eq_or_samePlace hG hc hb with rfl | hcb
      · rfl
      · exact (samePlace_iff.mp hcb).1
    have hc : c.isBuilding = true := by
      rw [isBuilding, hkind]
      exact hbuilding
    simp [conflicts, hc]
  constructor
  · -- What is left of the group is of buildings as well.
    refine List.Pairwise.isChain (List.pairwise_of_forall_mem_list fun c hc d _ => ?_)
    exact hall c ((settleAhead_sublist ahead G).subset hc) d
  · rintro ⟨c, d, w, hpair, _, _, hconflict⟩
    have hc : c ∈ G := (List.takeWhile_sublist _).subset (hpair.subset (by simp))
    rw [hall c hc w] at hconflict
    cases hconflict

/-- The groups of points that are not of buildings. -/
theorem onePlace_of_mem_places (hbeq : ∀ c ∈ points, (c.ground == c.ground) = true)
    (hahead : ∀ a b : SectionPoint α, a.samePlace b = true →
      ahead a.position.plan = ahead b.position.plan) (hG : G ∈ places points)
    (hbuilding : ∀ c ∈ G, c.isBuilding = false) : OnePlace ahead G where
  samePlace := pairwise_of_mem_places hG
  not_building := hbuilding
  beq_ground := fun c hc => hbeq c ((sublist_of_mem_places hG).subset hc)
  ahead_eq := by
    intro a ha b hb
    rcases eq_or_samePlace hG ha hb with rfl | hab
    · rfl
    · exact hahead a b hab

/-- **Conflicts that remain.** Settling by the ground ahead leaves no conflict exactly if no
    group strands a point. -/
theorem isChain_settleAhead_iff_stranded (hbeq : ∀ c ∈ points, (c.ground == c.ground) = true)
    (hahead : ∀ a b : SectionPoint α, a.samePlace b = true →
      ahead a.position.plan = ahead b.position.plan) :
    (settleAhead ahead points).IsChain (fun a b => a.conflicts b = false) ↔
      ∀ G ∈ places points, ¬ Stranded ahead G := by
  rw [isChain_settleAhead_iff]
  refine forall₂_congr fun G hG => ?_
  by_cases hbuilding : ∀ c ∈ G, c.isBuilding = false
  · exact (onePlace_of_mem_places hbeq hahead hG hbuilding).isChain_settleAhead
  · simp only [not_forall, Bool.not_eq_false] at hbuilding
    obtain ⟨b, hb, hbuilding⟩ := hbuilding
    have hfree := isChain_settleAhead_of_building ahead hG hb hbuilding
    exact iff_of_true hfree.1 hfree.2

end

end SectionPoint

/-! ## Conflicts of a profile -/

namespace Site

variable {α : Type} {g : α} {c : SectionPoint α}

section
variable [Scalar α] (s : Site α) {line : Segment α}

theorem isNaN_groundAt (hs : ∀ r ∈ s.regions, Scalar.isNaN r.coefficient = false)
    (hg : Scalar.isNaN g = false) (p : Point2 α) : Scalar.isNaN (s.groundAt p g) = false := by
  rw [groundAt]
  cases hr : (s.regionAt? p).bind (s.regions[·]?) with
  | none => exact hg
  | some r =>
    obtain ⟨i, _, hi⟩ := Option.bind_eq_some_iff.mp hr
    exact hs r (List.mem_of_getElem? hi)

theorem isNaN_groundAhead (hs : ∀ r ∈ s.regions, Scalar.isNaN r.coefficient = false)
    (hg : Scalar.isNaN g = false) (p : Point2 α) :
    Scalar.isNaN (s.groundAhead line g p) = false := by
  simp only [groundAhead]
  split
  · exact s.isNaN_groundAt hs hg _
  · exact s.isNaN_groundAt hs hg _

theorem isNaN_groundAtWall (hs : ∀ r ∈ s.regions, Scalar.isNaN r.coefficient = false)
    (hg : Scalar.isNaN g = false) (wall : Nat) (p : Point2 α) :
    Scalar.isNaN (s.groundAtWall wall g p) = false := by
  refine s.isNaN_groundAt hs ?_ p
  cases hr : s.regions[wall]? with
  | none => exact hg
  | some r => exact hs r (List.mem_of_getElem? hr)

theorem isNaN_ground_of_mem_collected (hs : ∀ r ∈ s.regions, Scalar.isNaN r.coefficient = false)
    (hg : Scalar.isNaN g = false) (h : c ∈ s.collected line g) :
    Scalar.isNaN c.ground = false := by
  rcases s.mem_collected h with ⟨p, rfl⟩ | h
  · exact s.isNaN_groundAt hs hg _
  · obtain ⟨b, _, hb⟩ := s.exists_of_mem_crossings h
    rcases (s.crossing?_spec hb).2.2 with ⟨_, h⟩ | ⟨_, wall, h⟩ | ⟨_, h⟩
    · exact h ▸ s.isNaN_groundAt hs hg _
    · exact h ▸ s.isNaN_groundAtWall hs hg wall _
    · exact h ▸ s.isNaN_groundAhead hs hg _

/-- Every point of a section has a ground that is defined, if the regions and the ground
    elsewhere have. -/
theorem isNaN_ground_of_mem (hs : ∀ r ∈ s.regions, Scalar.isNaN r.coefficient = false)
    (hg : Scalar.isNaN g = false) (h : c ∈ s.sectionPoints line g) :
    Scalar.isNaN c.ground = false := by
  rcases s.mem_sectionPoints h with rfl | rfl | h | ⟨b, hb, _, rfl⟩
  · exact s.isNaN_groundAt hs hg _
  · exact s.isNaN_groundAt hs hg _
  · exact s.isNaN_ground_of_mem_collected hs hg h
  · rw [footOf_ground]
    exact s.isNaN_ground_of_mem_collected hs hg hb

end

open SectionPoint in
/-- **Conflicting duplicates.** Where conflicts are settled by the ground ahead, every group of
    neighbours at one place is settled by itself. The profile has neighbours in conflict
    exactly if some group strands a point; and a group, other than of buildings, of which a
    point was over the ground just past the place, is left with points over that ground only,
    exactly if it strands none. -/
theorem conflicts_left_iff [Circular α] [LawfulScalar α] (s : Site α) (hs : s.IsSealed)
    (hpolicy : s.settings.policy = .groundAhead) (source receiver : Point3 α)
    (hg : Scalar.isNaN g = false) :
    let ahead := s.groundAhead ⟨source, receiver⟩ g
    let groups := places (capRuns (s.sectionPoints ⟨source, receiver⟩ g))
    let points := (s.profile source receiver g).points
    points = groups.flatMap (settleAhead ahead) ∧
    (points.IsChain (fun a b => a.conflicts b = false) ↔ ∀ G ∈ groups, ¬ Stranded ahead G) ∧
    ∀ G ∈ groups, (∀ c ∈ G, c.isBuilding = false) → (∃ c ∈ G, isOver ahead c = true) →
      ((∀ c ∈ settleAhead ahead G, isOver ahead c = true) ↔ ¬ Stranded ahead G) := by
  intro ahead groups points
  -- The ends are in place after settling, so nothing else is done to the points.
  have hpoints : points = settleAhead ahead (capRuns (s.sectionPoints ⟨source, receiver⟩ g)) := by
    simp only [points, profile, hpolicy, settle, anchor_sectionPoints]
    rfl
  -- All grounds are defined, and points at one place have one ground ahead.
  have hregions : ∀ r ∈ s.regions, Scalar.isNaN r.coefficient = false := fun r hr =>
    LawfulScalar.isNaN_of_isFinite (hs.finiteGround r hr)
  have hbeq : ∀ c ∈ capRuns (s.sectionPoints ⟨source, receiver⟩ g),
      (c.ground == c.ground) = true := fun c hc =>
    LawfulScalar.beq_self (s.isNaN_ground_of_mem hregions hg ((capRuns_sublist _).subset hc))
  have hahead : ∀ a b : SectionPoint α, a.samePlace b = true →
      ahead a.position.plan = ahead b.position.plan := fun a b hab =>
    s.groundAhead_alike (Point2.alike_of_beq (samePlace_iff.mp hab).2) _ g
  rw [hpoints]
  refine ⟨settleAhead_eq_flatMap _, isChain_settleAhead_iff_stranded hbeq hahead, ?_⟩
  intro G hG hbuilding hover
  exact (onePlace_of_mem_places hbeq hahead hG hbuilding).all_isOver_iff hover

/-! ## Three walls through one place

  Each wall has the ground of the region with its number, so three walls through one place
  are over the grounds of three regions that lie elsewhere. -/

/-- Three walls that cross at one place, and three regions away from it. -/
def crossedWalls : Site Float :=
  ((Draft.empty Settings.default).afterAll
    [.wall [⟨10, -10, 0⟩, ⟨10, 10, 0⟩] 4 [] 1,
     .wall [⟨0, -10, 0⟩, ⟨20, 10, 0⟩] 4 [] 2,
     .wall [⟨20, -10, 0⟩, ⟨0, 10, 0⟩] 4 [] 3,
     .rectangle ⟨200, 200⟩ ⟨210, 210⟩ 0.25,
     .rectangle ⟨220, 200⟩ ⟨230, 210⟩ 0.25,
     .rectangle ⟨240, 200⟩ ⟨250, 210⟩ 0.75]).siteOver none

/-- A line through the place where the walls cross. -/
def acrossWalls : Segment Float := ⟨⟨0, 0, 1⟩, ⟨20, 0, 1⟩⟩

/-- Where the line crosses one of the walls. -/
def crossedWall (wall : Nat) (ground : Float) : SectionPoint Float :=
  ⟨⟨10, 0, 4⟩, .wall, some wall, ground, some [], false⟩

theorem alongPieces_crossedWalls :
    crossedWalls.alongPieces crossedWalls.boundaryIndex acrossWalls = [0, 1, 2] := by
  have hquery : (acrossWalls.split crossedWalls.settings.pieceLength).flatMap
      (fun piece => crossedWalls.boundaryIndex.query piece.box) = [0, 1, 2] := by decide +kernel
  rw [alongPieces, hquery, sortedOnce_of_pairwise (by decide)]

theorem sortAlong_crossedWalls :
    sortAlong acrossWalls (crossedWalls.collected acrossWalls 0.75) =
      [crossedWall 0 0.25, crossedWall 1 0.25, crossedWall 2 0.75] := by
  have hcollected : crossedWalls.collected acrossWalls 0.75 =
      [crossedWall 0 0.25, crossedWall 1 0.25, crossedWall 2 0.75] := by
    rw [collected, crossings, alongPieces_crossedWalls]
    decide +kernel
  rw [hcollected]
  exact List.mergeSort_of_pairwise (by decide +kernel)

/-- The first wall is stranded by the second, which repeats it. -/
theorem stranded_crossedWalls :
    SectionPoint.Stranded (crossedWalls.groundAhead acrossWalls 0.75)
      [crossedWall 0 0.25, crossedWall 1 0.25, crossedWall 2 0.75] := by
  have hbefore : SectionPoint.beforeOver (crossedWalls.groundAhead acrossWalls 0.75)
      [crossedWall 0 0.25, crossedWall 1 0.25, crossedWall 2 0.75] =
        [crossedWall 0 0.25, crossedWall 1 0.25] := by decide +kernel
  refine ⟨crossedWall 0 0.25, crossedWall 1 0.25, crossedWall 2 0.75, ?_, by decide +kernel,
    by decide +kernel, by decide +kernel⟩
  exact hbefore.symm ▸ List.infix_rfl

/-- The profile across the walls has a conflict left. -/
theorem conflicts_left_crossedWalls :
    crossedWalls.IsSealed ∧ crossedWalls.settings.policy = .groundAhead ∧
    Scalar.isNaN (0.75 : Float) = false ∧
    ¬ (crossedWalls.profile acrossWalls.p0 acrossWalls.p1 0.75).points.IsChain fun a b =>
      a.conflicts b = false := by
  have hsealed : crossedWalls.IsSealed := ⟨_, _, none, rfl⟩
  have hdefined : Scalar.isNaN (0.75 : Float) = false := by decide +kernel
  have hgroup : (SectionPoint.places
      (SectionPoint.capRuns (crossedWalls.sectionPoints acrossWalls 0.75)))[1]? =
        some [crossedWall 0 0.25, crossedWall 1 0.25, crossedWall 2 0.75] := by
    rw [sectionPoints, interior, sortAlong_crossedWalls]
    decide +kernel
  refine ⟨hsealed, rfl, hdefined, fun hchain => ?_⟩
  have hiff := (crossedWalls.conflicts_left_iff hsealed rfl acrossWalls.p0 acrossWalls.p1
    hdefined).2.1
  exact hiff.mp hchain _ (List.mem_of_getElem? hgroup) stranded_crossedWalls

end Site

end SiteSection
