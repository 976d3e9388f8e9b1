import SiteSection.Double
import SiteSection.Site.Sectioning
import SiteSection.Proofs.Section.Cleanup
import SiteSection.Proofs.Site.Sealed

/-! # The ends of a section

  A profile begins with its source and ends with its receiver, and nothing between them is
  either. The ends are put in place before three passes that remove points, so the argument
  follows them through each pass: a pass removes a point only beside another of the same
  kind, and there is one source and one receiver.

  Nothing is assumed of the arithmetic, and nothing of the site.
-/

namespace SiteSection

namespace SectionPoint

variable {α : Type} {a c r : SectionPoint α} {points : List (SectionPoint α)}

/-! ## Framing adds building points only -/

/-- Every framed point is a point of the list or the foot of one of its building points. -/
theorem mem_frameAfter (base : SectionPoint α → SectionPoint α)
    {previous : Option (SectionPoint α)} (h : c ∈ frameAfter base previous points) :
    c ∈ points ∨ ∃ b ∈ points, b.isBuilding = true ∧ c = base b := by
  induction points generalizing previous with
  | nil => cases h
  | cons d rest ih =>
    rw [frameAfter] at h
    split at h
    · next hd =>
      have hfoot : ∀ {p : Bool}, c ∈ (if p then [base d] else []) → c = base d := by
        intro p hc
        split at hc
        · exact List.mem_singleton.mp hc
        · cases hc
      simp only [List.mem_append, List.mem_cons] at h
      rcases h with h | rfl | h | h
      · exact .inr ⟨d, List.mem_cons_self, hd, hfoot h⟩
      · exact .inl List.mem_cons_self
      · exact .inr ⟨d, List.mem_cons_self, hd, hfoot h⟩
      · rcases ih h with h | ⟨b, hb, hbuilding, rfl⟩
        · exact .inl (List.mem_cons_of_mem d h)
        · exact .inr ⟨b, List.mem_cons_of_mem d hb, hbuilding, rfl⟩
    · rcases List.mem_cons.mp h with rfl | h
      · exact .inl List.mem_cons_self
      · rcases ih h with h | ⟨b, hb, hbuilding, rfl⟩
        · exact .inl (List.mem_cons_of_mem d h)
        · exact .inr ⟨b, List.mem_cons_of_mem d hb, hbuilding, rfl⟩

/-- Framing loses no point. -/
theorem mem_frameAfter_of_mem (base : SectionPoint α → SectionPoint α)
    {previous : Option (SectionPoint α)} (h : c ∈ points) :
    c ∈ frameAfter base previous points := by
  induction points generalizing previous with
  | nil => cases h
  | cons d rest ih =>
    rw [frameAfter]
    split
    · rcases List.mem_cons.mp h with rfl | h
      · simp
      · simp [ih h]
    · rcases List.mem_cons.mp h with rfl | h
      · exact List.mem_cons_self
      · exact List.mem_cons_of_mem d (ih h)

variable [Scalar α]

/-! ## Capping keeps the ends -/

theorem repeatsBoth_of_kind_ne {latest : List (SectionPoint α)}
    (h : ∀ b ∈ latest, b.kind ≠ c.kind) : repeatsBoth latest c = false := by
  match latest with
  | [] | [_] => rfl
  | b :: _ :: _ => simp [repeatsBoth, sameEvent_of_kind_ne (h b List.mem_cons_self)]

/-- A last point of a kind of its own stays the last. -/
theorem capAfter_concat {latest : List (SectionPoint α)}
    (h : ∀ b ∈ latest ++ points, b.kind ≠ r.kind) :
    capAfter latest (points ++ [r]) = capAfter latest points ++ [r] := by
  -- What was kept last takes part in the induction: `r` may not repeat it either.
  induction points generalizing latest with
  | nil =>
    have hr : repeatsBoth latest r = false := repeatsBoth_of_kind_ne (by simpa using h)
    simp [capAfter, hr]
  | cons c rest ih =>
    have hskip : ∀ b ∈ latest ++ rest, b.kind ≠ r.kind := fun b hb =>
      h b (by rcases List.mem_append.mp hb with hb | hb <;> simp [hb])
    have hkeep : ∀ b ∈ (c :: latest.take 1) ++ rest, b.kind ≠ r.kind := by
      intro b hb
      rcases List.mem_append.mp hb with hb | hb
      · rcases List.mem_cons.mp hb with rfl | hb
        · exact h b (by simp)
        · exact h b (by simp [List.mem_of_mem_take hb])
      · exact h b (by simp [hb])
    rw [List.cons_append, capAfter, capAfter]
    split
    · exact ih hskip
    · rw [ih hkeep, List.cons_append]

/-- Capping leaves the first point, and a last point of a kind of its own. -/
theorem capRuns_anchored (hr : ∀ b ∈ a :: points, b.kind ≠ r.kind) :
    ∃ kept, kept.Sublist points ∧ capRuns (a :: (points ++ [r])) = a :: (kept ++ [r]) := by
  refine ⟨capAfter [a] points, capAfter_sublist [a] points, ?_⟩
  have h : capAfter [a] (points ++ [r]) = capAfter [a] points ++ [r] :=
    capAfter_concat (by simpa using hr)
  simp [capRuns, capAfter, repeatsBoth, h]

/-! ## Settling keeps the ends -/

theorem settleAhead_anchored (ahead : Point2 α → α) (ha : ∀ b ∈ points ++ [r], a.kind ≠ b.kind)
    (hr : ∀ b ∈ points, b.kind ≠ r.kind) :
    ∃ kept, kept.Sublist points ∧
      settleAhead ahead (a :: (points ++ [r])) = a :: (kept ++ [r]) := by
  refine ⟨settleAhead ahead points, settleAhead_sublist ahead points, ?_⟩
  have hfirst : settleAhead ahead ([a] ++ (points ++ [r])) =
      settleAhead ahead [a] ++ settleAhead ahead (points ++ [r]) :=
    settleAhead_append ahead fun d hd b hb => by
      rw [List.mem_singleton.mp hd]
      exact samePlace_of_kind_ne (ha b (List.mem_of_mem_head? hb))
  have hlast : settleAhead ahead (points ++ [r]) =
      settleAhead ahead points ++ settleAhead ahead [r] :=
    settleAhead_append ahead fun d hd b hb => by
      rw [← Option.some.inj hb]
      exact samePlace_of_kind_ne (hr d hd)
  simpa [hlast] using hfirst

theorem settleInTurn_anchored (k : Nat) (ha : ∀ b ∈ points ++ [r], a.kind ≠ b.kind) :
    ∃ kept, kept.Sublist points ∧
      settleInTurn k (a :: (points ++ [r])) = a :: (kept ++ [r]) := by
  -- The pass is not split before `r`: whether a conflict is settled depends on what follows.
  -- But the last point stays, and the points before it are among `points`.
  have hlast : (settleInTurn k (points ++ [r])).getLast? = some r := by
    rw [getLast?_settleInTurn]
    simp
  obtain ⟨kept, hkept⟩ := List.getLast?_eq_some_iff.mp hlast
  have hsub : (kept ++ [r]).Sublist (points ++ [r]) := hkept ▸ settleInTurn_sublist k _
  exact ⟨kept, (List.append_sublist_append_right [r]).mp hsub, by
    rw [settleInTurn_cons k ha, hkept]⟩

/-- Settling leaves a first and a last point of kinds of their own, under either policy. -/
theorem settle_anchored (policy : ConflictPolicy) (ahead : Point2 α → α)
    (ha : ∀ b ∈ points ++ [r], a.kind ≠ b.kind) (hr : ∀ b ∈ points, b.kind ≠ r.kind) :
    ∃ kept, kept.Sublist points ∧
      settle policy ahead (a :: (points ++ [r])) = a :: (kept ++ [r]) := by
  cases policy with
  | groundAhead => exact settleAhead_anchored ahead ha hr
  | alternate => exact settleInTurn_anchored 0 ha

end SectionPoint

namespace Site

variable {α : Type} [Scalar α] (s : Site α) {line : Segment α} {g : α} {c : SectionPoint α}

/-! ## What a section collects -/

/-- A crossing is where the line meets the boundary. It marks what is bounded, with its number,
    over the ground there; of a ground region that is the ground ahead. -/
theorem crossing?_cases {b : Boundary α} (h : s.crossing? line g b = some c) :
    ∃ x, line.intersect? b.segment = some x ∧ c.position = x.plan.atZ (s.crossingZ b x.plan) ∧
      c.kind = b.kind ∧ c.owner = some b.owner ∧
      (c.kind = .building ∧ c.ground = s.groundAt c.position.plan g ∨
        c.kind = .wall ∧ (∃ wall, c.ground = s.groundAtWall wall g c.position.plan) ∨
        c.kind = .ground ∧ c.ground = s.groundAhead line g c.position.plan) := by
  simp only [crossing?, Option.bind_eq_bind, Option.bind_eq_some_iff] at h
  obtain ⟨x, hx, h⟩ := h
  split at h
  · next hrole =>
    cases h
    exact ⟨x, hx, rfl, by rw [Boundary.kind, hrole], by rw [Boundary.owner, hrole],
      .inl ⟨rfl, rfl⟩⟩
  · next wall _ _ _ hrole =>
    cases h
    exact ⟨x, hx, rfl, by rw [Boundary.kind, hrole], by rw [Boundary.owner, hrole],
      .inr (.inl ⟨rfl, wall, rfl⟩)⟩
  · next hrole =>
    split at h
    · cases h
    · cases h
      exact ⟨x, hx, rfl, by rw [Boundary.kind, hrole], by rw [Boundary.owner, hrole],
        .inr (.inr ⟨rfl, rfl⟩)⟩
  · cases h

/-- In the plan a crossing is where the line meets the boundary. -/
theorem crossing?_spec {b : Boundary α} (h : s.crossing? line g b = some c) :
    (∃ x, line.intersect? b.segment = some x ∧ c.position.plan = x.plan) ∧ c.kind = b.kind ∧
    (c.kind = .building ∧ c.ground = s.groundAt c.position.plan g ∨
      c.kind = .wall ∧ (∃ wall, c.ground = s.groundAtWall wall g c.position.plan) ∨
      c.kind = .ground ∧ c.ground = s.groundAhead line g c.position.plan) := by
  obtain ⟨x, hx, hposition, hkind, _, hground⟩ := s.crossing?_cases h
  exact ⟨⟨x, hx, by rw [hposition]; rfl⟩, hkind, hground⟩

/-- A crossing is with one of the boundaries. -/
theorem exists_of_mem_crossings (h : c ∈ s.crossings line g) :
    ∃ b ∈ s.boundaries, s.crossing? line g b = some c := by
  obtain ⟨b, hb, hcrossing⟩ := List.mem_filterMap.mp h
  obtain ⟨i, _, hi⟩ := List.mem_filterMap.mp hb
  exact ⟨b, List.mem_of_getElem? hi, hcrossing⟩

/-- What is collected is a point of the terrain, over the ground there, or a crossing. -/
theorem mem_collected (h : c ∈ s.collected line g) :
    (∃ p, c = .plain p .terrain (s.groundAt p.plan g)) ∨ c ∈ s.crossings line g := by
  rcases List.mem_append.mp h with h | h
  · obtain ⟨p, _, rfl⟩ := List.mem_map.mp h
    exact .inl ⟨p, rfl⟩
  · exact .inr h

/-- No collected point is an end of a section. -/
theorem kind_of_mem_collected (h : c ∈ s.collected line g) :
    c.kind ≠ .source ∧ c.kind ≠ .receiver := by
  rcases s.mem_collected h with ⟨p, rfl⟩ | h
  · simp
  · obtain ⟨b, _, hb⟩ := s.exists_of_mem_crossings h
    rcases (s.crossing?_spec hb).2.2 with ⟨hkind, _⟩ | ⟨hkind, _⟩ | ⟨hkind, _⟩ <;> simp [hkind]

/-- A foot has the plan location, the kind and the ground of its crossing. -/
theorem footOf_plan (b : SectionPoint α) : (s.footOf b).position.plan = b.position.plan := rfl

theorem footOf_kind (b : SectionPoint α) : (s.footOf b).kind = b.kind := rfl

theorem footOf_ground (b : SectionPoint α) : (s.footOf b).ground = b.ground := rfl

/-- The points between the ends are the collected ones and the feet of building crossings. -/
theorem mem_interior (h : c ∈ s.interior line g) :
    c ∈ s.collected line g ∨
      ∃ b ∈ s.collected line g, b.isBuilding = true ∧ c = s.footOf b := by
  rcases SectionPoint.mem_frameAfter s.footOf h with h | ⟨b, hb, hbuilding, rfl⟩
  · exact .inl (List.mem_mergeSort.mp h)
  · exact .inr ⟨b, List.mem_mergeSort.mp hb, hbuilding, rfl⟩

theorem kind_of_mem_interior (h : c ∈ s.interior line g) :
    c.kind ≠ .source ∧ c.kind ≠ .receiver := by
  rcases s.mem_interior h with h | ⟨b, hb, _, rfl⟩
  · exact s.kind_of_mem_collected h
  · rw [footOf_kind]
    exact s.kind_of_mem_collected hb

/-! ## The ends of a profile -/

/-- The source as a section point, over the ground at its location. -/
def sourcePoint (source : Point3 α) (g : α) : SectionPoint α :=
  .plain source .source (s.groundAt source.plan g)

/-- The receiver as a section point, over the ground at its location. -/
def receiverPoint (receiver : Point3 α) (g : α) : SectionPoint α :=
  .plain receiver .receiver (s.groundAt receiver.plan g)

/-- A point of a section is one of its ends, a collected point, or the foot of one of a
    building. -/
theorem mem_sectionPoints (h : c ∈ s.sectionPoints line g) :
    c = s.sourcePoint line.p0 g ∨ c = s.receiverPoint line.p1 g ∨ c ∈ s.collected line g ∨
      ∃ b ∈ s.collected line g, b.isBuilding = true ∧ c = s.footOf b := by
  rcases List.mem_cons.mp h with h | h
  · exact .inl h
  · rcases List.mem_append.mp h with h | h
    · exact .inr (.inr (s.mem_interior h))
    · exact .inr (.inl (List.mem_singleton.mp h))

/-- A profile has points of its section only, in their order. -/
theorem profile_sublist (source receiver : Point3 α) (g : α) :
    (s.profile source receiver g).points.Sublist (s.sectionPoints ⟨source, receiver⟩ g) := by
  simp only [profile, anchor_sectionPoints]
  exact (SectionPoint.settle_sublist _ _ _).trans (SectionPoint.capRuns_sublist _)

/-- A profile is its source, some of the points of the interior, and its receiver. -/
theorem profile_points (source receiver : Point3 α) (g : α) :
    ∃ inner, inner.Sublist (s.interior ⟨source, receiver⟩ g) ∧
      (s.profile source receiver g).points =
        s.sourcePoint source g :: (inner ++ [s.receiverPoint receiver g]) := by
  have hkind : ∀ c ∈ s.interior ⟨source, receiver⟩ g, c.kind ≠ .source ∧ c.kind ≠ .receiver :=
    fun c hc => s.kind_of_mem_interior hc
  -- First pass: runs are capped.
  obtain ⟨capped, hcapped, hcap⟩ :
      ∃ capped, capped.Sublist (s.interior ⟨source, receiver⟩ g) ∧
        SectionPoint.capRuns (s.sourcePoint source g ::
            (s.interior ⟨source, receiver⟩ g ++ [s.receiverPoint receiver g])) =
          s.sourcePoint source g :: (capped ++ [s.receiverPoint receiver g]) := by
    refine SectionPoint.capRuns_anchored fun b hb => ?_
    rcases List.mem_cons.mp hb with rfl | hb
    · simp [sourcePoint, receiverPoint]
    · exact (hkind b hb).2
  -- Second pass: conflicts among what is left are settled.
  obtain ⟨inner, hinner, hsettle⟩ :
      ∃ inner, inner.Sublist capped ∧
        SectionPoint.settle s.settings.policy (s.groundAhead ⟨source, receiver⟩ g)
            (s.sourcePoint source g :: (capped ++ [s.receiverPoint receiver g])) =
          s.sourcePoint source g :: (inner ++ [s.receiverPoint receiver g]) := by
    refine SectionPoint.settle_anchored _ _ (fun b hb => ?_) fun b hb =>
      (hkind b (hcapped.subset hb)).2
    rcases List.mem_append.mp hb with hb | hb
    · exact (hkind b (hcapped.subset hb)).1.symm
    · rw [List.mem_singleton.mp hb]
      simp [sourcePoint, receiverPoint]
  refine ⟨inner, hinner.trans hcapped, ?_⟩
  -- The third pass finds the ends in place.
  simp only [profile, anchor_sectionPoints]
  rw [sectionPoints]
  exact (congrArg _ hcap).trans hsettle

/-- A profile has all building points of its section. -/
theorem filter_building_profile (source receiver : Point3 α) (g : α) :
    (s.profile source receiver g).points.filter SectionPoint.isBuilding =
      (s.interior ⟨source, receiver⟩ g).filter SectionPoint.isBuilding := by
  simp only [profile, anchor_sectionPoints]
  rw [SectionPoint.filter_building_settle, SectionPoint.capRuns,
    SectionPoint.filter_building_capAfter, sectionPoints]
  simp [List.filter_append, SectionPoint.isBuilding]

end Site

/-- A function for each end changes the ends of a profile that runs from source to receiver. -/
theorem Profile.mapEnds_anchored {α : Type} (f g : SectionPoint α → SectionPoint α)
    {a r : SectionPoint α} {inner : List (SectionPoint α)} (ha : a.kind = .source)
    (hr : r.kind = .receiver) :
    (Profile.mapEnds ⟨a :: (inner ++ [r])⟩ f g).points = f a :: (inner ++ [g r]) := by
  have hlast : (f a :: (inner ++ [r])).getLast? = some r := by simp [List.getLast?_cons]
  have hrest : (f a :: (inner ++ [r])).dropLast = f a :: inner := by
    rw [← List.cons_append, List.dropLast_concat]
  simp only [mapEnds, ha, if_true, hlast, hr, hrest, List.cons_append]

/-- **Anchored ends.** There is no profile exactly if the line is cut at its limit into more pieces
    than there is room for. The points before clean-up run from source to receiver already; every
    profile begins with the source and ends with the receiver, each over the ground at its
    location, and has no other point of these kinds. A profile between given points differs
    in what its two ends say of themselves, and in nothing else. -/
theorem Site.profile_anchored {α : Type} [Scalar α] (s : Site α) (room : Nat)
    (source receiver : Point3 α) (g : α) :
    let line : Segment α := ⟨source, receiver⟩
    let limit := s.settings.pieceLength
    (s.profile? room source receiver g = none ↔ 0 < limit ∧ limit ≤ line.planLength ∧
      room < Scalar.ceil (line.planLength / limit)) ∧
    SectionPoint.isAnchored (s.sectionPoints line g) = true ∧
    ∀ p, s.profile? room source receiver g = some p →
      ∃ inner : List (SectionPoint α),
        (∀ c ∈ inner, c.kind ≠ .source ∧ c.kind ≠ .receiver) ∧
        p.points = .plain source .source (s.groundAt source.plan g) ::
          (inner ++ [.plain receiver .receiver (s.groundAt receiver.plan g)]) ∧
        ∀ a b : SectionPoint α, ∃ q,
          s.profileBetween? room { a with position := source } { b with position := receiver } g =
            some q ∧
          q.points = ⟨source, .source, a.owner, a.ground, a.absorption, false⟩ ::
            (inner ++ [⟨receiver, .receiver, b.owner, b.ground, b.absorption, false⟩]) := by
  intro line limit
  refine ⟨answerAlong?_eq_none_iff, s.isAnchored_sectionPoints _ g, fun p hp => ?_⟩
  obtain ⟨pieces, hpieces, rfl⟩ := Option.map_eq_some_iff.mp hp
  obtain ⟨inner, hinner, hpoints⟩ := s.profile_points source receiver g
  refine ⟨inner, fun c hc => s.kind_of_mem_interior (hinner.subset hc), hpoints, fun a b => ?_⟩
  have hprofile : s.profile source receiver g =
      ⟨s.sourcePoint source g :: (inner ++ [s.receiverPoint receiver g])⟩ := by
    rw [← hpoints]
  -- The line is the same, and so there is room for its pieces.
  refine ⟨_, congrArg (Option.map _) hpieces, ?_⟩
  simp only [profileBetween, hprofile]
  exact Profile.mapEnds_anchored _ _ rfl rfl

/-- A lawn around the origin, and nothing else. -/
def lawnSite : Site Float :=
  ((Draft.empty Settings.default).afterAll [.rectangle ⟨-5, -5⟩ ⟨5, 5⟩ 0.5]).siteOver none

/-- For a way of 130 onto the lawn there is a profile as soon as there is room for three pieces.
    From a source at infinity there are more pieces than any memory holds, and no profile. -/
theorem Site.profile_anchored_lawnSite :
    (∃ p inner, lawnSite.profile? 3 ⟨130, 0, 1⟩ ⟨0, 0, 1⟩ 0 = some p ∧
      p.points = .plain ⟨130, 0, 1⟩ .source 0 :: (inner ++ [.plain ⟨0, 0, 1⟩ .receiver 0.5])) ∧
    lawnSite.profile? 2 ⟨130, 0, 1⟩ ⟨0, 0, 1⟩ 0 = none ∧
    ∀ room < Scalar.greatestCount, lawnSite.profile? room ⟨1 / 0, 0, 1⟩ ⟨0, 0, 1⟩ 0 = none := by
  obtain ⟨hnone, -, hsome⟩ := lawnSite.profile_anchored 3 ⟨130, 0, 1⟩ ⟨0, 0, 1⟩ 0
  refine ⟨?_, ?_, fun room hroom => ?_⟩
  · cases hp : lawnSite.profile? 3 ⟨130, 0, 1⟩ ⟨0, 0, 1⟩ 0 with
    | none => exact absurd (hnone.mp hp) (by decide +kernel)
    | some p =>
      obtain ⟨inner, -, hpoints, -⟩ := hsome p hp
      have hsource : lawnSite.groundAt ⟨130, 0⟩ 0 = 0 := by decide +kernel
      have hreceiver : lawnSite.groundAt ⟨0, 0⟩ 0 = 0.5 := by decide +kernel
      exact ⟨p, inner, rfl, by rw [hpoints]; simp only [Point3.plan, hsource, hreceiver]⟩
  · exact (lawnSite.profile_anchored 2 ⟨130, 0, 1⟩ ⟨0, 0, 1⟩ 0).1.mpr (by decide +kernel)
  · refine (lawnSite.profile_anchored room ⟨1 / 0, 0, 1⟩ ⟨0, 0, 1⟩ 0).1.mpr ⟨?_, ?_, ?_⟩
    · decide +kernel
    · decide +kernel
    · have hcount : Scalar.ceil ((⟨⟨1 / 0, 0, 1⟩, ⟨0, 0, 1⟩⟩ : Segment Float).planLength /
          lawnSite.settings.pieceLength) = Scalar.greatestCount := by decide +kernel
      rwa [hcount]

end SiteSection
