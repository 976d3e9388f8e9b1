import SiteSection.Proofs.Section.Arrangement
import SiteSection.Proofs.Section.Conflicts
import SiteSection.Proofs.Section.GroundSteps
import SiteSection.Proofs.Section.Renumbering
import SiteSection.Proofs.Site.Unread

/-! # Where the policy does not matter

  Section points conflict if they are of one kind at one place, but over different ground. The
  ground of a point is that of its place, or that just past it at the border of a region: for
  one kind it is a matter of the place. Free-standing walls are the exception, since a wall
  falls back on the region that has its number.

  So without walls there is no conflict to settle, and sites that are sealed under different
  policies have the same profiles. The arithmetic may be exact or not, as long as it does not
  tell apart numbers that are equal.
-/

namespace SiteSection

/-! ## Other policies -/

section
variable {α : Type}

/-- The settings with another policy. -/
def Settings.withPolicy (s : Settings α) (policy : ConflictPolicy) : Settings α :=
  { s with policy := policy }

/-- The site with another policy. -/
def Site.withPolicy (s : Site α) (policy : ConflictPolicy) : Site α :=
  { s with settings := s.settings.withPolicy policy }

end

/-- Additions under another policy are sealed to the same site, but for the policy. -/
theorem Draft.build_withPolicy {α : Type} [Circular α] [Triangulates α]
    {settings : Settings α} {calls : List (Call α)} {strict : Bool} {s : Site α}
    (hs : (((empty settings).afterAll calls).build strict).result = .ok s)
    (policy : ConflictPolicy) :
    (((empty (settings.withPolicy policy)).afterAll calls).build strict).result =
      .ok (s.withPolicy policy) := by
  have halike : settings.AddAlike (settings.withPolicy policy) := ⟨rfl, rfl⟩
  set d := (empty settings).afterAll calls with hd
  have hother : (empty (settings.withPolicy policy)).afterAll calls =
      d.withSettings (settings.withPolicy policy) :=
    afterAll_withSettings (d := empty settings) halike calls
  have hsettings : d.settings = settings := settings_afterAll (empty settings) calls
  -- The topography is the same, so the terrain is.
  have hpoints : (d.withSettings (settings.withPolicy policy)).points = d.points := rfl
  have hlines : (d.withSettings (settings.withPolicy policy)).lines = d.lines := rfl
  obtain ⟨terrain, rfl, hbuild⟩ := exists_siteOver_of_build hpoints hlines hs
  rw [hother, hbuild, ← hsettings]
  rfl

/-! ## Nothing to settle -/

namespace SectionPoint

variable {α : Type} [Scalar α] {points : List (SectionPoint α)}

theorem settleAhead_of_isChain (ahead : Point2 α → α)
    (h : points.IsChain fun a b => a.conflicts b = false) : settleAhead ahead points = points := by
  induction points using settleAhead_cases ahead with
  | nil => exact settleAhead_nil ahead
  | single a => exact settleAhead_singleton ahead a
  | pass a b rest hab ih => rw [settleAhead_pass ahead rest hab, ih h.tail]
  | earlier a b rest hab | later a b rest hab =>
    rw [(List.isChain_cons_cons.mp h).1] at hab
    cases hab

theorem settleInTurn_of_isChain (k : Nat)
    (h : points.IsChain fun a b => a.conflicts b = false) : settleInTurn k points = points := by
  fun_induction settleInTurn k points with
  | case1 k a b c rest hab | case2 k a b c rest hab =>
    rw [(List.isChain_cons_cons.mp h).1] at hab
    cases hab
  | case3 k a b c rest _ ih => rw [ih h.tail]
  | case4 => rfl

/-- Where no neighbours conflict, settling does nothing under either policy. -/
theorem settle_of_isChain (policy : ConflictPolicy) (ahead : Point2 α → α)
    (h : points.IsChain fun a b => a.conflicts b = false) :
    settle policy ahead points = points := by
  cases policy with
  | groundAhead => exact settleAhead_of_isChain ahead h
  | alternate => exact settleInTurn_of_isChain 0 h

end SectionPoint

/-! ## The ground of a kind -/

namespace Site

section
variable {α : Type} [Scalar α] (s : Site α) {line : Segment α} {g : α} {c : SectionPoint α}

/-- The ground of what is not a wall, by its kind and its place: just past the place at the border
    of a region, and at the place for all else. -/
def groundFor (line : Segment α) (g : α) (kind : PointKind) (p : Point2 α) : α :=
  if kind = .ground then s.groundAhead line g p else s.groundAt p g

theorem ground_of_mem_collected (h : c ∈ s.collected line g) :
    c.kind = .wall ∨ c.ground = s.groundFor line g c.kind c.position.plan := by
  rcases s.mem_collected h with ⟨p, rfl⟩ | h
  · exact .inr rfl
  · obtain ⟨b, _, hb⟩ := s.exists_of_mem_crossings h
    rcases (s.crossing?_spec hb).2.2 with ⟨hkind, hground⟩ | ⟨hkind, _⟩ | ⟨hkind, hground⟩
    · exact .inr (by rw [hkind, hground]; rfl)
    · exact .inl hkind
    · exact .inr (by rw [hkind, hground]; rfl)

/-- A section point is a wall or has the ground of its kind. -/
theorem ground_of_mem_sectionPoints (h : c ∈ s.sectionPoints line g) :
    c.kind = .wall ∨ c.ground = s.groundFor line g c.kind c.position.plan := by
  rcases s.mem_sectionPoints h with rfl | rfl | h | ⟨b, hb, _, rfl⟩
  · exact .inr rfl
  · exact .inr rfl
  · exact s.ground_of_mem_collected h
  · -- The foot of a crossing has its kind, its place and its ground.
    rw [footOf_kind, footOf_ground, footOf_plan]
    exact s.ground_of_mem_collected hb

/-- The ground of a kind is the same at like places. -/
theorem groundFor_alike [LawfulScalar α] {p q : Point2 α} (h : p.Alike q) (kind : PointKind) :
    s.groundFor line g kind p = s.groundFor line g kind q := by
  rw [groundFor, groundFor, s.groundAhead_alike h, s.groundAt_alike h]

end

/-! ## Sites without walls -/

section
variable {α : Type} [Circular α] {s : Site α} {line : Segment α} {g : α} {a b c : SectionPoint α}

theorem IsSealed.kind_ne_wall (h : s.IsSealed) (hwalls : s.walls = [])
    (hc : c ∈ s.sectionPoints line g) : c.kind ≠ .wall := by
  have hboundary : ∀ w ∈ s.boundaries, w.kind ≠ .wall := by
    rw [h.boundaries_eq, hwalls, List.append_nil]
    intro w hw
    rcases List.mem_append.mp hw with hw | hw
    · simp [kind_of_mem_sides w hw]
    · simp [kind_of_mem_borders w hw]
  have hcollected : ∀ d ∈ s.collected line g, d.kind ≠ .wall := by
    intro d hd
    rcases s.mem_collected hd with ⟨p, rfl⟩ | hd
    · simp
    · obtain ⟨w, hw, hcrossing⟩ := s.exists_of_mem_crossings hd
      rw [(s.crossing?_spec hcrossing).2.1]
      exact hboundary w hw
  rcases s.mem_sectionPoints hc with rfl | rfl | hc | ⟨b, hb, _, rfl⟩
  · simp [sourcePoint]
  · simp [receiverPoint]
  · exact hcollected c hc
  · exact hcollected b hb

variable [LawfulScalar α]

/-- Without walls, points of one kind at one place are over the same ground. -/
theorem IsSealed.ground_eq_of_samePlace (h : s.IsSealed) (hwalls : s.walls = [])
    (ha : a ∈ s.sectionPoints line g) (hb : b ∈ s.sectionPoints line g)
    (hab : a.samePlace b = true) : a.ground = b.ground := by
  obtain ⟨hkind, hplan⟩ := SectionPoint.samePlace_iff.mp hab
  have hground : ∀ c ∈ s.sectionPoints line g,
      c.ground = s.groundFor line g c.kind c.position.plan := fun c hc =>
    (s.ground_of_mem_sectionPoints hc).resolve_left (h.kind_ne_wall hwalls hc)
  rw [hground a ha, hground b hb, hkind]
  exact s.groundFor_alike (Point2.alike_of_beq hplan) b.kind

/-- So no two points of a section conflict, if all ground is defined. -/
theorem IsSealed.conflicts_eq_false (h : s.IsSealed) (hwalls : s.walls = [])
    (hg : Scalar.isNaN g = false) (ha : a ∈ s.sectionPoints line g)
    (hb : b ∈ s.sectionPoints line g) : a.conflicts b = false := by
  cases hab : a.samePlace b with
  | false => exact SectionPoint.conflicts_of_not_samePlace hab
  | true =>
    have hregions : ∀ r ∈ s.regions, Scalar.isNaN r.coefficient = false := fun r hr =>
      LawfulScalar.isNaN_of_isFinite (h.finiteGround r hr)
    have hself : (b.ground == b.ground) = true :=
      LawfulScalar.beq_self (s.isNaN_ground_of_mem hregions hg hb)
    simp [SectionPoint.conflicts, bne, h.ground_eq_of_samePlace hwalls ha hb hab, hself]

theorem IsSealed.settle_capRuns (h : s.IsSealed) (hwalls : s.walls = [])
    (hg : Scalar.isNaN g = false) (policy : ConflictPolicy) (ahead : Point2 α → α) :
    SectionPoint.settle policy ahead (SectionPoint.capRuns (s.sectionPoints line g)) =
      SectionPoint.capRuns (s.sectionPoints line g) := by
  apply SectionPoint.settle_of_isChain
  have hsub := SectionPoint.capRuns_sublist (s.sectionPoints line g)
  exact (List.pairwise_of_forall_mem_list fun a ha b hb =>
    h.conflicts_eq_false hwalls hg (hsub.subset ha) (hsub.subset hb)).isChain

end

/-- **The policy is for walls.** Let a site be sealed that has no free-standing walls. Points of
    one kind at one place are over the same ground, be they kept in the profile or not, so no
    policy removes anything. Under any other policy the same additions are sealed to the same
    site, and it has the same profiles: the points of the section with their runs cut short. -/
theorem profile_withPolicy {α : Type} [Circular α] [LawfulScalar α] [Triangulates α]
    {settings : Settings α} {calls : List (Draft.Call α)} {strict : Bool} {s : Site α}
    (hs : (((Draft.empty settings).afterAll calls).build strict).result = .ok s)
    (hwalls : s.walls = []) (source receiver : Point3 α) {g : α} (hg : Scalar.isNaN g = false) :
    let line : Segment α := ⟨source, receiver⟩
    let points := SectionPoint.capRuns (s.sectionPoints line g)
    (∀ a ∈ s.sectionPoints line g, ∀ b ∈ s.sectionPoints line g,
      a.samePlace b = true → a.ground = b.ground) ∧
    ∀ policy, SectionPoint.settle policy (s.groundAhead line g) points = points ∧
      (((Draft.empty (settings.withPolicy policy)).afterAll calls).build strict).result =
        .ok (s.withPolicy policy) ∧
      (s.withPolicy policy).profile source receiver g = s.profile source receiver g ∧
      (s.profile source receiver g).points = points := by
  intro line points
  have hsealed : s.IsSealed := Draft.isSealed_of_build settings calls hs
  have hsettle : ∀ policy, SectionPoint.settle policy (s.groundAhead line g) points = points :=
    fun policy => hsealed.settle_capRuns hwalls hg policy _
  have hpoints : ∀ policy, ((s.withPolicy policy).profile source receiver g).points = points := by
    intro policy
    rw [profile, anchor_sectionPoints]
    exact hsettle policy
  have hown : (s.profile source receiver g).points = points := hpoints s.settings.policy
  refine ⟨fun a ha b hb => hsealed.ground_eq_of_samePlace hwalls ha hb, fun policy =>
    ⟨hsettle policy, Draft.build_withPolicy hs policy, ?_, hown⟩⟩
  exact congrArg Profile.mk ((hpoints policy).trans hown.symm)

/-! ## Two yards with a common border -/

/-- Two yards with a common border, one of which is partly under a third, and a house on the
    border. -/
def adjoiningYards : List (Draft.Call Float) :=
  [.rectangle ⟨0, 0⟩ ⟨20, 20⟩ 0.25, .rectangle ⟨20, 0⟩ ⟨40, 20⟩ 0.75,
    .rectangle ⟨20, 5⟩ ⟨30, 15⟩ 0,
    .building [⟨15, 5, 0⟩, ⟨25, 5, 0⟩, ⟨25, 9, 0⟩, ⟨15, 9, 0⟩] 4 [] 1]

/-- Across the yards either policy does, with doubles; and so it does in exact arithmetic into the
    square. -/
theorem profile_withPolicy_adjoiningYards :
    (∃ s : Site Float,
      (((Draft.empty Settings.default).afterAll adjoiningYards).build true).result = .ok s ∧
      s.walls = [] ∧ Scalar.isNaN (0.5 : Float) = false ∧
      (s.withPolicy .alternate).profile ⟨-5, 12, 1⟩ ⟨50, 12, 1⟩ 0.5 =
        s.profile ⟨-5, 12, 1⟩ ⟨50, 12, 1⟩ 0.5) ∧
    squareSite.walls = [] ∧
    (squareSite.withPolicy .alternate).profile intoSquare.p0 intoSquare.p1 0 =
      squareSite.profile intoSquare.p0 intoSquare.p1 0 := by
  have hs := Draft.build_of_flat (d := (Draft.empty Settings.default).afterAll adjoiningYards)
    (by decide +kernel) true
  have hdefined : Scalar.isNaN (0.5 : Float) = false := by decide +kernel
  have hyards : (((Draft.empty Settings.default).afterAll adjoiningYards).siteOver none).walls =
      [] := by decide +kernel
  have hsquare : squareSite.walls = [] := rfl
  have hs' := Draft.build_of_flat (d := (Draft.empty Settings.default).afterAll
    [.region [⟨[⟨1, -2⟩, ⟨5, -2⟩, ⟨5, 2⟩, ⟨1, 2⟩]⟩] (1 : ℝ)]) Nat.zero_lt_two true
  refine ⟨⟨_, hs, hyards, hdefined, ?_⟩, hsquare, ?_⟩
  · exact ((profile_withPolicy hs hyards _ _ hdefined).2 .alternate).2.2.1
  · exact ((profile_withPolicy hs' hsquare _ _ (Scalar.isNaN_eq_false 0)).2 .alternate).2.2.1

end Site

end SiteSection
