import SiteSection.Proofs.Section.Arrangement
import SiteSection.Proofs.Section.GroundSteps
import SiteSection.Proofs.Section.Locality
import SiteSection.Proofs.Site.Unread

/-! # A section without its index

  The boundaries a line meets are looked up piece by piece through an index of boxes. In exact
  arithmetic this finds what a scan of all boundaries finds, in the same order, whatever the
  length of the pieces. So the length of the pieces is a matter of speed and of room: sites that
  differ in nothing else have the same profiles, where there is room for the pieces in both. Short
  enough pieces of a line are more than there is room for.

  A length that is not positive leaves the line whole, be it zero, negative or undefined. That
  much holds in any arithmetic.
-/

namespace SiteSection

/-! ## Other pieces -/

section
variable {α : Type}

/-- The settings with another length of pieces. -/
def Settings.withPieceLength (s : Settings α) (limit : α) : Settings α :=
  { s with pieceLength := limit }

/-- The draft with another length of pieces. -/
def Draft.withPieceLength (d : Draft α) (limit : α) : Draft α :=
  { d with settings := d.settings.withPieceLength limit }

/-- The site with another length of pieces. -/
def Site.withPieceLength (s : Site α) (limit : α) : Site α :=
  { s with settings := s.settings.withPieceLength limit }

end

/-- The same additions give the same draft, but for the length of pieces. -/
theorem Draft.afterAll_withPieceLength {α : Type} [Scalar α] (d : Draft α) (limit : α)
    (calls : List (Call α)) :
    (d.withPieceLength limit).afterAll calls = (d.afterAll calls).withPieceLength limit := by
  have halike : d.settings.AddAlike (d.settings.withPieceLength limit) := ⟨rfl, rfl⟩
  have hsettings : (d.afterAll calls).withPieceLength limit =
      (d.afterAll calls).withSettings (d.settings.withPieceLength limit) := by
    rw [← settings_afterAll d calls]
    rfl
  rw [hsettings]
  exact afterAll_withSettings halike calls

namespace Site

/-- With another length of pieces the same additions give a sealed site, and nothing else about
    it is different. -/
theorem IsSealed.withPieceLength {α : Type} [Circular α] {s : Site α} (h : s.IsSealed)
    (limit : α) : (s.withPieceLength limit).IsSealed := by
  obtain ⟨settings, calls, terrain, rfl⟩ := h
  refine ⟨settings.withPieceLength limit, calls, terrain, ?_⟩
  have hempty : Draft.empty (settings.withPieceLength limit) =
      (Draft.empty settings).withPieceLength limit := rfl
  rw [hempty, Draft.afterAll_withPieceLength]
  rfl

/-! ## What the pieces are used for -/

/-- The pieces are not used for the ground. -/
theorem sameGround_withPieceLength {α : Type} (s : Site α) (limit limit' : α) :
    (s.withPieceLength limit').SameGround (s.withPieceLength limit) :=
  ⟨rfl, rfl, rfl, rfl, rfl, rfl⟩

/-- Pieces of a length that is not positive are the whole line. -/
theorem alongPieces_of_not_pos {α : Type} [Scalar α] (s : Site α) (x : BoxIndex α Nat)
    (line : Segment α) (h : ¬ 0 < s.settings.pieceLength) :
    s.alongPieces x line = sortedOnce (x.query line.box) := by
  rw [alongPieces, Segment.split_of_lt fun hpos => h hpos.1, List.flatMap_singleton]

/-- Boundaries of a sealed site are not those of its terrain. -/
theorem IsSealed.kind_ne_terrain {α : Type} [Circular α] {s : Site α} (h : s.IsSealed)
    {b : Boundary α} (hb : b ∈ s.boundaries) : b.kind ≠ .terrain := by
  rw [h.boundaries_eq] at hb
  rcases List.mem_append.mp hb with hb | hb
  · rcases List.mem_append.mp hb with hb | hb
    · rw [kind_of_mem_sides b hb]
      decide
    · rw [h.kind_of_mem_walls b hb]
      decide
  · rw [kind_of_mem_borders b hb]
    decide

/-- A boundary gives a point of the section where the line meets it, unless it is the border of a
    ground region and is met at a corner. -/
theorem IsSealed.isSome_crossing?_iff {α : Type} [Circular α] {s : Site α} (h : s.IsSealed)
    {b : Boundary α} (hb : b ∈ s.boundaries) (line : Segment α) (g : α) :
    (s.crossing? line g b).isSome = true ↔
      ∃ x, line.intersect? b.segment = some x ∧ ¬(b.kind = .ground ∧ b.hasEnd x.plan = true) := by
  have hkind := h.kind_ne_terrain hb
  rw [Boundary.kind] at hkind
  rw [Boundary.kind, crossing?]
  cases line.intersect? b.segment with
  | none => simp
  | some x =>
    cases hrole : b.role with
    | side => simp
    | freestanding => simp
    | region => simp
    | terrain => exact absurd (by rw [hrole]) hkind

section
variable {K : Type} [ExactCircular K]

/-- **Nothing is lost by looking up.** Let the room be for fewer pieces than can be counted. The
    crossings of a line are missing exactly if the length of the line has that of the pieces in it
    more often than there is room for. If they are not, they are those of a scan over all
    boundaries in their order: one for each boundary that the line meets, at the place where it
    meets it, corners of ground regions excepted. So two lengths of pieces for which there is room
    give the same profile. In any arithmetic, the lengths that are not positive are all alike, and
    there is always room for them; an undefined one is among them. -/
theorem crossings_scan (s : Site K) (h : s.IsSealed) {room : Nat}
    (hroom : room < Scalar.greatestCount) :
    (∀ limit line g, (s.withPieceLength limit).IsSealed ∧
      ((s.withPieceLength limit).crossings? room line g = none ↔
        0 < limit ∧ limit ≤ line.planLength ∧ room < line.planLength / limit) ∧
      ∀ found, (s.withPieceLength limit).crossings? room line g = some found →
        found = s.boundaries.filterMap (s.crossing? line g)) ∧
    (∀ line g, ∀ b ∈ s.boundaries,
      ((s.crossing? line g b).isSome = true ↔ ∃ x, line.intersect? b.segment = some x ∧
        ¬(b.kind = .ground ∧ b.hasEnd x.plan = true)) ∧
      ∀ c, s.crossing? line g b = some c → c.kind = b.kind ∧
        ∃ x, line.intersect? b.segment = some x ∧ c.position.plan = x.plan) ∧
    (∀ limit source receiver g,
      let line : Segment K := ⟨source, receiver⟩
      ((s.withPieceLength limit).profile? room source receiver g = none ↔
        0 < limit ∧ limit ≤ line.planLength ∧ room < line.planLength / limit) ∧
      ∀ p, (s.withPieceLength limit).profile? room source receiver g = some p →
        ∀ limit' p', (s.withPieceLength limit').profile? room source receiver g = some p' →
          p' = p) ∧
    ∀ {α : Type} [Scalar α] (t : Site α) (limit limit' : α), ¬ 0 < limit → ¬ 0 < limit' →
      ∀ room source receiver g, ∃ p,
        (t.withPieceLength limit).profile? room source receiver g = some p ∧
        (t.withPieceLength limit').profile? room source receiver g = some p := by
  have hcrossings : ∀ limit line g, (s.withPieceLength limit).crossings line g =
      s.boundaries.filterMap (s.crossing? line g) := fun limit line g =>
    (h.withPieceLength limit).crossings_eq line g
  refine ⟨fun limit line g => ⟨h.withPieceLength limit, answerAlong?_eq_none_iff_lt hroom,
      fun found hfound => (eq_of_answerAlong? hfound).trans (hcrossings limit line g)⟩,
    fun line g b hb => ⟨h.isSome_crossing?_iff hb line g, fun c hc => ?_⟩,
    fun limit source receiver g => ⟨answerAlong?_eq_none_iff_lt hroom,
      fun p hp limit' p' hp' => ?_⟩, ?_⟩
  · obtain ⟨hplace, hkind, _⟩ := s.crossing?_spec hc
    exact ⟨hkind, hplace⟩
  · -- Both are cut over the same crossings.
    rw [eq_of_answerAlong? hp, eq_of_answerAlong? hp']
    apply (s.sameGround_withPieceLength limit' limit).profile_eq
    rw [hcrossings, hcrossings]
  · intro α _ t limit limit' hlimit hlimit' room source receiver g
    have hprofile : (t.withPieceLength limit).profile source receiver g =
        (t.withPieceLength limit').profile source receiver g := by
      apply (t.sameGround_withPieceLength limit limit').profile_eq
      rw [crossings, crossings, alongPieces_of_not_pos _ _ _ hlimit,
        alongPieces_of_not_pos _ _ _ hlimit']
      rfl
    have hroom : ∀ l, ¬ 0 < l → (t.withPieceLength l).profile? room source receiver g =
        some ((t.withPieceLength l).profile source receiver g) := fun l hl => by
      rw [profile?, answerAlong?, Segment.split?, if_neg fun hnone => hl hnone.1]
      rfl
    exact ⟨_, hroom limit hlimit, by rw [hroom limit' hlimit', hprofile]⟩

/-- Around the square, pieces of 1 and of 7 give the same profile. With pieces of `10 ^ (-20)` there
    is none, and with doubles an undefined length does as well as none. -/
theorem crossings_scan_square :
    squareSite.IsSealed ∧
    (∃ p, (squareSite.withPieceLength 1).profile? 100 intoSquare.p0 intoSquare.p1 0 = some p ∧
      (squareSite.withPieceLength 7).profile? 100 intoSquare.p0 intoSquare.p1 0 = some p) ∧
    (squareSite.withPieceLength (1 / 10 ^ 20)).profile? ((2 ^ 63 - 1) / 48)
      intoSquare.p0 intoSquare.p1 0 = none ∧
    ¬ (0 : Float) < Scalar.nan ∧ ¬ (0 : Float) < 0 ∧
    ∃ p, ((Site.empty Settings.default).withPieceLength (Scalar.nan : Float)).profile? 1
        ⟨0, 0, 1⟩ ⟨100, 0, 1⟩ 0 = some p ∧
      ((Site.empty Settings.default).withPieceLength 0).profile? 1 ⟨0, 0, 1⟩ ⟨100, 0, 1⟩ 0 =
        some p := by
  have hsealed : squareSite.IsSealed := ⟨_, _, none, rfl⟩
  have hundefined : ¬ (0 : Float) < Scalar.nan := by decide +kernel
  have hzero : ¬ (0 : Float) < 0 := by decide +kernel
  have hlength : (⟨intoSquare.p0, intoSquare.p1⟩ : Segment ℝ).planLength = 3 :=
    Segment.planLength_eq_of_mul_self _ (by norm_num) (by norm_num [intoSquare, Point2.normSq])
  obtain ⟨-, -, hprofiles, hany⟩ :=
    crossings_scan squareSite hsealed (by decide : 100 < Scalar.greatestCount)
  refine ⟨hsealed, ?_, ?_, hundefined, hzero,
    hany (Site.empty Settings.default) _ 0 hundefined hzero 1 _ _ 0⟩
  · obtain ⟨p, hp⟩ := Option.ne_none_iff_exists'.mp
      (mt (hprofiles 1 intoSquare.p0 intoSquare.p1 0).1.mp (by rw [hlength]; norm_num))
    obtain ⟨p', hp'⟩ := Option.ne_none_iff_exists'.mp
      (mt (hprofiles 7 intoSquare.p0 intoSquare.p1 0).1.mp (by rw [hlength]; norm_num))
    exact ⟨p, hp, by rw [hp', (hprofiles 1 _ _ 0).2 p hp 7 p' hp']⟩
  · have hmany := crossings_scan squareSite hsealed
      (by decide : (2 ^ 63 - 1) / 48 < Scalar.greatestCount)
    refine (hmany.2.2.1 (1 / 10 ^ 20) intoSquare.p0 intoSquare.p1 0).1.mpr ?_
    rw [hlength]
    norm_num

end

end Site

end SiteSection
