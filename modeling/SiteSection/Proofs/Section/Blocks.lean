import Mathlib.Data.List.SplitBy
import SiteSection.Proofs.Numbers.Double
import SiteSection.Proofs.Section.Feet
import SiteSection.Proofs.Site.Footprints

/-! # The blocks of a section

  The building points of a section are a row of blocks: the foot of a crossing, crossings of
  one owner, and the foot of the last of them. The crossings of a block are neighbours among
  the building points, but other points may stand between them; the feet stand right beside
  their crossings.

  Framing makes these blocks in one pass, and at each building point it asks for the last
  building point before it and the next one after it. So the induction has two halves: between
  blocks, and where a block is open. The clean-up drops points that are not of buildings, and
  leaves the blocks as they are.
-/

namespace SiteSection

/-! ## Parts of a list -/

section
variable {ι : Type} {p : ι → Bool} {l r₁ r₂ : List ι}

/-- What has all elements of some kind is made of parts of the pieces that have them all. -/
theorem exists_append_of_sublist (h : l.Sublist (r₁ ++ r₂))
    (hall : l.filter p = (r₁ ++ r₂).filter p) :
    ∃ l₁ l₂, l = l₁ ++ l₂ ∧ (l₁.Sublist r₁ ∧ l₁.filter p = r₁.filter p) ∧
      l₂.Sublist r₂ ∧ l₂.filter p = r₂.filter p := by
  obtain ⟨l₁, l₂, rfl, h₁, h₂⟩ := List.sublist_append_iff.mp h
  have hlength := congrArg List.length hall
  rw [List.filter_append, List.filter_append, List.length_append, List.length_append] at hlength
  have hle₁ := (h₁.filter p).length_le
  have hle₂ := (h₂.filter p).length_le
  exact ⟨l₁, l₂, rfl, ⟨h₁, (h₁.filter p).eq_of_length (by omega)⟩, h₂,
    (h₂.filter p).eq_of_length (by omega)⟩

/-- An element of the kind stays where it is. -/
theorem eq_singleton_of_sublist {i : ι} (hi : p i = true) (h : l.Sublist [i])
    (hall : l.filter p = [i].filter p) : l = [i] := by
  rcases List.sublist_singleton.mp h with rfl | rfl
  · simp [hi] at hall
  · rfl

/-- What has all elements of the kind begins with the first of them if the whole does. -/
theorem head?_of_sublist (h : l.Sublist r₁) (hall : l.filter p = r₁.filter p)
    (hfirst : r₁.head? = (r₁.filter p).head?) : l.head? = (r₁.filter p).head? := by
  cases r₁ with
  | nil => rw [List.sublist_nil.mp h, List.filter_nil]
  | cons i r =>
    rw [List.head?_cons] at hfirst
    have hi : p i = true := (List.mem_filter.mp (List.mem_of_mem_head? hfirst.symm)).2
    have hsub : l.Sublist ([i] ++ r) := h
    obtain ⟨l₁, l₂, rfl, ⟨h₁, hall₁⟩, _⟩ := exists_append_of_sublist hsub hall
    rw [eq_singleton_of_sublist hi h₁ hall₁, ← hfirst]
    rfl

theorem getLast?_of_sublist (h : l.Sublist r₁) (hall : l.filter p = r₁.filter p)
    (hlast : r₁.getLast? = (r₁.filter p).getLast?) : l.getLast? = (r₁.filter p).getLast? := by
  have hreverse := head?_of_sublist (p := p) h.reverse
    (by rw [List.filter_reverse, hall, List.filter_reverse])
    (by rw [List.filter_reverse, List.head?_reverse, List.head?_reverse, hlast])
  rwa [List.filter_reverse, List.head?_reverse, List.head?_reverse] at hreverse

end

namespace SectionPoint

variable {α : Type}

/-! ## Blocks -/

/-- Crossings of one owner, framed by the points on the ground before and after them. -/
structure Block (α : Type) where
  /-- The framing point before the first crossing. -/
  entry : SectionPoint α
  /-- The crossings. -/
  crossings : List (SectionPoint α)
  /-- The framing point after the last crossing. -/
  exit : SectionPoint α

namespace Block

/-- The points of the block, in order. -/
def points (b : Block α) : List (SectionPoint α) := b.entry :: (b.crossings ++ [b.exit])

theorem points_ne_nil (b : Block α) : b.points ≠ [] := List.cons_ne_nil _ _

theorem points_injective : Function.Injective (points : Block α → List (SectionPoint α)) := by
  rintro ⟨entry, crossings, exit⟩ ⟨entry', crossings', exit'⟩ h
  obtain ⟨rfl, hrest⟩ := List.cons.inj h
  obtain ⟨rfl, hexit⟩ := List.append_inj' hrest rfl
  obtain rfl := List.singleton_inj.mp hexit
  rfl

/-- A framed block has crossings, all of one owner, and the feet of the first and the last of
    them at its ends. -/
structure IsFramed (base : SectionPoint α → SectionPoint α) (b : Block α) : Prop where
  /-- The block begins with the foot of its first crossing. -/
  entry_eq : b.crossings.head?.map base = some b.entry
  /-- The block ends with the foot of its last crossing. -/
  exit_eq : b.crossings.getLast?.map base = some b.exit
  /-- All crossings are of one owner. -/
  owner_eq : ∀ c ∈ b.crossings, c.owner = b.entry.owner

end Block

/-- The points are a row of framed blocks, where neighbours are of different owners. -/
structure Splits (base : SectionPoint α → SectionPoint α) (points : List (SectionPoint α))
    (blocks : List (Block α)) : Prop where
  /-- There is nothing else. -/
  points_eq : blocks.flatMap Block.points = points
  /-- Every block is framed. -/
  framed : ∀ b ∈ blocks, b.IsFramed base
  /-- Neighbours are of different owners. -/
  apart : blocks.IsChain fun b b' => b.entry.owner ≠ b'.entry.owner

/-- The building points among the points are some blocks. Other points may stand between two
    blocks and between two crossings, but not between a crossing and its foot. -/
inductive Framed (base : SectionPoint α → SectionPoint α) :
    List (SectionPoint α) → List (Block α) → Prop where
  | nil : Framed base [] []
  | other {c : SectionPoint α} {points : List (SectionPoint α)} {blocks : List (Block α)}
      (hc : c.isBuilding = false) (h : Framed base points blocks) :
      Framed base (c :: points) blocks
  | block {b : Block α} {body points : List (SectionPoint α)} {blocks : List (Block α)}
      (hframed : b.IsFramed base) (hbody : body.filter isBuilding = b.crossings)
      (hfirst : body.head? = b.crossings.head?) (hlast : body.getLast? = b.crossings.getLast?)
      (hapart : ∀ b' ∈ blocks.head?, b.entry.owner ≠ b'.entry.owner)
      (h : Framed base points blocks) :
      Framed base (b.entry :: body ++ b.exit :: points) (b :: blocks)

section
variable {base : SectionPoint α → SectionPoint α} {points : List (SectionPoint α)}
  {blocks : List (Block α)}

/-! ## One way to split -/

section
variable (howner : ∀ c, (base c).owner = c.owner)
include howner

/-- All points of a framed block are of one owner. -/
theorem Block.IsFramed.owner_of_mem {b : Block α} (h : b.IsFramed base) {c : SectionPoint α}
    (hc : c ∈ b.points) : c.owner = b.entry.owner := by
  rcases List.mem_cons.mp hc with rfl | hc
  · rfl
  · rcases List.mem_append.mp hc with hc | hc
    · exact h.owner_eq c hc
    · obtain ⟨d, hd, hexit⟩ := Option.map_eq_some_iff.mp h.exit_eq
      rw [List.mem_singleton.mp hc, ← hexit, howner]
      exact h.owner_eq d (List.mem_of_getLast? hd)

/-- The blocks are the runs of one owner. -/
theorem Splits.map_points (h : Splits base points blocks) :
    blocks.map Block.points = points.splitBy fun c d => c.owner == d.owner := by
  rw [← h.points_eq, List.flatMap_def]
  symm
  apply List.splitBy_flatten
  · intro hnil
    obtain ⟨b, _, hb⟩ := List.mem_map.mp hnil
    exact b.points_ne_nil hb
  · -- Within a block there is one owner.
    intro l hl
    obtain ⟨b, hb, rfl⟩ := List.mem_map.mp hl
    apply List.Pairwise.isChain
    apply List.pairwise_of_forall_mem_list
    intro c hc d hd
    rw [(h.framed b hb).owner_of_mem howner hc, (h.framed b hb).owner_of_mem howner hd,
      beq_self_eq_true]
  · -- From one block to the next the owner changes.
    rw [List.isChain_map]
    apply h.apart.imp_of_mem_imp
    intro b b' hb hb' hapart
    refine ⟨b.points_ne_nil, b'.points_ne_nil, ?_⟩
    rw [(h.framed b hb).owner_of_mem howner (List.getLast_mem _),
      (h.framed b' hb').owner_of_mem howner (List.head_mem _)]
    exact beq_eq_false_iff_ne.mpr hapart

/-- Points are split into blocks in one way at most. -/
theorem Splits.unique {blocks' : List (Block α)} (h : Splits base points blocks)
    (h' : Splits base points blocks') : blocks' = blocks := by
  apply List.map_injective_iff.mpr Block.points_injective
  rw [h.map_points howner, h'.map_points howner]

end

/-! ## Blocks among other points -/

theorem Framed.isFramed (h : Framed base points blocks) : ∀ b ∈ blocks, b.IsFramed base := by
  induction h with
  | nil => simp
  | other _ _ ih => exact ih
  | block hframed _ _ _ _ _ ih => exact List.forall_mem_cons.mpr ⟨hframed, ih⟩

section
variable (hkind : ∀ c, (base c).kind = c.kind)
include hkind

/-- The ends of a block are building points, as its crossings are. -/
theorem Block.IsFramed.isBuilding_ends {b : Block α} (h : b.IsFramed base)
    (hcrossings : ∀ c ∈ b.crossings, c.isBuilding = true) :
    b.entry.isBuilding = true ∧ b.exit.isBuilding = true := by
  have hfoot : ∀ c ∈ b.crossings, (base c).isBuilding = true := by
    intro c hc
    rw [isBuilding, hkind]
    exact hcrossings c hc
  obtain ⟨c, hc, hentry⟩ := Option.map_eq_some_iff.mp h.entry_eq
  obtain ⟨d, hd, hexit⟩ := Option.map_eq_some_iff.mp h.exit_eq
  rw [← hentry, ← hexit]
  exact ⟨hfoot c (List.mem_of_mem_head? hc), hfoot d (List.mem_of_getLast? hd)⟩

/-- The building points of a framed list are split into its blocks. -/
theorem Framed.splits (h : Framed base points blocks) :
    Splits base (points.filter isBuilding) blocks := by
  induction h with
  | nil => exact ⟨rfl, by simp, .nil⟩
  | other hc _ ih =>
    rw [List.filter_cons_of_neg (by simp [hc])]
    exact ih
  | @block b body points blocks hframed hbody hfirst hlast hapart _ ih =>
    obtain ⟨hentry, hexit⟩ := hframed.isBuilding_ends hkind fun c hc =>
      (List.mem_filter.mp (hbody ▸ hc)).2
    refine ⟨?_, List.forall_mem_cons.mpr ⟨hframed, ih.framed⟩, ih.apart.cons hapart⟩
    rw [List.filter_append, List.filter_cons_of_pos hentry, List.filter_cons_of_pos hexit, hbody,
      List.flatMap_cons, ih.points_eq, Block.points]
    simp

/-- Dropping points that are not of buildings leaves the blocks. -/
theorem Framed.sublist (h : Framed base points blocks) {kept : List (SectionPoint α)}
    (hkept : kept.Sublist points)
    (hall : kept.filter isBuilding = points.filter isBuilding) : Framed base kept blocks := by
  induction h generalizing kept with
  | nil =>
    rw [List.sublist_nil.mp hkept]
    exact .nil
  | @other c points blocks hc _ ih =>
    have hsub : kept.Sublist ([c] ++ points) := hkept
    obtain ⟨l₁, l₂, rfl, ⟨h₁, _⟩, h₂, hall₂⟩ := exists_append_of_sublist hsub hall
    rcases List.sublist_singleton.mp h₁ with rfl | rfl
    · exact ih h₂ hall₂
    · exact .other hc (ih h₂ hall₂)
  | @block b body points blocks hframed hbody hfirst hlast hapart _ ih =>
    obtain ⟨hentry, hexit⟩ := hframed.isBuilding_ends hkind fun c hc =>
      (List.mem_filter.mp (hbody ▸ hc)).2
    -- What is kept is made of parts of the entry, the body, the exit and the rest.
    obtain ⟨l₁, l₂, rfl, ⟨h₁, hall₁⟩, h₂, hall₂⟩ := exists_append_of_sublist hkept hall
    obtain ⟨entry, body', rfl, ⟨hentry', hall'⟩, hbody', hallbody⟩ :=
      exists_append_of_sublist (List.singleton_append ▸ h₁) hall₁
    obtain ⟨exit, rest, rfl, ⟨hexit', hall''⟩, hrest, hallrest⟩ :=
      exists_append_of_sublist (List.singleton_append ▸ h₂) hall₂
    rw [eq_singleton_of_sublist hentry hentry' hall', eq_singleton_of_sublist hexit hexit' hall'']
    have hfirst' := head?_of_sublist hbody' hallbody (hbody ▸ hfirst)
    have hlast' := getLast?_of_sublist hbody' hallbody (hbody ▸ hlast)
    rw [hbody] at hallbody hfirst' hlast'
    exact .block hframed hallbody hfirst' hlast' hapart (ih hrest hallrest)

end

/-- A point that is not of a building may follow. -/
theorem Framed.concat (h : Framed base points blocks) {c : SectionPoint α}
    (hc : c.isBuilding = false) : Framed base (points ++ [c]) blocks := by
  induction h with
  | nil => exact .other hc .nil
  | other hd _ ih => exact .other hd ih
  | block hframed hbody hfirst hlast hapart _ ih =>
    rw [List.append_assoc]
    exact .block hframed hbody hfirst hlast hapart ih

/-! ## Framing makes blocks -/

/-- What is left of an open block of some owner: points up to its last crossing and its exit,
    and behind it the blocks that follow. -/
structure Remainder (base : SectionPoint α → SectionPoint α) (owner : Option Nat)
    (points crossings : List (SectionPoint α)) (blocks : List (Block α)) : Prop where
  /-- The points run through the last crossing to the exit. -/
  exists_body : ∃ body exit rest, points = body ++ exit :: rest ∧
    body.filter isBuilding = crossings ∧ body.getLast? = crossings.getLast? ∧
    crossings.getLast?.map base = some exit ∧ Framed base rest blocks
  /-- The crossings are of the owner. -/
  owner_eq : ∀ c ∈ crossings, c.owner = owner
  /-- The block that follows is not. -/
  apart : ∀ b ∈ blocks.head?, b.entry.owner ≠ owner

section
variable {owner : Option Nat} {crossings : List (SectionPoint α)}

/-- The last crossing, its foot, and the blocks that follow. -/
theorem Remainder.last {c : SectionPoint α} (hc : c.isBuilding = true)
    (h : Framed base points blocks) (hapart : ∀ b ∈ blocks.head?, b.entry.owner ≠ c.owner) :
    Remainder base c.owner (c :: base c :: points) [c] blocks where
  exists_body := ⟨[c], base c, points, rfl, by simp [hc], rfl, rfl, h⟩
  owner_eq := by simp
  apart := hapart

/-- One more point before the last crossing. -/
theorem Remainder.cons (h : Remainder base owner points crossings blocks) {c : SectionPoint α}
    (hc : c.isBuilding = true → c.owner = owner) :
    Remainder base owner (c :: points) ([c].filter isBuilding ++ crossings) blocks := by
  obtain ⟨⟨body, exit, rest, rfl, hbody, hlast, hexit, hrest⟩, howner, hapart⟩ := h
  obtain ⟨d, hd, hfoot⟩ := Option.map_eq_some_iff.mp hexit
  have hcrossings : ([c].filter isBuilding ++ crossings).getLast? = some d := by
    rw [List.getLast?_append, hd]
    rfl
  refine ⟨⟨c :: body, exit, rest, rfl, ?_, ?_, ?_, hrest⟩, ?_, hapart⟩
  · rw [← List.singleton_append, List.filter_append, hbody]
  · rw [hcrossings, List.getLast?_cons, hlast, hd]
    rfl
  · rw [hcrossings, ← hfoot]
    rfl
  · intro e he
    rcases List.mem_append.mp he with he | he
    · obtain ⟨hmem, hbuilding⟩ := List.mem_filter.mp he
      rw [List.mem_singleton.mp hmem] at hbuilding ⊢
      exact hc hbuilding
    · exact howner e he

/-- With the foot of its first crossing before it, the block is whole. -/
theorem Remainder.close (howner : ∀ c, (base c).owner = c.owner) {c : SectionPoint α}
    (h : Remainder base c.owner (c :: points) (c :: crossings) blocks) :
    ∃ exit, Framed base (base c :: c :: points) (⟨base c, c :: crossings, exit⟩ :: blocks) := by
  obtain ⟨⟨body, exit, rest, hpoints, hbody, hlast, hexit, hrest⟩, hcrossings, hapart⟩ := h
  obtain ⟨body, rfl⟩ : ∃ body', body = c :: body' := by
    cases body with
    | nil => simp [List.getLast?_cons] at hlast
    | cons d body =>
      obtain ⟨rfl, _⟩ := List.cons.inj hpoints
      exact ⟨body, rfl⟩
  obtain ⟨_, rfl⟩ := List.cons.inj hpoints
  have hframed : Block.IsFramed base ⟨base c, c :: crossings, exit⟩ := by
    refine ⟨rfl, hexit, fun d hd => ?_⟩
    rw [hcrossings d hd, howner]
  have hnext : ∀ b ∈ blocks.head?, (base c).owner ≠ b.entry.owner := by
    intro b hb
    rw [howner]
    exact (hapart b hb).symm
  exact ⟨exit, .block hframed hbody rfl hlast hnext hrest⟩

end

/-- The blocks begin with the owner of their first crossing. -/
theorem Framed.exists_head (h : Framed base points blocks) {b : Block α}
    (hb : b ∈ blocks.head?) :
    ∃ c ∈ (blocks.flatMap Block.crossings).head?, c.owner = b.entry.owner := by
  have hframed := h.isFramed b (List.mem_of_mem_head? hb)
  obtain ⟨c, hc, _⟩ := Option.map_eq_some_iff.mp hframed.entry_eq
  refine ⟨c, ?_, hframed.owner_eq c (List.mem_of_mem_head? hc)⟩
  obtain ⟨rest, rfl⟩ := List.head?_eq_some_iff.mp hb
  rw [List.flatMap_cons, List.head?_append, hc]
  rfl

/-- Framing what follows `previous`, where no block is open, gives blocks with all crossings. -/
def FramesFrom (base : SectionPoint α → SectionPoint α) (previous : Option (SectionPoint α))
    (points : List (SectionPoint α)) : Prop :=
  ∃ blocks, Framed base (frameAfter base previous points) blocks ∧
    blocks.flatMap Block.crossings = points.filter isBuilding

/-- Framing what follows `c`, where its block goes on, gives what is left of the block, and
    blocks with all other crossings. -/
def FramesWithin (base : SectionPoint α → SectionPoint α) (c : SectionPoint α)
    (points : List (SectionPoint α)) : Prop :=
  ∃ crossings blocks, Remainder base c.owner (frameAfter base (some c) points) crossings blocks ∧
    crossings ++ blocks.flatMap Block.crossings = points.filter isBuilding

theorem FramesFrom.other {previous : Option (SectionPoint α)} {c : SectionPoint α}
    (h : FramesFrom base previous points) (hc : c.isBuilding = false) :
    FramesFrom base previous (c :: points) := by
  obtain ⟨blocks, hblocks, hcrossings⟩ := h
  refine ⟨blocks, ?_, ?_⟩
  · rw [frameAfter, if_neg (by simp [hc])]
    exact .other hc hblocks
  · rw [List.filter_cons_of_neg (by simp [hc]), hcrossings]

theorem FramesWithin.other {b c : SectionPoint α} (h : FramesWithin base b points)
    (hc : c.isBuilding = false) : FramesWithin base b (c :: points) := by
  obtain ⟨crossings, blocks, hremainder, hcrossings⟩ := h
  have hcons := hremainder.cons (c := c) (by simp [hc])
  have hnone : [c].filter isBuilding = [] := by simp [hc]
  refine ⟨crossings, blocks, ?_, ?_⟩
  · rw [frameAfter, if_neg (by simp [hc])]
    rwa [hnone, List.nil_append] at hcons
  · rw [List.filter_cons_of_neg (by simp [hc]), hcrossings]

/-- A crossing that is its block's last leaves no block open; another one leaves its own. -/
theorem exists_remainder {c : SectionPoint α} (hc : c.isBuilding = true)
    (hclosed : (∀ d ∈ points.find? isBuilding, d.beginsBlock (some c) = true) →
      FramesFrom base (some c) points)
    (hopen : (∃ d ∈ points.find? isBuilding, d.owner = c.owner) → FramesWithin base c points) :
    ∃ crossings blocks,
      Remainder base c.owner
        (c :: ((if c.endsBlock points then [base c] else []) ++ frameAfter base (some c) points))
        (c :: crossings) blocks ∧
      crossings ++ blocks.flatMap Block.crossings = points.filter isBuilding := by
  cases hends : c.endsBlock points with
  | true =>
    have hnext : ∀ d ∈ points.find? isBuilding, d.owner ≠ c.owner := by
      intro d hd
      rw [endsBlock, hd] at hends
      simpa using hends
    obtain ⟨blocks, hblocks, hcrossings⟩ := hclosed fun d hd => by
      simpa [beginsBlock] using (hnext d hd).symm
    refine ⟨[], blocks, .last hc hblocks fun b hb => ?_, hcrossings⟩
    -- The next block begins with the next building point.
    obtain ⟨d, hd, howner⟩ := hblocks.exists_head hb
    rw [hcrossings, List.head?_filter] at hd
    rw [← howner]
    exact hnext d hd
  | false =>
    have hnext : ∃ d ∈ points.find? isBuilding, d.owner = c.owner := by
      rw [endsBlock] at hends
      cases hfind : points.find? isBuilding with
      | none =>
        rw [hfind] at hends
        cases hends
      | some d =>
        rw [hfind] at hends
        exact ⟨d, rfl, by simpa using hends⟩
    obtain ⟨crossings, blocks, hremainder, hcrossings⟩ := hopen hnext
    have hcons := hremainder.cons (c := c) fun _ => rfl
    have hsingle : [c].filter isBuilding = [c] := by simp [hc]
    rw [hsingle] at hcons
    exact ⟨crossings, blocks, hcons, hcrossings⟩

/-- Framing gives blocks with all crossings, from where no block is open, and from where one is
    open and has crossings to come. -/
theorem framesFrom_and_framesWithin (howner : ∀ c, (base c).owner = c.owner)
    (points : List (SectionPoint α)) :
    (∀ previous, (∀ d ∈ points.find? isBuilding, d.beginsBlock previous = true) →
      FramesFrom base previous points) ∧
    ∀ c, (∃ d ∈ points.find? isBuilding, d.owner = c.owner) → FramesWithin base c points := by
  induction points with
  | nil => exact ⟨fun _ _ => ⟨[], .nil, rfl⟩, fun _ ⟨_, h, _⟩ => by cases h⟩
  | cons p points ih =>
    obtain ⟨ihclosed, ihopen⟩ := ih
    cases hp : p.isBuilding with
    | false =>
      rw [List.find?_cons_of_neg (by simp [hp])]
      exact ⟨fun previous h => (ihclosed previous h).other hp, fun c h => (ihopen c h).other hp⟩
    | true =>
      rw [List.find?_cons_of_pos hp]
      obtain ⟨crossings, blocks, hremainder, hcrossings⟩ :=
        exists_remainder hp (ihclosed (some p)) (ihopen p)
      constructor
      · intro previous hbegins
        obtain ⟨exit, hframed⟩ := hremainder.close howner
        refine ⟨⟨base p, p :: crossings, exit⟩ :: blocks, ?_, ?_⟩
        · rw [frameAfter, if_pos hp, if_pos (hbegins p rfl)]
          exact hframed
        · rw [List.filter_cons_of_pos hp, ← hcrossings]
          rfl
      · rintro c ⟨d, hd, hsame⟩
        cases hd
        refine ⟨p :: crossings, blocks, ?_, ?_⟩
        · rw [frameAfter, if_pos hp, if_neg (by simp [beginsBlock, hsame]), ← hsame]
          exact hremainder
        · rw [List.filter_cons_of_pos hp, ← hcrossings]
          rfl

/-- Framing gives blocks that have all building points as crossings, in order. -/
theorem exists_framed_frame (howner : ∀ c, (base c).owner = c.owner)
    (points : List (SectionPoint α)) :
    ∃ blocks, Framed base (frame base points) blocks ∧
      blocks.flatMap Block.crossings = points.filter isBuilding :=
  (framesFrom_and_framesWithin howner points).1 none fun _ _ => rfl

end

end SectionPoint

namespace Site

open SectionPoint

/-! ## The roofs of crossings -/

section
variable {α : Type} [Circular α] [LawfulScalar α] {s : Site α} {line : Segment α} {g : α}

/-- A side of a building is met at the roof, if that is finite. -/
theorem IsSealed.crossingZ_of_side (h : s.IsSealed) {B : Building α} (hB : B ∈ s.buildings)
    (hroof : Scalar.isFinite B.roofZ = true) {i : Nat} {b : Boundary α} (hb : b ∈ B.sides i)
    (p : Point2 α) : s.crossingZ b p = B.roofZ := by
  obtain ⟨e, he, rfl⟩ := List.mem_map.mp hb
  obtain ⟨h₁, h₂⟩ := mem_of_mem_pathEdges he
  have hz₁ : e.1.z = B.roofZ := h.z_of_mem_footprint hB h₁
  have hz₂ : e.2.z = B.roofZ := h.z_of_mem_footprint hB h₂
  have hself : (B.roofZ == B.roofZ) = true :=
    LawfulScalar.beq_self (LawfulScalar.isNaN_of_isFinite hroof)
  simp only [crossingZ, Boundary.segment, Segment.elevation, hz₁, hz₂, hroof, hself, Bool.and_self,
    if_true]

/-- A building crossing is that of a building, at its roof if that is finite. -/
theorem IsSealed.roof_of_mem_crossings (h : s.IsSealed) {c : SectionPoint α}
    (hc : c ∈ s.crossings line g) (hbuilding : c.isBuilding = true) :
    ∃ (i : Nat) (B : Building α), c.owner = some i ∧ s.buildings[i]? = some B ∧
      (Scalar.isFinite B.roofZ = true → c.position.z = B.roofZ) := by
  obtain ⟨b, hb, hcrossing⟩ := s.exists_of_mem_crossings hc
  have hkind : b.kind = .building := by
    rw [← (s.crossing?_spec hcrossing).2.1]
    exact eq_of_beq hbuilding
  obtain ⟨i, B, hB, hside⟩ := h.exists_mem_sides hb hkind
  rw [s.crossing?_of_side line g (role_of_mem_sides hside)] at hcrossing
  obtain ⟨x, _, rfl⟩ := Option.map_eq_some_iff.mp hcrossing
  exact ⟨i, B, rfl, hB, fun hroof =>
    h.crossingZ_of_side (List.mem_of_getElem? hB) hroof hside x.plan⟩

end

/-! ## The blocks of a profile -/

section
variable {α : Type} [Scalar α] (s : Site α)

/-- A building point that is collected is a crossing. -/
theorem mem_crossings_of_mem_collected {line : Segment α} {g : α} {c : SectionPoint α}
    (hc : c ∈ s.collected line g) (hbuilding : c.isBuilding = true) : c ∈ s.crossings line g := by
  rcases s.mem_collected hc with ⟨p, rfl⟩ | hc
  · cases hbuilding
  · exact hc

theorem footOf_owner (c : SectionPoint α) : (s.footOf c).owner = c.owner := rfl

/-- The building points of a profile are blocks that have all building crossings, in order. -/
theorem exists_framed_profile (source receiver : Point3 α) (g : α) :
    ∃ blocks, Framed s.footOf (s.profile source receiver g).points blocks ∧
      blocks.flatMap Block.crossings =
        (sortAlong ⟨source, receiver⟩ (s.collected ⟨source, receiver⟩ g)).filter isBuilding := by
  obtain ⟨inner, hinner, hpoints⟩ := s.profile_points source receiver g
  have hsource : (s.sourcePoint source g).isBuilding = false := rfl
  have hreceiver : (s.receiverPoint receiver g).isBuilding = false := rfl
  have hall : inner.filter isBuilding =
      (s.interior ⟨source, receiver⟩ g).filter isBuilding := by
    rw [← s.filter_building_profile, hpoints, List.filter_cons_of_neg (by simp [hsource]),
      List.filter_append, List.filter_cons_of_neg (by simp [hreceiver]), List.filter_nil,
      List.append_nil]
  obtain ⟨blocks, hblocks, hcrossings⟩ := exists_framed_frame s.footOf_owner
    (sortAlong ⟨source, receiver⟩ (s.collected ⟨source, receiver⟩ g))
  refine ⟨blocks, ?_, hcrossings⟩
  rw [hpoints]
  exact .other hsource ((hblocks.sublist s.footOf_kind hinner hall).concat hreceiver)

end

/-- **Building framing.** The foot of a crossing is the crossing itself on the ground, or at zero
    where the ground is undefined, and not at the end of a wall. The building points of the profile
    of a sealed site are a row of blocks, and can be split in this way only: crossings of one owner
    between the feet of the first and the last of them, neighbouring blocks of different owners. In
    the profile each foot stands right beside its crossing. Without the feet there are the building
    crossings in order along the line, each of a building of the site, and at its roof if that is
    finite. -/
theorem IsSealed.profile_blocks {α : Type} [Circular α] [LawfulScalar α]
    [Std.TransCmp (Scalar.totalCmp : α → α → Ordering)] {s : Site α} (h : s.IsSealed)
    (source receiver : Point3 α) (g : α) :
    let ground (c : SectionPoint α) : α := s.groundZ c.position.plan
    let foot (c : SectionPoint α) : SectionPoint α :=
      { c with
        position := c.position.withZ (if Scalar.isNaN (ground c) then 0 else ground c)
        atEnd := false }
    ∃ blocks : List (Block α),
      Framed foot (s.profile source receiver g).points blocks ∧
      (∀ blocks', Splits foot ((s.profile source receiver g).points.filter isBuilding) blocks' ↔
        blocks' = blocks) ∧
      blocks.flatMap Block.crossings =
        (sortAlong ⟨source, receiver⟩ (s.collected ⟨source, receiver⟩ g)).filter isBuilding ∧
      (blocks.flatMap Block.crossings).Pairwise
        (fun c d => (alongOrder ⟨source, receiver⟩ c d).isLE) ∧
      ∀ b ∈ blocks, ∀ c ∈ b.crossings, ∃ (i : Nat) (B : Building α),
        c.owner = some i ∧ s.buildings[i]? = some B ∧
        (Scalar.isFinite B.roofZ = true → c.position.z = B.roofZ) := by
  intro ground foot
  obtain ⟨blocks, hframed, hcrossings⟩ := s.exists_framed_profile source receiver g
  have hsplits := hframed.splits s.footOf_kind
  refine ⟨blocks, hframed, fun blocks' => ⟨hsplits.unique s.footOf_owner, ?_⟩, hcrossings, ?_, ?_⟩
  · rintro rfl
    exact hsplits
  · rw [hcrossings]
    exact (pairwise_sortAlong _ _).filter _
  · intro b hb c hc
    have hmem : c ∈ blocks.flatMap Block.crossings := List.mem_flatMap.mpr ⟨b, hb, hc⟩
    rw [hcrossings] at hmem
    obtain ⟨hsorted, hbuilding⟩ := List.mem_filter.mp hmem
    exact h.roof_of_mem_crossings
      (s.mem_crossings_of_mem_collected (List.mem_mergeSort.mp hsorted) hbuilding) hbuilding

/-! ## Two houses on a slope

  They share a side, and are met from the east. -/

/-- A slope that rises by one in eight towards the east. -/
def eastSlope : Option (Terrain Float) :=
  Terrain.ofMesh? (.ofFaces [⟨-16, -16, -2⟩, ⟨64, -16, 8⟩, ⟨64, 48, 8⟩, ⟨-16, 48, -2⟩]
    [⟨0, 1, 2⟩, ⟨0, 2, 3⟩])

/-- The houses, the eastern one first. -/
def rowHouses : Site Float :=
  ((Draft.empty Settings.default).afterAll
    [.building [⟨16, -5, 0⟩, ⟨24, -5, 0⟩, ⟨24, 5, 0⟩, ⟨16, 5, 0⟩] 3 [] 1,
     .building [⟨8, -5, 0⟩, ⟨16, -5, 0⟩, ⟨16, 5, 0⟩, ⟨8, 5, 0⟩] 5 [] 2]).siteOver eastSlope

/-- A line through both houses. -/
def throughHouses : Segment Float := ⟨⟨40, 0, 6⟩, ⟨0, 0, 1⟩⟩

/-- Where the line crosses a side of a house. -/
def houseSide (house : Nat) (x z : Float) : SectionPoint Float :=
  ⟨⟨x, 0, z⟩, .building, some house, 0.5, some [], false⟩

theorem alongPieces_rowHouses :
    rowHouses.alongPieces rowHouses.boundaryIndex throughHouses = [1, 3, 5, 7] := by
  have hquery : (throughHouses.split rowHouses.settings.pieceLength).flatMap
      (fun piece => rowHouses.boundaryIndex.query piece.box) = [1, 3, 5, 7] := by decide +kernel
  rw [alongPieces, hquery, sortedOnce_of_pairwise (by decide)]

/-- The crossings are collected in order. -/
theorem filter_building_rowHouses :
    (sortAlong throughHouses (rowHouses.collected throughHouses 0.5)).filter isBuilding =
      [houseSide 0 24 5.5, houseSide 0 16 5.5, houseSide 1 16 6.5, houseSide 1 8 6.5] := by
  have hcollected : (rowHouses.collected throughHouses 0.5).filter isBuilding =
      [houseSide 0 24 5.5, houseSide 0 16 5.5, houseSide 1 16 6.5, houseSide 1 8 6.5] := by
    rw [collected, crossings, alongPieces_rowHouses]
    decide +kernel
  rw [filter_sortAlong_of_pairwise (by rw [hcollected]; decide +kernel), hcollected]

/-- Each house has a block, though they meet the line at one place. Between the two the line is on
    the ground, at 2, and so it is before the one and behind the other. -/
theorem profile_blocks_rowHouses :
    rowHouses.IsSealed ∧
      Framed rowHouses.footOf (rowHouses.profile throughHouses.p0 throughHouses.p1 0.5).points
        [⟨houseSide 0 24 3, [houseSide 0 24 5.5, houseSide 0 16 5.5], houseSide 0 16 2⟩,
         ⟨houseSide 1 16 2, [houseSide 1 16 6.5, houseSide 1 8 6.5], houseSide 1 8 1⟩] := by
  have hsealed : rowHouses.IsSealed := ⟨_, _, eastSlope, rfl⟩
  obtain ⟨blocks, hframed, hunique, _⟩ :=
    hsealed.profile_blocks throughHouses.p0 throughHouses.p1 0.5
  refine ⟨hsealed, ?_⟩
  have hsplits : Splits rowHouses.footOf
      ((rowHouses.profile throughHouses.p0 throughHouses.p1 0.5).points.filter isBuilding)
      [⟨houseSide 0 24 3, [houseSide 0 24 5.5, houseSide 0 16 5.5], houseSide 0 16 2⟩,
       ⟨houseSide 1 16 2, [houseSide 1 16 6.5, houseSide 1 8 6.5], houseSide 1 8 1⟩] := by
    refine ⟨?_, ?_, by decide⟩
    · rw [filter_building_profile]
      show _ = (frame rowHouses.footOf
        (sortAlong throughHouses (rowHouses.collected throughHouses 0.5))).filter isBuilding
      rw [filter_building_frame rowHouses.footOf_kind, filter_building_rowHouses]
      decide +kernel
    · rintro b (_ | ⟨_, _ | ⟨_, ⟨⟩⟩⟩)
      · exact ⟨by decide +kernel, by decide +kernel, by decide⟩
      · exact ⟨by decide +kernel, by decide +kernel, by decide⟩
  rw [(hunique _).mp hsplits]
  exact hframed

end Site

end SiteSection
