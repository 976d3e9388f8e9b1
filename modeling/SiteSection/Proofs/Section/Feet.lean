import Mathlib.Algebra.Order.Group.Multiset
import Mathlib.Tactic.Abel
import SiteSection.Proofs.Section.Arrangement

/-! # The feet of buildings

  Framing puts a foot before the first crossing of every block and one behind its last. Which
  crossings these are depends on the owners of the crossings alone, one after the other, and
  reads the same from both ends.

  A foot says of its crossing what the building and the location determine. So two crossings
  of one building at one location have the same foot, and the feet of a section are known from
  the feet that its crossings would have.
-/

namespace SiteSection

namespace SectionPoint

variable {α : Type}

/-! ## First and last crossings of blocks -/

/-- The points that are first in their block, where `previous` is the point before them. -/
def firsts : Option (SectionPoint α) → List (SectionPoint α) → List (SectionPoint α)
  | _, [] => []
  | previous, c :: rest => (if c.beginsBlock previous then [c] else []) ++ firsts (some c) rest

/-- The points that are last in their block. -/
def lasts : List (SectionPoint α) → List (SectionPoint α)
  | [] => []
  | c :: rest => (if c.beginsBlock rest.head? then [c] else []) ++ lasts rest

@[simp] theorem firsts_nil (previous : Option (SectionPoint α)) : firsts previous [] = [] := rfl

@[simp] theorem lasts_nil : lasts ([] : List (SectionPoint α)) = [] := rfl

theorem firsts_concat (previous : Option (SectionPoint α)) (crossings : List (SectionPoint α))
    (c : SectionPoint α) :
    firsts previous (crossings ++ [c]) = firsts previous crossings ++
      if c.beginsBlock (crossings.getLast?.or previous) then [c] else [] := by
  induction crossings generalizing previous with
  | nil => cases h : c.beginsBlock previous <;> simp [firsts, h]
  | cons b crossings ih =>
    have hlast : (b :: crossings).getLast?.or previous = crossings.getLast?.or (some b) := by
      rw [List.getLast?_cons]
      cases crossings.getLast? <;> rfl
    rw [List.cons_append, firsts, firsts, ih, hlast, List.append_assoc]

/-- What is last from one end is first from the other. -/
theorem firsts_reverse (crossings : List (SectionPoint α)) :
    firsts none crossings.reverse = (lasts crossings).reverse := by
  induction crossings with
  | nil => rfl
  | cons c crossings ih =>
    rw [List.reverse_cons, firsts_concat, ih, lasts, List.reverse_append, Option.or_none,
      List.getLast?_reverse]
    split <;> rfl

theorem lasts_reverse (crossings : List (SectionPoint α)) :
    lasts crossings.reverse = (firsts none crossings).reverse := by
  have h := firsts_reverse crossings.reverse
  rw [List.reverse_reverse] at h
  rw [h, List.reverse_reverse]

/-- What keeps owners apart and together keeps blocks. -/
theorem firsts_map {f : SectionPoint α → SectionPoint α} {crossings : List (SectionPoint α)}
    {previous : Option (SectionPoint α)}
    (hf : ∀ a ∈ previous.toList ++ crossings, ∀ b ∈ previous.toList ++ crossings,
      (f a).owner = (f b).owner ↔ a.owner = b.owner) :
    firsts (previous.map f) (crossings.map f) = (firsts previous crossings).map f := by
  induction crossings generalizing previous with
  | nil => rfl
  | cons c crossings ih =>
    have hbegins : (f c).beginsBlock (previous.map f) = c.beginsBlock previous := by
      cases previous with
      | none => rfl
      | some b =>
        have howner := hf b (by simp) c (by simp)
        simp only [beginsBlock, Option.map_some, Option.all_some, bne]
        by_cases h : b.owner = c.owner
        · rw [beq_iff_eq.mpr h, beq_iff_eq.mpr (howner.mpr h)]
        · rw [beq_eq_false_iff_ne.mpr h, beq_eq_false_iff_ne.mpr fun h' => h (howner.mp h')]
    have hrest : ∀ a ∈ (some c).toList ++ crossings, a ∈ previous.toList ++ c :: crossings := by
      intro a ha
      exact List.mem_append_right _ (by simpa using ha)
    have ih : firsts (some (f c)) (crossings.map f) = (firsts (some c) crossings).map f :=
      ih fun a ha b hb => hf a (hrest a ha) b (hrest b hb)
    rw [List.map_cons, firsts, firsts, hbegins, ih, List.map_append]
    split <;> rfl

/-! ## The feet -/

/-- The feet of some crossings, where a crossing has the foot `base`. -/
def feet (base : SectionPoint α → SectionPoint α) (crossings : List (SectionPoint α)) :
    List (SectionPoint α) :=
  (firsts none crossings ++ lasts crossings).map base

/-- Framing adds the feet of the building points to a list. -/
theorem frame_perm (base : SectionPoint α → SectionPoint α) (points : List (SectionPoint α)) :
    (frame base points).Perm (points ++ feet base (points.filter isBuilding)) := by
  rw [frame, feet]
  generalize none = previous
  induction points generalizing previous with
  | nil => exact .nil
  | cons c rest ih =>
    rw [frameAfter]
    by_cases hc : c.isBuilding = true
    · have hends : c.endsBlock rest = c.beginsBlock (rest.filter isBuilding).head? := by
        rw [endsBlock, beginsBlock, List.head?_filter]
      have hfeet : ∀ {p : Bool},
          (if p then [base c] else []) = (if p then [c] else []).map base := by
        intro p
        split <;> rfl
      rw [if_pos hc, List.filter_cons_of_pos hc, firsts, lasts, hends, hfeet, hfeet]
      -- The same points in another order.
      have hrest := ih (some c)
      simp only [← Multiset.coe_eq_coe, ← Multiset.coe_add, ← Multiset.cons_coe, List.map_append,
        ← Multiset.singleton_add] at hrest ⊢
      rw [hrest]
      abel
    · rw [if_neg hc, List.filter_cons_of_neg hc]
      exact (ih previous).cons c

/-- Framing looks at building points only. -/
theorem filter_building_frame {base : SectionPoint α → SectionPoint α}
    (hbase : ∀ c, (base c).kind = c.kind) (points : List (SectionPoint α)) :
    (frame base points).filter isBuilding = frame base (points.filter isBuilding) := by
  rw [frame, frame]
  generalize none = previous
  induction points generalizing previous with
  | nil => rfl
  | cons c rest ih =>
    rw [frameAfter]
    by_cases hc : c.isBuilding = true
    · have hends : c.endsBlock (rest.filter isBuilding) = c.endsBlock rest := by
        rw [endsBlock, endsBlock, ← List.head?_filter, ← List.head?_filter, List.filter_filter]
        simp
      have hfoot : ∀ {p : Bool}, (if p then [base c] else []).filter isBuilding =
          if p then [base c] else [] := by
        have hbuilding : (base c).isBuilding = true := by rwa [isBuilding, hbase]
        intro p
        cases p <;> simp [hbuilding]
      rw [if_pos hc, List.filter_cons_of_pos hc, frameAfter, if_pos hc, hends, List.filter_append,
        List.filter_cons_of_pos hc, List.filter_append, hfoot, hfoot, ih]
    · rw [if_neg hc, List.filter_cons_of_neg hc, List.filter_cons_of_neg hc, ih]

/-- The building points of a framed list are those of the list and their feet. -/
theorem filter_building_frame_perm {base : SectionPoint α → SectionPoint α}
    (hbase : ∀ c, (base c).kind = c.kind) (points : List (SectionPoint α)) :
    ((frame base points).filter isBuilding).Perm
      (points.filter isBuilding ++ feet base (points.filter isBuilding)) := by
  have hperm := frame_perm base (points.filter isBuilding)
  rw [List.filter_filter] at hperm
  rw [filter_building_frame hbase]
  simpa using hperm

theorem feet_perm_reverse (base : SectionPoint α → SectionPoint α)
    (crossings : List (SectionPoint α)) :
    (feet base crossings.reverse).Perm (feet base crossings) := by
  rw [feet, feet, firsts_reverse, lasts_reverse]
  apply List.Perm.map
  exact ((List.reverse_perm _).append (List.reverse_perm _)).trans List.perm_append_comm

section
variable {base f : SectionPoint α → SectionPoint α} {crossings : List (SectionPoint α)}
  (hf : ∀ a ∈ crossings, ∀ b ∈ crossings, (f a).owner = (f b).owner ↔ a.owner = b.owner)
include hf

theorem firsts_none_map : firsts none (crossings.map f) = (firsts none crossings).map f := by
  have hnone : firsts (Option.map f none) (crossings.map f) = (firsts none crossings).map f := by
    apply firsts_map
    simpa using hf
  exact hnone

theorem lasts_map : lasts (crossings.map f) = (lasts crossings).map f := by
  have hreverse : firsts none (crossings.reverse.map f) =
      (firsts none crossings.reverse).map f := by
    apply firsts_none_map
    intro a ha b hb
    exact hf a (List.mem_reverse.mp ha) b (List.mem_reverse.mp hb)
  rw [List.map_reverse, firsts_reverse, firsts_reverse, List.map_reverse] at hreverse
  exact List.reverse_injective hreverse

/-- What keeps owners apart and together commutes with taking feet. -/
theorem feet_map : feet base (crossings.map f) = feet (base ∘ f) crossings := by
  rw [feet, feet, firsts_none_map hf, lasts_map hf, ← List.map_append, List.map_map]

end

end SectionPoint

/-! ## The building points of a section -/

namespace Site

open SectionPoint

section
variable {α : Type}

/-- A boundary of a building is one of its sides. -/
theorem IsSealed.exists_mem_sides [Circular α] {s : Site α} (h : s.IsSealed) {b : Boundary α}
    (hb : b ∈ s.boundaries) (hkind : b.kind = .building) :
    ∃ (i : Nat) (B : Building α), s.buildings[i]? = some B ∧ b ∈ B.sides i := by
  rw [h.boundaries_eq] at hb
  rcases List.mem_append.mp hb with hb | hb
  · rcases List.mem_append.mp hb with hb | hb
    · obtain ⟨⟨B, i⟩, hB, hside⟩ := List.mem_flatMap.mp hb
      exact ⟨i, B, List.mk_mem_zipIdx_iff_getElem?.mp hB, hside⟩
    · rw [h.kind_of_mem_walls b hb] at hkind
      cases hkind
  · rw [kind_of_mem_borders b hb] at hkind
    cases hkind

/-- A side of a building has its absorption. -/
theorem role_of_mem_sides {B : Building α} {i : Nat} {b : Boundary α} (hb : b ∈ B.sides i) :
    b.role = .side i B.absorption := by
  obtain ⟨e, _, rfl⟩ := List.mem_map.mp hb
  rfl

/-- Where a line meets the side of a building. -/
theorem crossing?_of_side [Scalar α] (s : Site α) (line : Segment α) (g : α) {b : Boundary α}
    {i : Nat} {a : List α} (hrole : b.role = .side i a) :
    s.crossing? line g b = (line.intersect? b.segment).map fun x =>
      ⟨x.plan.atZ (s.crossingZ b x.plan), .building, some i, s.groundAt x.plan g, some a,
        b.hasEnd x.plan⟩ := by
  rw [crossing?, hrole]
  cases line.intersect? b.segment <;> rfl

end

section
variable {K : Type} [ExactScalar K] (s : Site K) (line : Segment K) (g : K)

/-- The crossings of building sides, in order along the line. -/
def sidesMet : List (SectionPoint K) :=
  (sortAlong line (s.collected line g)).filter isBuilding

/-- The feet of these crossings. -/
def framing : List (SectionPoint K) := feet s.footOf (s.sidesMet line g)

/-- The feet are known from the feet that the crossings would have. -/
theorem framing_eq : s.framing line g = feet id ((s.sidesMet line g).map s.footOf) := by
  have howner : ∀ a ∈ s.sidesMet line g, ∀ b ∈ s.sidesMet line g,
      (s.footOf a).owner = (s.footOf b).owner ↔ a.owner = b.owner := fun _ _ _ _ => Iff.rfl
  rw [feet_map howner]
  rfl

/-- In some order they are those that are collected. -/
theorem sidesMet_perm : (s.sidesMet line g).Perm ((s.crossings line g).filter isBuilding) := by
  have hterrain : (s.terrainPoints line g).filter isBuilding = [] := by
    apply List.filter_eq_nil_iff.mpr
    intro c hc
    obtain ⟨p, _, rfl⟩ := List.mem_map.mp hc
    simp [isBuilding]
  have hperm := (List.mergeSort_perm (s.collected line g)
    fun a b => (alongOrder line a b).isLE).filter isBuilding
  rwa [collected, List.filter_append, hterrain, List.nil_append] at hperm

theorem mem_crossings_of_mem_sidesMet {c : SectionPoint K} (h : c ∈ s.sidesMet line g) :
    c ∈ s.crossings line g ∧ c.isBuilding = true :=
  List.mem_filter.mp ((s.sidesMet_perm line g).subset h)

/-- The building points of a section are the crossings and their feet. -/
theorem filter_building_interior :
    ((s.interior line g).filter isBuilding).Perm (s.sidesMet line g ++ s.framing line g) :=
  filter_building_frame_perm s.footOf_kind (sortAlong line (s.collected line g))

end

section
variable {K : Type} [ExactCircular K] {s : Site K} {line line' : Segment K} {g : K}

theorem IsSealed.arranged_sidesMet (h : s.IsSealed) (line : Segment K) (g : K) :
    Arranged line (s.sidesMet line g) :=
  (arranged_sortAlong (fun _ hc => s.on_of_mem_collected hc) (h.pairwise_collected line g)).filter _

/-! ## Feet by building and location -/

/-- The foot of a building with some absorption at a location. -/
def footAt (s : Site K) (g : K) (building : Nat) (absorption : List K) (p : Point2 K) :
    SectionPoint K :=
  ⟨p.atZ (if Scalar.isNaN (s.groundZ p) then 0 else s.groundZ p), .building, some building,
    s.groundAt p g, some absorption, false⟩

/-- A building crossing is on a side of its building, and has the foot of the building at its
    location. -/
theorem IsSealed.footOf_crossing (h : s.IsSealed) {c : SectionPoint K}
    (hc : c ∈ s.crossings line g) (hbuilding : c.isBuilding = true) :
    ∃ b ∈ s.boundaries, ∃ i B, b.kind = .building ∧ b.owner = i ∧ s.buildings[i]? = some B ∧
      line.On c.position.plan ∧ b.segment.On c.position.plan ∧ c.owner = some i ∧
      s.footOf c = s.footAt g i B.absorption c.position.plan := by
  rw [h.crossings_eq] at hc
  obtain ⟨b, hb, hcrossing⟩ := List.mem_filterMap.mp hc
  have hkind : b.kind = .building := by
    rw [← (s.crossing?_spec hcrossing).2.1]
    exact of_decide_eq_true (by simpa [isBuilding] using hbuilding)
  obtain ⟨i, B, hB, hside⟩ := h.exists_mem_sides hb hkind
  have hrole : b.role = .side i B.absorption := role_of_mem_sides hside
  rw [s.crossing?_of_side line g hrole] at hcrossing
  obtain ⟨x, hx, rfl⟩ := Option.map_eq_some_iff.mp hcrossing
  have howner : b.owner = i := by rw [Boundary.owner, hrole]
  have hline : line.On x.plan := line.on_left_of_intersect? b.segment hx
  have hon : b.segment.On x.plan := line.on_right_of_intersect? b.segment hx
  exact ⟨b, hb, i, B, hkind, howner, hB, hline, hon, rfl, rfl⟩

/-- At no place of a line do sides of two buildings meet. -/
def BuildingsApart (s : Site K) (line : Segment K) : Prop :=
  ∀ b ∈ s.boundaries, ∀ b' ∈ s.boundaries, b.kind = .building → b'.kind = .building →
    ∀ p, line.On p → b.segment.On p → b'.segment.On p → b.owner = b'.owner

/-- Where no sides of two buildings meet on the line, there is one foot at every location. -/
theorem IsSealed.footOf_eq_of_apart (h : s.IsSealed) (hapart : s.BuildingsApart line)
    {c d : SectionPoint K} (hc : c ∈ s.sidesMet line g) (hd : d ∈ s.sidesMet line' g)
    (hplan : c.position.plan = d.position.plan) : s.footOf c = s.footOf d := by
  obtain ⟨hc, hcb⟩ := s.mem_crossings_of_mem_sidesMet line g hc
  obtain ⟨hd, hdb⟩ := s.mem_crossings_of_mem_sidesMet line' g hd
  obtain ⟨b, hb, i, B, hkind, rfl, hB, hline, hon, _, hfoot⟩ := h.footOf_crossing hc hcb
  obtain ⟨b', hb', i', B', hkind', rfl, hB', _, hon', _, hfoot'⟩ := h.footOf_crossing hd hdb
  have howner : b.owner = b'.owner :=
    hapart b hb b' hb' hkind hkind' _ hline hon (hplan ▸ hon')
  rw [howner, hB', Option.some.injEq] at hB
  rw [hfoot, hfoot', howner, hB, hplan]

end

end Site

end SiteSection
