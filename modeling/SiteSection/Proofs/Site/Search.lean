import SiteSection.Proofs.Section.Arrangement
import SiteSection.Proofs.Section.GroundSteps

/-! # Lookups and searches

  A location is looked up by the boxes of the polygons, and then each polygon whose box holds
  it is asked whether it covers it. A search asks all polygons.

  A polygon covers what is inside, and what is within a small distance of an edge, on either
  side. Its box has no such margin, and the location is looked up by a box without extent. So a
  lookup misses a polygon where the location is beyond its box, though within that distance of
  an edge. Inside a polygon and on its edges nothing is missed.
-/

namespace SiteSection

/-! ## Searches -/

section
variable {α : Type} [Scalar α]

/-- Does the polygon cover the location, and its box hold it? -/
def Polygon.found (g : Polygon α) (p : Point2 α) : Bool := g.covers p && g.box.contains p

namespace Site

variable (s : Site α)

/-- The numbers of the regions with a polygon of some kind. -/
def regionsOf (kind : Polygon α → Bool) : List Nat :=
  (s.regions.zipIdx.filter fun (r, _) => r.polygons.any kind).map (·.2)

/-- Of all regions with a polygon of some kind, the highest. -/
def searchRegion? (kind : Polygon α → Bool) : Option Nat := (s.regionsOf kind).max?

/-- Of all buildings with a plan of some kind, the lowest. -/
def searchBuilding? (kind : Polygon α → Bool) : Option (Building α) :=
  s.buildings.find? fun b => kind b.plan

/-- The elevation of the roof of a building over a location, or else of the terrain. -/
def elevationOf (p : Point2 α) : Option (Building α) → α
  | some b => b.roofZ
  | none => s.groundZ p

end Site

end

/-! ## Asking for less -/

section
variable {ι : Type} {p q : ι → Bool}

/-- The first element that counts is still the first if fewer count, provided that it does. -/
theorem find?_eq_iff_of_imp (himp : ∀ i, p i = true → q i = true) (l : List ι) :
    l.find? p = l.find? q ↔ ∀ i, l.find? q = some i → p i = true := by
  induction l with
  | nil => simp
  | cons i l ih =>
    cases hq : q i with
    | false =>
      have hp : p i = false := by
        rw [Bool.eq_false_iff]
        intro hp
        rw [himp i hp] at hq
        cases hq
      rw [List.find?_cons_of_neg (by simp [hp]), List.find?_cons_of_neg (by simp [hq]), ih]
    | true =>
      rw [List.find?_cons_of_pos hq]
      constructor
      · rintro h _ ⟨⟩
        exact List.find?_some h
      · intro h
        exact List.find?_cons_of_pos (h i rfl)

/-- The greatest number is still the greatest among fewer, provided that it is one of them. -/
theorem max?_eq_iff_of_subset {l l' : List Nat} (hsub : l ⊆ l') :
    l.max? = l'.max? ↔ ∀ k, l'.max? = some k → k ∈ l := by
  constructor
  · intro h k hk
    rw [← h] at hk
    exact List.max?_mem hk
  · intro h
    cases hk : l'.max? with
    | none =>
      rw [List.max?_eq_none_iff] at hk ⊢
      rw [hk] at hsub
      exact List.subset_nil.mp hsub
    | some k =>
      obtain ⟨_, hgreatest⟩ := List.max?_eq_some_iff.mp hk
      exact List.max?_eq_some_iff.mpr ⟨h k hk, fun j hj => hgreatest j (hsub hj)⟩

/-- The greatest number depends on which numbers there are. -/
theorem max?_congr {l l' : List Nat} (h : ∀ k, k ∈ l ↔ k ∈ l') : l.max? = l'.max? :=
  (max?_eq_iff_of_subset fun k hk => (h k).mp hk).mpr fun k hk =>
    (h k).mpr (List.max?_mem hk)

end

/-! ## What a polygon covers -/

section
variable {K : Type} [ExactScalar K] {g : Polygon K} {p : Point2 K}

theorem Polygon.covers_of_found (h : g.found p = true) : g.covers p = true :=
  (Bool.and_eq_true_iff.mp h).1

/-- The location is inside the polygon or on one of its edges, without tolerance. -/
def Polygon.Holds (g : Polygon K) (p : Point2 K) : Prop :=
  g.inside p = true ∨ ∃ e ∈ g.edges, (Segment.flat e.1 e.2).On p

/-- A polygon that holds a location is found there. -/
theorem Polygon.Holds.found (h : g.Holds p) : g.found p = true := by
  rw [Polygon.found, Bool.and_eq_true]
  rcases h with h | ⟨e, he, hon⟩
  · exact ⟨by rw [covers, h, Bool.true_or], Polygon.contains_of_inside h⟩
  · have hzero := (Segment.flat e.1 e.2).distTo_eq_zero.mpr hon
    have hboundary : Ring.onBoundary g.ring p = true := by
      rw [Ring.onBoundary, List.any_eq_true]
      refine ⟨e, he, ?_⟩
      rw [decide_eq_true_eq, hzero]
      exact (Scalar.negPowTen_pos 9).le
    exact ⟨by rw [covers, hboundary, Bool.or_true], Segment.contains_of_on_edge he hon⟩

end

namespace Site

section
variable {K : Type} [ExactCircular K] {s : Site K} {p : Point2 K}

/-! ## Lookups of regions -/

omit [ExactCircular K] in
theorem mem_regionsOf {kind : Polygon K → Bool} {k : Nat} : k ∈ s.regionsOf kind ↔
    ∃ r, s.regions[k]? = some r ∧ ∃ g ∈ r.polygons, kind g = true := by
  simp only [regionsOf, List.mem_map, List.mem_filter, List.any_eq_true, Prod.exists,
    exists_eq_right, List.mk_mem_zipIdx_iff_getElem?]

/-- The polygons that are looked up at a location are those whose box holds it. -/
theorem IsSealed.mem_queryPoint_regions (h : s.IsSealed) {k j : Nat} :
    (k, j) ∈ s.regionIndex.queryPoint p ↔
      ∃ r g, s.regions[k]? = some r ∧ r.polygons[j]? = some g ∧ g.box.contains p = true := by
  rw [h.regionIndex_eq, BoxIndex.queryPoint, BoxIndex.mem_query_ofList]
  constructor
  · rintro ⟨item, hitem, hmeets, hnumber⟩
    obtain ⟨⟨r, k'⟩, hr, hpolygon⟩ := List.mem_flatMap.mp hitem
    obtain ⟨⟨g, j'⟩, hg, rfl⟩ := List.mem_map.mp hpolygon
    obtain ⟨rfl, rfl⟩ := Prod.mk.inj hnumber
    rw [g.meets_ofPoint] at hmeets
    exact ⟨r, g, List.mk_mem_zipIdx_iff_getElem?.mp hr, List.mk_mem_zipIdx_iff_getElem?.mp hg,
      hmeets⟩
  · rintro ⟨r, g, hr, hg, hbox⟩
    refine ⟨(g.box, (k, j)), List.mem_flatMap.mpr ⟨(r, k), ?_, ?_⟩, ?_, rfl⟩
    · exact List.mk_mem_zipIdx_iff_getElem?.mpr hr
    · exact List.mem_map.mpr ⟨(g, j), List.mk_mem_zipIdx_iff_getElem?.mpr hg, rfl⟩
    · rw [g.meets_ofPoint]
      exact hbox

/-- The regions that count in a lookup are those with a polygon that is found. -/
theorem IsSealed.mem_lookup_iff (h : s.IsSealed) {k : Nat} :
    k ∈ ((s.regionIndex.queryPoint p).filter (s.regionCovers p)).map (·.1) ↔
      k ∈ s.regionsOf (·.found p) := by
  have hcovers : ∀ {j r g}, s.regions[k]? = some r → r.polygons[j]? = some g →
      s.regionCovers p (k, j) = g.covers p := by
    intro j r g hr hg
    simp [regionCovers, hr, hg]
  rw [mem_regionsOf, List.mem_map]
  constructor
  · rintro ⟨⟨k, j⟩, hmem, rfl⟩
    obtain ⟨hquery, hcount⟩ := List.mem_filter.mp hmem
    obtain ⟨r, g, hr, hg, hbox⟩ := h.mem_queryPoint_regions.mp hquery
    rw [hcovers hr hg] at hcount
    exact ⟨r, hr, g, List.mem_of_getElem? hg, Bool.and_eq_true_iff.mpr ⟨hcount, hbox⟩⟩
  · rintro ⟨r, hr, g, hg, hfound⟩
    obtain ⟨hcount, hbox⟩ := Bool.and_eq_true_iff.mp hfound
    obtain ⟨j, hj⟩ := List.mem_iff_getElem?.mp hg
    refine ⟨(k, j), List.mem_filter.mpr ⟨?_, ?_⟩, rfl⟩
    · exact h.mem_queryPoint_regions.mpr ⟨r, g, hr, hj, hbox⟩
    · rw [hcovers hr hj]
      exact hcount

/-- A lookup of regions searches for what is found. -/
theorem IsSealed.regionAt?_eq_search (h : s.IsSealed) (p : Point2 K) :
    s.regionAt? p = s.searchRegion? (·.found p) :=
  max?_congr fun _ => h.mem_lookup_iff

/-! ## Lookups of buildings -/

/-- The buildings that are looked up at a location are those whose box holds it. -/
theorem IsSealed.mem_queryPoint_iff (h : s.IsSealed) {i : Nat} {b : Building K}
    (hb : s.buildings[i]? = some b) :
    i ∈ s.buildingIndex.queryPoint p ↔ b.plan.box.contains p = true := by
  rw [h.buildingIndex_eq, BoxIndex.queryPoint, BoxIndex.mem_query_zipIdx hb, Building.box,
    Polygon.meets_ofPoint]

/-- A lookup of buildings searches for what is found. -/
theorem IsSealed.buildingAt?_eq_search (h : s.IsSealed) (p : Point2 K) :
    s.buildingAt? p = s.searchBuilding? (·.found p) := by
  set looked := (sortedOnce (s.buildingIndex.queryPoint p)).filterMap (s.buildings[·]?)
    with hlooked
  -- Among the buildings that are looked up, what is covered is found.
  have hcovers : ∀ b ∈ looked, b.plan.covers p = b.plan.found p := by
    intro b hb
    obtain ⟨i, hi, hget⟩ := List.mem_filterMap.mp hb
    rw [mem_sortedOnce, h.mem_queryPoint_iff hget] at hi
    rw [Polygon.found, hi, Bool.and_true]
  have hall : looked.filter (fun b => b.plan.found p) =
      s.buildings.filter fun b => b.plan.found p := by
    rw [← List.filterMap_eq_filter]
    apply filterMap_of_increasing _ (pairwise_sortedOnce _)
    intro i b hb hsome
    rw [mem_sortedOnce, h.mem_queryPoint_iff hb]
    rw [Option.isSome_guard] at hsome
    exact (Bool.and_eq_true_iff.mp hsome).2
  calc s.buildingAt? p
      = (looked.filter fun b => b.plan.covers p).head? := List.head?_filter.symm
    _ = (s.buildings.filter fun b => b.plan.found p).head? := by
        rw [List.filter_congr hcovers, hall]
    _ = s.searchBuilding? (·.found p) := List.head?_filter

/-! ## Lookups against searches -/

/-- A lookup of regions is a search for what covers a location if what the search gives is
    found. -/
theorem IsSealed.regionAt?_eq_search_iff (h : s.IsSealed) :
    s.regionAt? p = s.searchRegion? (·.covers p) ↔
      ∀ k, s.searchRegion? (·.covers p) = some k → k ∈ s.regionsOf (·.found p) := by
  rw [h.regionAt?_eq_search p]
  apply max?_eq_iff_of_subset
  intro k hk
  obtain ⟨r, hr, g, hg, hfound⟩ := mem_regionsOf.mp hk
  exact mem_regionsOf.mpr ⟨r, hr, g, hg, g.covers_of_found hfound⟩

/-- A lookup of buildings is a search for what covers a location if what the search gives is
    found. -/
theorem IsSealed.buildingAt?_eq_search_iff (h : s.IsSealed) :
    s.buildingAt? p = s.searchBuilding? (·.covers p) ↔
      ∀ b, s.searchBuilding? (·.covers p) = some b → b.plan.found p = true := by
  rw [h.buildingAt?_eq_search p]
  exact find?_eq_iff_of_imp (fun b hb => b.plan.covers_of_found hb) _

/-- **Lookups and searches.** At every location of a sealed site, a lookup of regions gives the
    highest region with a polygon that covers the location and whose box holds it; the
    elevation is that of the roof of the lowest such building, or else of the terrain. These
    are what searches give for polygons that cover the location, whatever their boxes, exactly
    if what the searches give is found in this way; and so it is wherever the polygons that
    cover the location hold it without tolerance. -/
theorem IsSealed.lookups_eq_searches (h : s.IsSealed) (p : Point2 K) :
    s.regionAt? p = s.searchRegion? (·.found p) ∧
    s.surfaceZ p = s.elevationOf p (s.searchBuilding? (·.found p)) ∧
    (s.regionAt? p = s.searchRegion? (·.covers p) ↔
      ∀ k, s.searchRegion? (·.covers p) = some k → k ∈ s.regionsOf (·.found p)) ∧
    (s.buildingAt? p = s.searchBuilding? (·.covers p) ↔
      ∀ b, s.searchBuilding? (·.covers p) = some b → b.plan.found p = true) ∧
    ((∀ r ∈ s.regions, ∀ g ∈ r.polygons, g.covers p = true → g.Holds p) →
      s.regionAt? p = s.searchRegion? (·.covers p)) ∧
    ((∀ b ∈ s.buildings, b.plan.covers p = true → b.plan.Holds p) →
      s.surfaceZ p = s.elevationOf p (s.searchBuilding? (·.covers p))) := by
  have hsurface : s.surfaceZ p = s.elevationOf p (s.buildingAt? p) := rfl
  refine ⟨h.regionAt?_eq_search p, ?_, h.regionAt?_eq_search_iff, h.buildingAt?_eq_search_iff,
    fun hholds => ?_, fun hholds => ?_⟩
  · rw [hsurface, h.buildingAt?_eq_search p]
  · apply h.regionAt?_eq_search_iff.mpr
    intro k hk
    obtain ⟨r, hr, g, hg, hcovers⟩ := mem_regionsOf.mp (List.max?_mem hk)
    have hfound := (hholds r (List.mem_of_getElem? hr) g hg hcovers).found
    exact mem_regionsOf.mpr ⟨r, hr, g, hg, hfound⟩
  · have hlookup : s.buildingAt? p = s.searchBuilding? (·.covers p) := by
      apply h.buildingAt?_eq_search_iff.mpr
      intro b hb
      have hcovers : b.plan.covers p = true :=
        List.find?_some (p := fun b : Building K => b.plan.covers p) hb
      exact (hholds b (List.mem_of_find?_eq_some hb) hcovers).found
    rw [hsurface, hlookup]

end

/-! Beside a square, at half the distance up to which it covers locations. -/

/-- The polygon of the square ground region. -/
noncomputable def square : Polygon ℝ := ⟨[⟨1, -2⟩, ⟨5, -2⟩, ⟨5, 2⟩, ⟨1, 2⟩]⟩

/-- The eastern edge of the square. -/
noncomputable def eastEdge : Segment ℝ := Segment.flat ⟨5, -2⟩ ⟨5, 2⟩

/-- A location to the east of the square. -/
noncomputable def besideSquare : Point2 ℝ := ⟨5 + 1 / (2 * 10 ^ 9), 0⟩

theorem distTo_besideSquare : eastEdge.distTo besideSquare = 1 / (2 * 10 ^ 9) := by
  have hnearest : (eastEdge.nearest besideSquare).plan = ⟨5, 0⟩ := by
    have hproject : eastEdge.project besideSquare = 1 / 2 := by
      rw [eastEdge.project_eq] <;>
        norm_num [eastEdge, Segment.flat, Point2.atZ, besideSquare, Segment.sqLength]
    rw [Segment.nearest, hproject, Scalar.clampUnit_of_mem (by norm_num) (by norm_num)]
    ext <;> norm_num [eastEdge, Segment.flat, Point2.atZ]
  rw [Segment.distTo, hnearest]
  refine Point2.norm_eq_of_mul_self (by norm_num) ?_
  norm_num [Point2.normSq, besideSquare]

theorem covers_besideSquare : square.covers besideSquare = true := by
  have hnear : eastEdge.distTo besideSquare ≤ Ring.boundaryTolerance := by
    rw [distTo_besideSquare]
    norm_num [Ring.boundaryTolerance, Scalar.negPowTen]
  have hboundary : Ring.onBoundary square.ring besideSquare = true := by
    rw [Ring.onBoundary, List.any_eq_true]
    exact ⟨(⟨5, -2⟩, ⟨5, 2⟩), by simp [square, ringEdges], decide_eq_true hnear⟩
  rw [Polygon.covers, hboundary, Bool.or_true]

theorem contains_besideSquare : square.box.contains besideSquare = false := by
  rw [Bool.eq_false_iff]
  intro hin
  have hall : ∀ v ∈ square.ring, Box2.contains (Box.ofCorners ⟨1, -2⟩ ⟨5, 2⟩) v = true := by
    simp [square, Box2.contains_ofCorners]
  have heast := (Box2.contains_ofCorners.mp
    (Box2.contains_of_contains_ofPoints (by simp [square]) hall hin)).1.2
  norm_num [besideSquare] at heast

/-- The square covers the location, but a lookup does not find it. -/
theorem lookups_eq_searches_besideSquare :
    squareSite.IsSealed ∧ squareSite.regionAt? besideSquare = none ∧
      squareSite.searchRegion? (·.covers besideSquare) = some 0 := by
  have hsealed : squareSite.IsSealed := ⟨_, _, none, rfl⟩
  have hregions : squareSite.regions = [⟨[square], 1⟩] := rfl
  have hfound : square.found besideSquare = false := by
    rw [Polygon.found, contains_besideSquare, Bool.and_false]
  refine ⟨hsealed, ?_, ?_⟩
  · rw [(hsealed.lookups_eq_searches besideSquare).1, searchRegion?, regionsOf, hregions]
    simp [hfound]
  · rw [searchRegion?, regionsOf, hregions]
    simp [covers_besideSquare]

end Site

end SiteSection
