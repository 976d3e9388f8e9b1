import SiteSection.Proofs.Section.Order
import SiteSection.Proofs.Site.Search

/-! # The order of hits

  What an index returns for a query comes in the order in which its tree happens to be walked,
  and that order means nothing. Here every query of a site is answered in an order of its own,
  and nothing that a site can be asked tells the difference.

  Each caller has its own way to forget the order. Most put the hits in order or take the
  greatest; the terrain takes the least by a key that ends in the number of the triangle. A
  triangle may offer several crossings with equal keys, and then the first of them wins; but
  these come from one hit, and keep their order.

  All that is needed of the arithmetic is a total order to compare keys by.
-/

namespace SiteSection

/-! ## Choosing from hits in some order -/

/-- Numbers in order, each once, depend on which numbers there are. -/
theorem sortedOnce_congr {l l' : List Nat} (h : ∀ k, k ∈ l ↔ k ∈ l') :
    sortedOnce l = sortedOnce l' := by
  apply (pairwise_sortedOnce l).eq_of_mem_iff (pairwise_sortedOnce l')
  intro k
  rw [mem_sortedOnce, mem_sortedOnce, h]

section
variable {ι κ : Type}

/-- Where at most one element has a value, it is found in any order. -/
theorem findSome?_perm {g : κ → Option ι} {l l' : List κ} (hperm : l.Perm l')
    (hone : ∀ t ∈ l, ∀ u ∈ l, (g t).isSome = true → (g u).isSome = true → t = u) :
    l.findSome? g = l'.findSome? g := by
  cases h : l.findSome? g with
  | none =>
    rw [List.findSome?_eq_none_iff] at h
    symm
    rw [List.findSome?_eq_none_iff]
    exact fun t ht => h t (hperm.mem_iff.mpr ht)
  | some a =>
    obtain ⟨t, ht, ha⟩ := List.exists_of_findSome?_eq_some h
    have hsome : (l'.findSome? g).isSome = true :=
      List.findSome?_isSome_iff.mpr ⟨t, hperm.mem_iff.mp ht, by rw [ha]; rfl⟩
    obtain ⟨b, hb⟩ := Option.isSome_iff_exists.mp hsome
    obtain ⟨u, hu, hub⟩ := List.exists_of_findSome?_eq_some hb
    have htu : t = u := hone t ht u (hperm.mem_iff.mpr hu) (by rw [ha]; rfl) (by rw [hub]; rfl)
    rw [hb, ← hub, ← htu, ha]

variable {cmp : ι → ι → Ordering} [Std.TransCmp cmp]

/-- The least of what some hits offer depends on the hits, not on their order, if equal elements
    are offered by one hit. -/
theorem leastBy?_flatMap_perm {f : κ → List ι} {hits hits' : List κ} (hperm : hits.Perm hits')
    (hone : ∀ t u, ∀ a ∈ f t, ∀ b ∈ f u, cmp a b = .eq → t = u) :
    leastBy? cmp (hits.flatMap f) = leastBy? cmp (hits'.flatMap f) := by
  have hleads : leads cmp (hits'.flatMap f) = leads cmp (hits.flatMap f) := by
    funext a
    exact (hperm.flatMap_right f).all_eq.symm
  rw [leastBy?_eq_find?, leastBy?_eq_find?, hleads, List.find?_flatMap, List.find?_flatMap]
  apply findSome?_perm hperm
  intro t ht u hu hat hbu
  obtain ⟨a, ha⟩ := Option.isSome_iff_exists.mp hat
  obtain ⟨b, hb⟩ := Option.isSome_iff_exists.mp hbu
  have hat : a ∈ f t := List.mem_of_find?_eq_some ha
  have hbu : b ∈ f u := List.mem_of_find?_eq_some hb
  -- Each of the two leads the other.
  have hab := leads_iff.mp (List.find?_some ha) b (List.mem_flatMap.mpr ⟨u, hu, hbu⟩)
  have hba := leads_iff.mp (List.find?_some hb) a (List.mem_flatMap.mpr ⟨t, ht, hat⟩)
  exact hone t u a hat b hbu (Std.OrientedCmp.isLE_antisymm hab hba)

end

/-! ## Hits in any order -/

/-- What each index returns for each query, in some order. -/
structure HitOrder (α : Type) [Scalar α] where
  /-- The hits of a query. -/
  hits {ι : Type} : BoxIndex α ι → Box2 α → List ι
  /-- These are the items whose box meets the box of the query. -/
  perm {ι : Type} (x : BoxIndex α ι) (b : Box2 α) : (hits x b).Perm (x.query b)

namespace HitOrder

variable {α : Type} [Scalar α]

/-- The hits in the order in which the items were filed. -/
def filed : HitOrder α where
  hits x b := x.query b
  perm _ _ := .refl _

/-- The hits in the opposite order. -/
def backwards : HitOrder α where
  hits x b := (x.query b).reverse
  perm _ _ := List.reverse_perm _

variable (q : HitOrder α)

/-- The items whose box holds a location. -/
def hitsAt {ι : Type} (x : BoxIndex α ι) (p : Point2 α) : List ι := q.hits x (Box.ofPoint p)

theorem mem_hits {ι : Type} {x : BoxIndex α ι} {b : Box2 α} {k : ι} :
    k ∈ q.hits x b ↔ k ∈ x.query b := (q.perm x b).mem_iff

/-! ## Terrain in a hit order -/

section
variable (t : Terrain α)

/-- The triangle that holds a location. -/
def locate? (p : Point2 α) : Option Nat :=
  let found := (q.hitsAt t.index p).filterMap fun i => (t.excess? i p).map fun e => (e, i)
  (leastBy? (fun a b => (Scalar.totalCmp a.1 b.1).then (compare a.2 b.2)) found).map (·.2)

/-- The elevation at a location, if some triangle holds it. -/
def elevation? (p : Point2 α) : Option α := (q.locate? t p).map fun i => t.planeZ i p

/-- The elevation at a location, undefined off the mesh. -/
def elevation (p : Point2 α) : α := (q.elevation? t p).getD Scalar.nan

/-- Where a line first meets the mesh, and the triangle that it meets there. -/
def entry? (line : Segment α) : Option (Nat × Point3 α) :=
  let hits := (q.hits t.index (line.box.thicken 1 1)).flatMap (t.sideCrossings line)
  (leastBy? (fun a b => (Scalar.totalCmp a.1 b.1).then (compare a.2.1 b.2.1)) hits).map (·.2)

/-- The first sample and its triangle. -/
def start? (line : Segment α) : Option (Nat × Point3 α) :=
  match q.locate? t line.p0.plan with
  | some i => some (i, line.p0.withZ (t.planeZ i line.p0.plan))
  | none => q.entry? t line

/-- Elevation samples from `a` towards `b`. -/
def walk (a b : Point2 α) (eps : α) : List (Point3 α) :=
  let line := Segment.flat a b
  match q.start? t line with
  | none => []
  | some (i, first) => first :: t.samplesFrom line eps (t.triangles.length + 1) [] i first

end

/-! ## Sites in a hit order -/

section
variable (s : Site α)

/-- The elevation of the terrain, undefined off it. -/
def groundZ (p : Point2 α) : α :=
  match s.terrain with
  | some t => q.elevation t p
  | none => Scalar.nan

/-- The lowest building that covers a location. -/
def buildingAt? (p : Point2 α) : Option (Building α) :=
  ((sortedOnce (q.hitsAt s.buildingIndex p)).filterMap (s.buildings[·]?)).find? (·.plan.covers p)

/-- The elevation of the roof over a location, or else of the terrain. -/
def surfaceZ (p : Point2 α) : α :=
  match q.buildingAt? s p with
  | some b => b.roofZ
  | none => q.groundZ s p

/-- The region in effect at a location. -/
def regionAt? (p : Point2 α) : Option Nat :=
  (((q.hitsAt s.regionIndex p).filter (s.regionCovers p)).map (·.1)).max?

/-- The ground coefficient at a location. -/
def groundAt (p : Point2 α) (otherwise : α) : α :=
  (((q.regionAt? s p).bind (s.regions[·]?)).map (·.coefficient)).getD otherwise

/-- The items of an index whose boxes meet those of the pieces of a line. -/
def alongPieces (x : BoxIndex α Nat) (line : Segment α) : List Nat :=
  sortedOnce ((line.split s.settings.pieceLength).flatMap fun piece => q.hits x piece.box)

/-- The buildings whose boxes meet those of the pieces of a line. -/
def buildingsAlong (line : Segment α) : List (Nat × Building α) :=
  (q.alongPieces s s.buildingIndex line).filterMap fun i => s.buildings[i]?.map (i, ·)

/-- The walls whose boxes meet that of a line. -/
def wallsAlong (line : Segment α) : List (Nat × Boundary α) :=
  (sortedOnce (q.hits s.wallIndex line.box)).filterMap fun i => s.walls[i]?.map (i, ·)

/-- The building sides and walls whose boxes meet a box. -/
def obstaclesIn (b : Box2 α) : List (Boundary α) :=
  ((sortedOnce (q.hits s.boundaryIndex b)).filterMap (s.boundaries[·]?)).filter fun w =>
    w.kind == .building || w.kind == .wall

end

/-! ## Sections in a hit order -/

section
variable (s : Site α) (line : Segment α) (otherwise : α)

/-- The ground coefficient just past a location. -/
def groundAhead (p : Point2 α) : α :=
  let length := Coordinates.norm line.dir
  if length == 0 then q.groundAt s p otherwise
  else q.groundAt s (p + Coordinates.scale line.dir (Site.aheadStep / length)) otherwise

/-- The terrain under a line, as section points. -/
def terrainPoints : List (SectionPoint α) :=
  let samples := match s.terrain with
    | none => []
    | some t => q.walk t line.p0.plan line.p1.plan s.settings.crossingTolerance
  (thin s.settings.terrainTolerance samples).map fun p =>
    .plain p .terrain (q.groundAt s p.plan otherwise)

/-- The elevation of a boundary at a location on it. -/
def crossingZ (b : Boundary α) (p : Point2 α) : α :=
  if Scalar.isFinite b.p0.z && Scalar.isFinite b.p1.z then b.segment.elevation p
  else q.groundZ s p

/-- The ground coefficient at a wall. -/
def groundAtWall (wall : Nat) (p : Point2 α) : α :=
  q.groundAt s p (((s.regions[wall]?).map (·.coefficient)).getD otherwise)

/-- The section point where a line meets a boundary. -/
def crossing? (b : Boundary α) : Option (SectionPoint α) := do
  let p := (← line.intersect? b.segment).plan
  let position := p.atZ (q.crossingZ s b p)
  match b.role with
  | .side building absorption =>
    some ⟨position, .building, some building, q.groundAt s p otherwise, some absorption,
      b.hasEnd p⟩
  | .freestanding wall _ absorption _ =>
    some ⟨position, .wall, some wall, q.groundAtWall s otherwise wall p, some absorption,
      b.hasEnd p⟩
  | .region region =>
    if b.hasEnd p then none
    else some ⟨position, .ground, some region, q.groundAhead s line otherwise p, none, false⟩
  | .terrain _ => none

/-- The crossings of a line with the boundaries of the site. -/
def crossings : List (SectionPoint α) :=
  ((q.alongPieces s s.boundaryIndex line).filterMap (s.boundaries[·]?)).filterMap
    (q.crossing? s line otherwise)

/-- The framing point at the foot of a building crossing. -/
def footOf (c : SectionPoint α) : SectionPoint α :=
  let z := q.groundZ s c.position.plan
  { c with position := c.position.withZ (if Scalar.isNaN z then 0 else z), atEnd := false }

/-- The points of a section before they are cleaned up. -/
def sectionPoints : List (SectionPoint α) :=
  .plain line.p0 .source (q.groundAt s line.p0.plan otherwise) ::
    (SectionPoint.frame (q.footOf s)
      (Site.sortAlong line (q.terrainPoints s line otherwise ++ q.crossings s line otherwise)) ++
    [.plain line.p1 .receiver (q.groundAt s line.p1.plan otherwise)])

end

/-- The profile from a source to a receiver. -/
def profile (s : Site α) (source receiver : Point3 α) (otherwise : α) : Profile α :=
  let line : Segment α := ⟨source, receiver⟩
  ⟨SectionPoint.settle s.settings.policy (q.groundAhead s line otherwise)
    (SectionPoint.capRuns (SectionPoint.anchor (q.sectionPoints s line otherwise)))⟩

/-- In the order of filing, the answers are those of the site as they stand. -/
example (s : Site α) : filed.profile s = s.profile := rfl

/-! ## The terrain forgets the order -/

section
variable [Std.TransCmp (Scalar.totalCmp : α → α → Ordering)]

/-- The least of what the hits offer is the same in any order, if each offers what has its own
    number. -/
theorem leastBy?_hits {κ : Type} (number : κ → Nat) {f : Nat → List (α × κ)}
    (hf : ∀ i, ∀ a ∈ f i, number a.2 = i) (x : BoxIndex α Nat) (b : Box2 α) :
    leastBy? (fun a b => (Scalar.totalCmp a.1 b.1).then (compare (number a.2) (number b.2)))
        ((q.hits x b).flatMap f) =
      leastBy? (fun a b => (Scalar.totalCmp a.1 b.1).then (compare (number a.2) (number b.2)))
        ((x.query b).flatMap f) := by
  have := transCmp_numbered (α := α) number
  apply leastBy?_flatMap_perm (q.perm x b)
  intro i j a ha c hc heq
  have hnumber : compare (number a.2) (number c.2) = .eq := (Ordering.then_eq_eq.mp heq).2
  rw [← hf i a ha, ← hf j c hc]
  exact Nat.compare_eq_eq.mp hnumber

variable (t : Terrain α)

@[simp] theorem locate?_eq (p : Point2 α) : q.locate? t p = t.locate? p := by
  have hhit : ∀ i, ∀ a ∈ ((t.excess? i p).map fun e => (e, i)).toList, a.2 = i := by
    intro i a ha
    obtain ⟨e, _, rfl⟩ := Option.map_eq_some_iff.mp (Option.mem_toList.mp ha)
    rfl
  simp only [locate?, Terrain.locate?, List.filterMap_eq_flatMap_toList]
  exact congrArg (Option.map _) (q.leastBy?_hits (fun i => i) hhit _ _)

@[simp] theorem elevation?_eq (p : Point2 α) : q.elevation? t p = t.elevation? p := by
  rw [elevation?, Terrain.elevation?, locate?_eq]

@[simp] theorem elevation_eq (p : Point2 α) : q.elevation t p = t.elevation p := by
  rw [elevation, Terrain.elevation, elevation?_eq]

@[simp] theorem entry?_eq (line : Segment α) : q.entry? t line = t.entry? line := by
  have hhit : ∀ i, ∀ a ∈ t.sideCrossings line i, a.2.1 = i := by
    intro i a ha
    rw [Terrain.sideCrossings] at ha
    split at ha
    · cases ha
    · obtain ⟨side, _, hside⟩ := List.mem_filterMap.mp ha
      obtain ⟨x, _, rfl⟩ := Option.map_eq_some_iff.mp hside
      rfl
  exact congrArg (Option.map _) (q.leastBy?_hits (fun u : Nat × Point3 α => u.1) hhit _ _)

@[simp] theorem start?_eq (line : Segment α) : q.start? t line = t.start? line := by
  rw [start?, locate?_eq, entry?_eq]
  rfl

@[simp] theorem walk_eq (a b : Point2 α) (eps : α) : q.walk t a b eps = t.walk a b eps := by
  rw [walk, start?_eq]
  rfl

end

/-! ## Sites forget the order -/

section
variable (s : Site α)

@[simp] theorem buildingAt?_eq (p : Point2 α) : q.buildingAt? s p = s.buildingAt? p := by
  have hids : sortedOnce (q.hitsAt s.buildingIndex p) =
      sortedOnce (s.buildingIndex.queryPoint p) := sortedOnce_congr fun k => q.mem_hits
  rw [buildingAt?, Site.buildingAt?, hids]

@[simp] theorem regionAt?_eq (p : Point2 α) : q.regionAt? s p = s.regionAt? p := by
  have hperm : (q.hitsAt s.regionIndex p).Perm (s.regionIndex.queryPoint p) := q.perm _ _
  exact max?_congr fun k => ((hperm.filter _).map _).mem_iff

@[simp] theorem groundAt_eq : q.groundAt s = s.groundAt := by
  funext p otherwise
  rw [groundAt, Site.groundAt, regionAt?_eq]

@[simp] theorem alongPieces_eq (x : BoxIndex α Nat) (line : Segment α) :
    q.alongPieces s x line = s.alongPieces x line := by
  apply sortedOnce_congr
  intro k
  simp only [List.mem_flatMap, q.mem_hits]

@[simp] theorem buildingsAlong_eq (line : Segment α) :
    q.buildingsAlong s line = s.buildingsAlong line := by
  rw [buildingsAlong, Site.buildingsAlong, alongPieces_eq]

@[simp] theorem wallsAlong_eq (line : Segment α) : q.wallsAlong s line = s.wallsAlong line := by
  rw [wallsAlong, Site.wallsAlong, sortedOnce_congr fun k => q.mem_hits]

@[simp] theorem obstaclesIn_eq (b : Box2 α) : q.obstaclesIn s b = s.obstaclesIn b := by
  rw [obstaclesIn, Site.obstaclesIn, sortedOnce_congr fun k => q.mem_hits]

theorem groundAhead_eq (line : Segment α) (otherwise : α) :
    q.groundAhead s line otherwise = s.groundAhead line otherwise := by
  funext p
  rw [groundAhead, Site.groundAhead, groundAt_eq]

variable [Std.TransCmp (Scalar.totalCmp : α → α → Ordering)]

@[simp] theorem groundZ_eq : q.groundZ s = s.groundZ := by
  funext p
  rw [groundZ, Site.groundZ]
  cases s.terrain with
  | none => rfl
  | some t => exact q.elevation_eq t p

@[simp] theorem surfaceZ_eq (p : Point2 α) : q.surfaceZ s p = s.surfaceZ p := by
  rw [surfaceZ, buildingAt?_eq, groundZ_eq]
  rfl

/-! ## Sections forget the order -/

variable (line : Segment α) (otherwise : α)

theorem terrainPoints_eq : q.terrainPoints s line otherwise = s.terrainPoints line otherwise := by
  rw [terrainPoints, Site.terrainPoints, Site.terrainSamples, groundAt_eq]
  cases s.terrain with
  | none => rfl
  | some t => exact congrArg _ (congrArg _ (q.walk_eq t _ _ _))

theorem crossing?_eq : q.crossing? s line otherwise = s.crossing? line otherwise := by
  funext b
  simp only [crossing?, crossingZ, groundAtWall, groundAt_eq, groundZ_eq, groundAhead_eq]
  rfl

theorem crossings_eq : q.crossings s line otherwise = s.crossings line otherwise := by
  rw [crossings, Site.crossings, alongPieces_eq, crossing?_eq]

theorem footOf_eq : q.footOf s = s.footOf := by
  funext c
  rw [footOf, Site.footOf, groundZ_eq]

theorem sectionPoints_eq :
    q.sectionPoints s line otherwise = s.sectionPoints line otherwise := by
  rw [sectionPoints, Site.sectionPoints, Site.interior, Site.collected, groundAt_eq, footOf_eq,
    terrainPoints_eq, crossings_eq]

theorem profile_eq (source receiver : Point3 α) :
    q.profile s source receiver otherwise = s.profile source receiver otherwise := by
  rw [profile, Site.profile, groundAhead_eq, sectionPoints_eq]

end

/-- **The order of hits is forgotten.** Whatever the order in which the indexes return their hits,
    each query in its own, a terrain and a site give the same answers: which triangle holds a
    location and the elevation there, where a line enters a mesh and the samples of a walk; the
    region, the ground, the roof or terrain over a location; the obstacles in a box, the buildings
    and walls along a line; and every profile. The mesh may be any, and the site need not be
    sealed. -/
theorem answers_eq [Std.TransCmp (Scalar.totalCmp : α → α → Ordering)] (q : HitOrder α)
    (t : Terrain α) (s : Site α) :
    ((∀ p, q.locate? t p = t.locate? p ∧ q.elevation? t p = t.elevation? p) ∧
      (∀ line, q.entry? t line = t.entry? line) ∧
      ∀ a b eps, q.walk t a b eps = t.walk a b eps) ∧
    ((∀ p, q.regionAt? s p = s.regionAt? p ∧ q.groundAt s p = s.groundAt p ∧
        q.groundZ s p = s.groundZ p ∧ q.surfaceZ s p = s.surfaceZ p) ∧
      (∀ b, q.obstaclesIn s b = s.obstaclesIn b) ∧
      ∀ line, q.buildingsAlong s line = s.buildingsAlong line ∧
        q.wallsAlong s line = s.wallsAlong line) ∧
    ∀ source receiver g, q.profile s source receiver g = s.profile source receiver g := by
  refine ⟨⟨fun p => ⟨by simp, by simp⟩, by simp, by simp⟩, ⟨fun p => ?_, by simp, by simp⟩,
    fun source receiver g => q.profile_eq s g source receiver⟩
  exact ⟨by simp, by simp, by simp, by simp⟩

/-! ## A line through a common corner -/

/-- A square of two triangles. -/
def halvedYard : Terrain Float :=
  let points : List (Point3 Float) := [⟨0, 0, 1⟩, ⟨10, 0, 2⟩, ⟨10, 10, 3⟩, ⟨0, 10, 4⟩]
  let triangles : List (Triangle Float) :=
    [⟨⟨0, 0, 1⟩, ⟨10, 0, 2⟩, ⟨10, 10, 3⟩⟩, ⟨⟨0, 0, 1⟩, ⟨10, 10, 3⟩, ⟨0, 10, 4⟩⟩]
  { mesh := .ofFaces points [⟨0, 1, 2⟩, ⟨0, 2, 3⟩]
    triangles := triangles
    index := BoxIndex.ofList (triangles.zipIdx.map fun e => (e.1.box.plan, e.2)) }

/-- A line that enters the square at a corner of both triangles. -/
def throughCorner : Segment Float := ⟨⟨-5, -5, 0⟩, ⟨20, 20, 0⟩⟩

/-- Both triangles offer two crossings at the corner, and in either order the first triangle is
    entered. -/
theorem answers_eq_halvedYard :
    Terrain.ofMesh? halvedYard.mesh = some halvedYard ∧
    backwards.hits halvedYard.index (throughCorner.box.thicken 1 1) = [1, 0] ∧
    filed.hits halvedYard.index (throughCorner.box.thicken 1 1) = [0, 1] ∧
    backwards.entry? halvedYard throughCorner = some (0, ⟨0, 0, 1⟩) := by
  refine ⟨rfl, by decide +kernel, by decide +kernel, ?_⟩
  obtain ⟨⟨_, hentry, _⟩, _⟩ := answers_eq backwards halvedYard (.empty Settings.default)
  rw [hentry]
  decide +kernel

end HitOrder

end SiteSection
