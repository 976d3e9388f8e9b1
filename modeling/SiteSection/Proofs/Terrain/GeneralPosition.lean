import Mathlib.Data.List.Dedup
import SiteSection.Proofs.Terrain.Passing

/-! # Crossings in general position

  The crossings of a line with a mesh can be found without walking: intersect the line with
  every edge of the mesh and sort what is found.

  A line is in general position if it is at least the tolerance away from all corners, and its
  ends as far from all sides. Then no two edges are crossed in one place, and between the places
  where the line enters and leaves a triangle it crosses no edge at all.
-/

namespace SiteSection

/-! ## All crossings -/

/-- The segment between two points of a mesh, if they exist. -/
def Mesh.edge? {α : Type} (m : Mesh α) (e : Nat × Nat) : Option (Segment α) := do
  return ⟨← m.points[e.1]?, ← m.points[e.2]?⟩

namespace Terrain

section
variable {α : Type} [Scalar α]

/-- Where a line crosses the edge between two points of the mesh, at the elevation of the
    edge. -/
def edgeCrossing? (s : Terrain α) (line : Segment α) (e : Nat × Nat) : Option (Point3 α) := do
  let edge ← s.mesh.edge? e
  let x ← line.intersect? edge
  return x.withZ (edge.elevation x.plan)

/-- The crossings of a line with the edges of the mesh, each edge taken once, in their order
    along the line. -/
def edgeCrossings (s : Terrain α) (line : Segment α) : List (Point3 α) :=
  ((Side.keys s.mesh.faces).dedup.filterMap (s.edgeCrossing? line)).mergeSort fun x y =>
    (Scalar.totalCmp (line.project x.plan) (line.project y.plan)).isLE

end

variable {K : Type} [ExactScalar K]

/-- A line is in general position over a mesh: no corner is nearer to it than the tolerance,
    and its ends are not nearer than that to any side. -/
structure GeneralPosition (s : Terrain K) (line : Segment K) (eps : K) : Prop where
  /-- The line keeps away from the corners. -/
  corner : ∀ t ∈ s.triangles, ∀ v ∈ t.corners, ∀ y, line.On y → eps ≤ y.dist v.plan
  /-- The first end keeps away from the sides. -/
  start : ∀ t ∈ s.triangles, ∀ e ∈ t.sides, ∀ z, (⟨e.1, e.2⟩ : Segment K).On z →
    eps ≤ line.p0.plan.dist z
  /-- The second end keeps away from the sides. -/
  finish : ∀ t ∈ s.triangles, ∀ e ∈ t.sides, ∀ z, (⟨e.1, e.2⟩ : Segment K).On z →
    eps ≤ line.p1.plan.dist z

/-- A line crosses the mesh at a point: the point is over the line and on a side of some
    triangle. -/
def CrossedAt (s : Terrain K) (line : Segment K) (x : Point3 K) : Prop :=
  ∃ t ∈ s.triangles, ∃ e ∈ t.sides, line.On x.plan ∧ (⟨e.1, e.2⟩ : Segment K).On x.plan ∧
    x.z = (⟨e.1, e.2⟩ : Segment K).elevation x.plan

end Terrain

namespace Terrain

variable {K : Type} [ExactScalar K] {s : Terrain K} {line : Segment K} {eps lo hi w : K}
  {visited : List Nat} {i j m n : Nat} {d d' : Nat × Nat} {t t' : Triangle K}
  {e e' : Point3 K × Point3 K} {x : Point3 K} {y z : Point2 K}

/-! ## Sides and edges -/

/-- Side `m` of triangle `i` has the ends `e`, which are the points `d` of the mesh. -/
structure SideAt (s : Terrain K) (i m : Nat) (d : Nat × Nat) (e : Point3 K × Point3 K) :
    Prop where
  /-- The face names the points. -/
  face : ∃ f, s.mesh.faces[i]? = some f ∧ f.sides[m]? = some d
  /-- The triangle has the ends. -/
  triangle : ∃ t, s.triangles[i]? = some t ∧ t.sides[m]? = some e

namespace IsTriangulation

variable (h : s.IsTriangulation)
include h

/-- Every side of a triangle is one of its face. -/
theorem exists_sideAt (ht : t ∈ s.triangles) (he : e ∈ t.sides) : ∃ i m d, s.SideAt i m d e := by
  obtain ⟨i, hi⟩ := List.mem_iff_getElem?.mp ht
  obtain ⟨m, hm⟩ := List.mem_iff_getElem?.mp he
  obtain ⟨f, hf, _⟩ := h.exists_face hi
  have hlt : m < f.sides.length := (List.getElem?_eq_some_iff.mp hm).1
  exact ⟨i, m, f.sides[m], ⟨f, hf, List.getElem?_eq_getElem hlt⟩, t, hi, hm⟩

/-- The keys of a mesh are those of the sides of its triangles. -/
theorem mem_keys_iff {k : Nat × Nat} :
    k ∈ Side.keys s.mesh.faces ↔ ∃ i m d e, s.SideAt i m d e ∧ Side.key d = k := by
  rw [Side.keys, List.mem_flatMap]
  constructor
  · rintro ⟨f, hf, hk⟩
    obtain ⟨d, hd, rfl⟩ := List.mem_map.mp hk
    obtain ⟨i, hi⟩ := List.mem_iff_getElem?.mp hf
    obtain ⟨m, hm⟩ := List.mem_iff_getElem?.mp hd
    obtain ⟨t, ht, _⟩ := h.exists_triangle hi
    obtain ⟨e, he, _⟩ := h.exists_side hi ht hm
    exact ⟨i, m, d, e, ⟨⟨f, hi, hm⟩, t, ht, he⟩, rfl⟩
  · rintro ⟨i, m, d, e, ⟨⟨f, hf, hd⟩, _⟩, rfl⟩
    exact ⟨f, List.mem_of_getElem? hf, List.mem_map_of_mem (List.mem_of_getElem? hd)⟩

/-- The edge with the key of a side is the side, from one of its ends. -/
theorem exists_edge? (hside : s.SideAt i m d e) : ∃ o, s.mesh.edge? (Side.key d) = some o ∧
    (o = ⟨e.1, e.2⟩ ∨ o = (⟨e.1, e.2⟩ : Segment K).turned) := by
  obtain ⟨⟨f, hf, hd⟩, t, ht, he⟩ := hside
  obtain ⟨e', he', h1, h2⟩ := h.exists_side hf ht hd
  rw [he, Option.some.injEq] at he'
  subst he'
  unfold Side.key
  split
  · exact ⟨⟨e.1, e.2⟩, by simp [Mesh.edge?, h1, h2], .inl rfl⟩
  · exact ⟨⟨e.2, e.1⟩, by simp [Mesh.edge?, h1, h2], .inr rfl⟩

/-- Sides with one key have the same places. -/
theorem on_iff_of_key_eq (hside : s.SideAt i m d e) (hside' : s.SideAt j n d' e')
    (hkey : Side.key d = Side.key d') :
    (⟨e.1, e.2⟩ : Segment K).On z ↔ (⟨e'.1, e'.2⟩ : Segment K).On z := by
  have hplaces : ∀ {o : Segment K} {e : Point3 K × Point3 K},
      o = ⟨e.1, e.2⟩ ∨ o = (⟨e.1, e.2⟩ : Segment K).turned →
        (o.On z ↔ (⟨e.1, e.2⟩ : Segment K).On z) := by
    rintro o e (rfl | rfl)
    · exact Iff.rfl
    · exact Segment.on_turned _
  obtain ⟨o, ho, heq⟩ := h.exists_edge? hside
  obtain ⟨o', ho', heq'⟩ := h.exists_edge? hside'
  rw [hkey, ho', Option.some.injEq] at ho
  rw [← hplaces heq, ← hplaces heq', ho]

end IsTriangulation

/-! ## General position -/

namespace GeneralPosition

variable (hgen : s.GeneralPosition line eps) (heps : 0 < eps)
include hgen heps

section
variable (ht : t ∈ s.triangles)
include ht

theorem not_on_corner {c : Point3 K} (hc : c ∈ t.corners) : ¬ line.On c.plan := by
  intro hon
  have hle := hgen.corner t ht c hc _ hon
  rw [Point2.dist_eq_zero.mpr rfl] at hle
  exact absurd heps (not_lt.mpr hle)

theorem not_on_start (he : e ∈ t.sides) : ¬ (⟨e.1, e.2⟩ : Segment K).On line.p0.plan := by
  intro hon
  have hle := hgen.start t ht e he _ hon
  rw [Point2.dist_eq_zero.mpr rfl] at hle
  exact absurd heps (not_lt.mpr hle)

theorem not_on_finish (he : e ∈ t.sides) : ¬ (⟨e.1, e.2⟩ : Segment K).On line.p1.plan := by
  intro hon
  have hle := hgen.finish t ht e he _ hon
  rw [Point2.dist_eq_zero.mpr rfl] at hle
  exact absurd heps (not_lt.mpr hle)

/-- Where the line meets a side, it crosses it: the intersection finds the place, whichever end
    the side is taken from. -/
theorem exists_intersect?_eq (he : e ∈ t.sides) {o : Segment K}
    (ho : o = ⟨e.1, e.2⟩ ∨ o = (⟨e.1, e.2⟩ : Segment K).turned) (hline : line.On z)
    (hon : (⟨e.1, e.2⟩ : Segment K).On z) :
    ∃ x, line.intersect? o = some x ∧ x.plan = z := by
  obtain ⟨hmem1, hmem2⟩ := Triangle.mem_corners_of_mem_sides he
  have h1 := hgen.not_on_corner heps ht hmem1
  have h2 := hgen.not_on_corner heps ht hmem2
  have hout := hgen.not_on_finish heps ht he
  rcases ho with rfl | rfl
  · exact line.intersect?_of_transversal _ hline hon h1 h2 line.on_p1 hout
  · exact line.intersect?_of_transversal _ hline ((Segment.on_turned _).mpr hon) h2 h1
      line.on_p1 fun hon' => hout ((Segment.on_turned _).mp hon')

/-- The line crosses a side once. -/
theorem eq_of_on_side (he : e ∈ t.sides) (hline : line.On y) (hline' : line.On z)
    (hon : (⟨e.1, e.2⟩ : Segment K).On y) (hon' : (⟨e.1, e.2⟩ : Segment K).On z) : y = z := by
  obtain ⟨x, hx, rfl⟩ := hgen.exists_intersect?_eq heps ht he (.inl rfl) hline hon
  obtain ⟨x', hx', rfl⟩ := hgen.exists_intersect?_eq heps ht he (.inl rfl) hline' hon'
  rw [hx, Option.some.injEq] at hx'
  rw [hx']

/-- A side that the line crosses has a length. -/
theorem norm_dir_side_pos (he : e ∈ t.sides) (hline : line.On z)
    (hon : (⟨e.1, e.2⟩ : Segment K).On z) :
    0 < Coordinates.norm (⟨e.1, e.2⟩ : Segment K).dir := by
  obtain ⟨u, _, _, rfl⟩ := hon
  refine Segment.norm_dir_pos _ (t := u) fun heq => ?_
  rw [heq] at hline
  exact hgen.not_on_corner heps ht (Triangle.mem_corners_of_mem_sides he).2 hline

/-- A line that crosses a side has a length. -/
theorem sqLength_ne_zero (he : e ∈ t.sides) (hline : line.On z)
    (hon : (⟨e.1, e.2⟩ : Segment K).On z) : line.sqLength ≠ 0 := by
  intro hzero
  obtain ⟨u, _, _, rfl⟩ := hline
  rw [line.pointAt_plan_of_sqLength_eq_zero hzero] at hon
  exact hgen.not_on_start heps ht he hon

/-- The sides of a triangle do not meet on the line. -/
theorem eq_of_on (h : s.IsTriangulation) (he : e ∈ t.sides) (he' : e' ∈ t.sides)
    (hline : line.On z) (hon : (⟨e.1, e.2⟩ : Segment K).On z)
    (hon' : (⟨e'.1, e'.2⟩ : Segment K).On z) : e = e' := by
  by_contra hne
  obtain ⟨c, hc, rfl⟩ := Triangle.exists_common_corner (h.area t ht) he he' hne hon hon'
  exact hgen.not_on_corner heps ht hc hline

end

/-- A line in general position is passable. -/
theorem passable : s.Passable line eps where
  corner := fun t ht v hv hon => absurd hon (hgen.not_on_corner heps ht hv)
  side := by
    intro t ht e he hnear
    cases hmeet : line.intersect? ⟨e.1, e.2⟩ with
    | some x =>
      exact ⟨x.plan, line.on_left_of_intersect? _ hmeet, line.on_right_of_intersect? _ hmeet⟩
    | none =>
      -- An end of the line would be near the side, or a corner near the line.
      exfalso
      obtain ⟨hmem1, hmem2⟩ := Triangle.mem_corners_of_mem_sides he
      have hclosest := (line.closestPoints_of_not_meet ⟨e.1, e.2⟩ hmeet).1
      simp only [Segment.endPairs, List.mem_cons, List.not_mem_nil, or_false] at hclosest
      rcases hclosest with hc | hc | hc | hc <;> rw [hc] at hnear
      · exact absurd hnear (not_lt.mpr (hgen.start t ht e he _ (Segment.on_nearest _ _)))
      · exact absurd hnear (not_lt.mpr (hgen.finish t ht e he _ (Segment.on_nearest _ _)))
      · exact absurd hnear (not_lt.mpr (hgen.corner t ht e.1 hmem1 _ (line.on_nearest _)))
      · exact absurd hnear (not_lt.mpr (hgen.corner t ht e.2 hmem2 _ (line.on_nearest _)))

variable (h : s.IsTriangulation)
include h

/-- What another triangle has of a place on the line that is on a side of it, it has on a side
    with the same key. -/
theorem exists_key_eq {f : Face} (hf : s.mesh.faces[i]? = some f)
    (ht : s.triangles[i]? = some t) (hhas : t.upright.Has z) (hside : s.SideAt j n d' e')
    (hline : line.On z) (hon : (⟨e'.1, e'.2⟩ : Segment K).On z) :
    ∃ m d e, s.SideAt i m d e ∧ Side.key d = Side.key d' ∧ (⟨e.1, e.2⟩ : Segment K).On z := by
  by_cases hij : i = j
  · subst hij
    exact ⟨n, d', e', hside, rfl, hon⟩
  · obtain ⟨⟨g, hg, hd'⟩, t', ht', he'⟩ := id hside
    have htmem' : t' ∈ s.triangles := List.mem_of_getElem? ht'
    have hmem' : e' ∈ t'.sides := List.mem_of_getElem? he'
    have hhas' := Triangle.upright_has_of_on (h.area t' htmem') hmem' hon
    rcases h.meet hij hf hg ht ht' z hhas hhas' with ⟨c, hc, _, rfl⟩ |
      ⟨m, n', ⟨d, hd, d₁, hd₁, hkey⟩, e, he, hon'⟩
    · exact absurd hline (hgen.not_on_corner heps (List.mem_of_getElem? ht) hc)
    · have hsideAt : s.SideAt i m d e := ⟨⟨f, hf, hd⟩, t, ht, he⟩
      -- The common side has the place, so for the other triangle it is the side given.
      obtain ⟨e₁, he₁, _⟩ := h.exists_side hg ht' hd₁
      have hsideAt₁ : s.SideAt j n' d₁ e₁ := ⟨⟨g, hg, hd₁⟩, t', ht', he₁⟩
      have hon₁ := (h.on_iff_of_key_eq hsideAt hsideAt₁ hkey).mp hon'
      have hsame := hgen.eq_of_on heps htmem' h (List.mem_of_getElem? he₁) hmem' hline hon₁ hon
      have hnn : n' = n := Triangle.number_inj (h.area t' htmem') he₁ (hsame ▸ he')
      rw [hnn, hd', Option.mem_def, Option.some.injEq] at hd₁
      exact ⟨m, d, e, hsideAt, by rw [hkey, hd₁], hon'⟩

/-- No two edges are crossed in one place. -/
theorem key_eq_of_on (hside : s.SideAt i m d e) (hside' : s.SideAt j n d' e')
    (hline : line.On z) (hon : (⟨e.1, e.2⟩ : Segment K).On z)
    (hon' : (⟨e'.1, e'.2⟩ : Segment K).On z) : Side.key d = Side.key d' := by
  obtain ⟨⟨f, hf, hd⟩, t, ht, he⟩ := id hside
  have htmem : t ∈ s.triangles := List.mem_of_getElem? ht
  have hmem : e ∈ t.sides := List.mem_of_getElem? he
  have hhas := Triangle.upright_has_of_on (h.area t htmem) hmem hon
  obtain ⟨m', d₁, e₁, hside₁, hkey, hon₁⟩ :=
    hgen.exists_key_eq heps h hf ht hhas hside' hline hon'
  obtain ⟨⟨f₁, hf₁, hd₁⟩, t₁, ht₁, he₁⟩ := hside₁
  rw [hf, Option.some.injEq] at hf₁
  rw [ht, Option.some.injEq] at ht₁
  subst hf₁ ht₁
  have hsame := hgen.eq_of_on heps htmem h hmem (List.mem_of_getElem? he₁) hline hon hon₁
  have hmm : m = m' := Triangle.number_inj (h.area t htmem) he (hsame ▸ he₁)
  rw [hmm, hd₁, Option.some.injEq] at hd
  rw [← hd, hkey]

/-! ## Crossings -/

/-- A line crosses an edge where it crosses a side with the key of the edge. -/
theorem edgeCrossing?_eq_some_iff (hside : s.SideAt i m d e) :
    s.edgeCrossing? line (Side.key d) = some x ↔ line.On x.plan ∧
      (⟨e.1, e.2⟩ : Segment K).On x.plan ∧ x.z = (⟨e.1, e.2⟩ : Segment K).elevation x.plan := by
  obtain ⟨o, hedge, ho⟩ := h.exists_edge? hside
  obtain ⟨_, t, ht, he⟩ := hside
  have htmem : t ∈ s.triangles := List.mem_of_getElem? ht
  have hmem : e ∈ t.sides := List.mem_of_getElem? he
  have hcompute : s.edgeCrossing? line (Side.key d) =
      (line.intersect? o).map fun x => x.withZ (o.elevation x.plan) := by
    simp [edgeCrossing?, hedge, Option.map_eq_bind]
  have helevation : ∀ {z}, line.On z → (⟨e.1, e.2⟩ : Segment K).On z →
      o.elevation z = (⟨e.1, e.2⟩ : Segment K).elevation z := by
    intro z hline hon
    rcases ho with rfl | rfl
    · rfl
    · exact Segment.elevation_turned _ (hgen.norm_dir_side_pos heps htmem hmem hline hon) hon
  rw [hcompute, Option.map_eq_some_iff]
  constructor
  · rintro ⟨y, hy, rfl⟩
    have hline := line.on_left_of_intersect? o hy
    have hon : (⟨e.1, e.2⟩ : Segment K).On y.plan := by
      have hright := line.on_right_of_intersect? o hy
      rcases ho with rfl | rfl
      · exact hright
      · exact (Segment.on_turned _).mp hright
    exact ⟨hline, hon, helevation hline hon⟩
  · rintro ⟨hline, hon, hz⟩
    obtain ⟨y, hy, hplan⟩ := hgen.exists_intersect?_eq heps htmem hmem ho hline hon
    refine ⟨y, hy, ?_⟩
    rw [hplan, helevation hline hon, ← hz]
    obtain ⟨hx, hy⟩ := Point2.ext_iff.mp hplan
    exact Point3.ext hx hy rfl

/-- The crossings found are all the crossings there are. -/
theorem mem_edgeCrossings : x ∈ s.edgeCrossings line ↔ s.CrossedAt line x := by
  rw [edgeCrossings, List.mem_mergeSort, List.mem_filterMap]
  constructor
  · rintro ⟨k, hk, hx⟩
    obtain ⟨i, m, d, e, hside, rfl⟩ := h.mem_keys_iff.mp (List.mem_dedup.mp hk)
    have hcrossing := (hgen.edgeCrossing?_eq_some_iff heps h hside).mp hx
    obtain ⟨_, t, ht, he⟩ := hside
    exact ⟨t, List.mem_of_getElem? ht, e, List.mem_of_getElem? he, hcrossing⟩
  · rintro ⟨t, ht, e, he, hcrossing⟩
    obtain ⟨i, m, d, hside⟩ := h.exists_sideAt ht he
    refine ⟨Side.key d, List.mem_dedup.mpr (h.mem_keys_iff.mpr ⟨i, m, d, e, hside, rfl⟩), ?_⟩
    exact (hgen.edgeCrossing?_eq_some_iff heps h hside).mpr hcrossing

/-- The crossings found are in their order along the line, each at a place of its own. -/
theorem pairwise_edgeCrossings : (s.edgeCrossings line).Pairwise fun x y =>
    line.project x.plan < line.project y.plan := by
  have hle : (s.edgeCrossings line).Pairwise fun x y =>
      (Scalar.totalCmp (line.project x.plan) (line.project y.plan)).isLE = true := by
    refine List.pairwise_mergeSort ?_ ?_ _
    · intro x y z hxy hyz
      exact Scalar.isLE_totalCmp.mpr
        ((Scalar.isLE_totalCmp.mp hxy).trans (Scalar.isLE_totalCmp.mp hyz))
    · intro x y
      rw [Bool.or_eq_true, Scalar.isLE_totalCmp, Scalar.isLE_totalCmp]
      exact le_total _ _
  have hne : (s.edgeCrossings line).Pairwise fun x y =>
      line.project x.plan ≠ line.project y.plan := by
    refine (List.mergeSort_perm _ _).symm.pairwise ?_ fun hne => hne.symm
    rw [List.pairwise_filterMap]
    refine (List.nodup_dedup _).imp_of_mem fun {k k'} hk hk' hdiff x hx y hy hsame => hdiff ?_
    obtain ⟨i, m, d, e, hside, rfl⟩ := h.mem_keys_iff.mp (List.mem_dedup.mp hk)
    obtain ⟨j, n, d', e', hside', rfl⟩ := h.mem_keys_iff.mp (List.mem_dedup.mp hk')
    obtain ⟨hline, hon, _⟩ := (hgen.edgeCrossing?_eq_some_iff heps h hside).mp hx
    obtain ⟨hline', hon', _⟩ := (hgen.edgeCrossing?_eq_some_iff heps h hside').mp hy
    -- Crossings with one parameter are at one place.
    have hplan : y.plan = x.plan := by
      rw [← line.pointAt_project hline, ← line.pointAt_project hline', hsame]
    exact hgen.key_eq_of_on heps h hside hside' hline hon (hplan ▸ hon')
  exact hle.imp₂ (fun x y hxy hdiff => lt_of_le_of_ne (Scalar.isLE_totalCmp.mp hxy) hdiff) hne

/-- Between two places in one triangle the line crosses no side. -/
theorem not_on_of_between (ht : t ∈ s.triangles) (hlo : lo ∈ t.upright.within line)
    (hhi : hi ∈ t.upright.within line) (hlow : lo < w) (hwhi : w < hi) (ht' : t' ∈ s.triangles)
    (he' : e' ∈ t'.sides) : ¬ (⟨e'.1, e'.2⟩ : Segment K).On (line.pointAt w).plan := by
  intro hon'
  have hline : line.On (line.pointAt w).plan :=
    line.on_pointAt (hlo.1.trans hlow.le) (hwhi.le.trans hhi.2.1)
  have hw : w ∈ t.upright.within line := by
    obtain ⟨first, final, hwithin⟩ := t.upright.exists_within_eq line
    rw [hwithin] at hlo hhi ⊢
    exact ⟨hlo.1.trans hlow.le, hwhi.le.trans hhi.2⟩
  -- The crossing would be on a side of the triangle itself.
  obtain ⟨e, he, hon⟩ : ∃ e ∈ t.sides, (⟨e.1, e.2⟩ : Segment K).On (line.pointAt w).plan := by
    obtain ⟨i, hi⟩ := List.mem_iff_getElem?.mp ht
    obtain ⟨f, hf, _⟩ := h.exists_face hi
    obtain ⟨j, n, d', hside'⟩ := h.exists_sideAt ht' he'
    obtain ⟨m, d, e, ⟨_, t₁, ht₁, he⟩, _, hon⟩ :=
      hgen.exists_key_eq heps h hf hi hw.2.2 hside' hline hon'
    rw [hi, Option.some.injEq] at ht₁
    subst ht₁
    exact ⟨e, List.mem_of_getElem? he, hon⟩
  have hmem := Triangle.mem_sides_upright he
  set side := t.forward e with hside
  -- With the line on its left before and after, it would have the line along itself.
  have hzero : Ring.side side.1.plan side.2.plan (line.pointAt lo).plan = 0 := by
    have hatw : Ring.side side.1.plan side.2.plan (line.pointAt w).plan = 0 :=
      Ring.side_of_on ((t.on_forward e).mpr hon)
    have hatlo := hlo.2.2 side hmem
    have hathi := hhi.2.2 side hmem
    rw [Ring.side_pointAt] at hatw hatlo hathi ⊢
    nlinarith
  have honlo : (⟨e.1, e.2⟩ : Segment K).On (line.pointAt lo).plan :=
    (t.on_forward e).mp (Triangle.on_of_side_eq_zero
      (Triangle.doubleArea_upright_pos (h.area t ht)) hmem hlo.2.2 hzero)
  have hsame := hgen.eq_of_on_side heps ht he hline (line.on_pointAt hlo.1 hlo.2.1) hon honlo
  have hlength := hgen.sqLength_ne_zero heps ht he hline hon
  have hwlo := congrArg line.project hsame
  rw [line.project_pointAt hlength, line.project_pointAt hlength] at hwlo
  exact absurd hwlo hlow.ne'

end GeneralPosition

end Terrain

end SiteSection
