import Mathlib.Data.Set.Finite.Lemmas
import SiteSection.Proofs.Terrain.Tessellation
import SiteSection.Proofs.Terrain.Walk

/-! # Passing from triangle to triangle

  A line is passable if no corner of the mesh is on it before its end, and every side that it
  comes near to meets it. Then each side of a triangle that comes into question is crossed in
  one place, the one crossed last is the way out, and across it is a triangle in which the line
  goes on.

  At a corner two sides are crossed in one place. The walk takes the first of them, and has left
  the mesh if that is a side of the border, wherever the line goes on.
-/

namespace SiteSection

namespace Terrain

variable {K : Type} [ExactScalar K] {s : Terrain K} {line : Segment K} {eps u hi : K}
  {visited : List Nat} {i : Nat} {t : Triangle K} {z : Point2 K}

/-- A line passes between the corners of the mesh and is clear of the sides that it does not
    meet. -/
structure Passable (s : Terrain K) (line : Segment K) (eps : K) : Prop where
  /-- No corner is on the line before its end. -/
  corner : ∀ t ∈ s.triangles, ∀ v ∈ t.corners, line.On v.plan → v.plan = line.p1.plan
  /-- A side that comes into question as a way out meets the line. -/
  side : ∀ t ∈ s.triangles, ∀ e ∈ t.sides,
    (line.closestPoints ⟨e.1, e.2⟩).1.plan.dist (line.closestPoints ⟨e.1, e.2⟩).2.plan < eps →
      ∃ x, line.On x ∧ (⟨e.1, e.2⟩ : Segment K).On x

/-! ## Along the line -/

/-- Where the line leaves a triangle that does not have its end. -/
theorem exists_isGreatest (hend : ¬ t.Has line.p1.plan) (hu : u ∈ t.within line) :
    ∃ hi < 1, IsGreatest (t.within line) hi := by
  obtain ⟨lo, hi, hwithin⟩ := t.exists_within_eq line
  rw [hwithin] at hu
  have hmem : hi ∈ t.within line := hwithin ▸ Set.right_mem_Icc.mpr (hu.1.trans hu.2)
  refine ⟨hi, lt_of_le_of_ne hmem.2.1 ?_, hmem, fun v hv => ?_⟩
  · rintro rfl
    exact hend (line.pointAt_plan_one ▸ hmem.2.2)
  · rw [hwithin] at hv
    exact hv.2

/-- Where the line goes on over the mesh, some triangle has it on both sides of the place. -/
theorem exists_further (hcover : ∀ u, 0 ≤ u → u ≤ 1 → s.Covers (line.pointAt u).plan)
    (h0 : 0 ≤ hi) (h1 : hi < 1) :
    ∃ t ∈ s.triangles, hi ∈ t.within line ∧ ∃ v ∈ t.within line, hi < v := by
  choose lo up hwithin using fun t : Triangle K => t.exists_within_eq line
  -- Of the triangles that have a later place, take the one that the line enters first.
  set later : Set (Triangle K) := {t | t ∈ s.triangles ∧ ∃ v ∈ t.within line, hi < v}
  have hfinite : later.Finite := s.triangles.finite_toSet.subset fun t ht => ht.1
  have hmem : ∀ v, hi < v → v ≤ 1 → ∃ t ∈ later, v ∈ t.within line := by
    intro v hv hv'
    have hnonneg : 0 ≤ v := h0.trans hv.le
    obtain ⟨t, ht, hhas⟩ := hcover v hnonneg hv'
    exact ⟨t, ⟨ht, v, ⟨hnonneg, hv', hhas⟩, hv⟩, hnonneg, hv', hhas⟩
  obtain ⟨t₁, ht₁, _⟩ := hmem 1 h1 le_rfl
  obtain ⟨t, ⟨ht, v, hv, hlt⟩, hfirst⟩ := Set.exists_min_image later lo hfinite ⟨t₁, ht₁⟩
  have hIcc : v ∈ Set.Icc (lo t) (up t) := hwithin t ▸ hv
  have hlo : lo t ≤ hi := by
    refine not_lt.mp fun hgap => ?_
    -- Between the place and the entry the mesh would cover a location that no triangle has.
    obtain ⟨w, hw, hw'⟩ := exists_between hgap
    obtain ⟨t', ht', hmem'⟩ := hmem w hw (hw'.le.trans (hIcc.1.trans hv.2.1))
    rw [hwithin t'] at hmem'
    exact absurd ((hfirst t' ht').trans hmem'.1) (not_le.mpr hw')
  refine ⟨t, ht, ?_, v, hv, hlt⟩
  rw [hwithin t]
  exact ⟨hlo, hlt.le.trans hIcc.2⟩

/-! ## The sides of a triangle -/

namespace Passable

variable (hpass : s.Passable line eps) (h : s.IsTriangulation) (ht : t ∈ s.triangles)
  (hend : ¬ t.upright.Has line.p1.plan)
include hpass h ht hend

/-- A triangle that does not have the end of the line has no corner on the line. -/
theorem not_on {v : Point3 K} (hv : v ∈ t.corners) : ¬ line.On v.plan := by
  intro hon
  obtain ⟨e, he, hside⟩ := Triangle.exists_on_of_mem_corners hv
  rw [hpass.corner t ht v hv hon] at hside
  exact hend (Triangle.upright_has_of_on (h.area t ht) he hside)

/-- What two sides have in common is not on the line. -/
theorem eq_of_on {e e' : Point3 K × Point3 K} (he : e ∈ t.sides) (he' : e' ∈ t.sides)
    (hline : line.On z) (hon : (⟨e.1, e.2⟩ : Segment K).On z)
    (hon' : (⟨e'.1, e'.2⟩ : Segment K).On z) : e = e' := by
  by_contra hne
  obtain ⟨v, hv, rfl⟩ := Triangle.exists_common_corner (h.area t ht) he he' hne hon hon'
  exact hpass.not_on h ht hend hv hline

/-- A side that meets the line is closest to it where they meet. -/
theorem exists_closestPoints {e : Point3 K × Point3 K} (he : e ∈ t.sides) (hline : line.On z)
    (hon : (⟨e.1, e.2⟩ : Segment K).On z) :
    ∃ x y, line.closestPoints ⟨e.1, e.2⟩ = (x, y) ∧ x.plan = z ∧ y.plan = z := by
  have hends := Triangle.mem_corners_of_mem_sides he
  have hout : ¬ (⟨e.1, e.2⟩ : Segment K).On line.p1.plan := fun hon =>
    hend (Triangle.upright_has_of_on (h.area t ht) he hon)
  obtain ⟨x, hx, rfl⟩ := line.intersect?_of_transversal ⟨e.1, e.2⟩ hline hon
    (hpass.not_on h ht hend hends.1) (hpass.not_on h ht hend hends.2) line.on_p1 hout
  obtain ⟨hfirst, hsecond⟩ := line.closestPoints_of_intersect? ⟨e.1, e.2⟩ hx
  exact ⟨_, _, rfl, congrArg Point3.plan hfirst, hsecond⟩

/-- Every way out is at a place where a side meets the line: it leads across that side, its
    elevation is that of the side, and what remains is the rest of the line. -/
theorem spec_of_mem_exits (hi : s.triangles[i]? = some t) {e : Exit K}
    (he : e ∈ s.exits line visited eps i) :
    ∃ (m : Nat) (side : Point3 K × Point3 K), t.sides[m]? = some side ∧
      (s.mesh.linksAt i).toList[m]? = some e.next ∧
      ∃ u ∈ t.upright.within line, (⟨side.1, side.2⟩ : Segment K).On (line.pointAt u).plan ∧
        e.remaining = (1 - u) * Coordinates.norm line.dir ∧
          e.crossing = (line.pointAt u).plan.atZ
            ((⟨side.1, side.2⟩ : Segment K).elevation (line.pointAt u).plan) := by
  obtain ⟨m, p, q, x, y, next, hside, hlink, _, hclosest, hnear, rfl⟩ :=
    (s.mem_exits line hi).mp he
  have hmem : (p, q) ∈ t.sides := List.mem_of_getElem? hside
  obtain ⟨_, ⟨u, hu, hu', rfl⟩, hon⟩ := hpass.side t ht (p, q) hmem (by rwa [hclosest])
  obtain ⟨x', y', hmeet, hplan, _⟩ :=
    hpass.exists_closestPoints h ht hend hmem (line.on_pointAt hu hu') hon
  cases hclosest.symm.trans hmeet
  refine ⟨m, (p, q), hside, hlink, u, ?_, hon, ?_, ?_⟩
  · exact ⟨hu, hu', Triangle.upright_has_of_on (h.area t ht) hmem hon⟩
  · dsimp only
    rw [hplan, ← line.pointAt_plan_one, line.dist_pointAt hu']
  · dsimp only
    rw [← hplan]
    rfl

end Passable

/-! ## Leaving a triangle -/

section
variable (h : s.IsTriangulation) (hpass : s.Passable line eps) (ht : s.triangles[i]? = some t)
  (hend : ¬ t.upright.Has line.p1.plan) (hlast : IsGreatest (t.upright.within line) hi)
include h hpass ht hend hlast

/-- The line leaves a triangle through a side, and across the side is a triangle in which it
    goes on. -/
theorem exists_across (hcover : ∀ u, 0 ≤ u → u ≤ 1 → s.upright.Covers (line.pointAt u).plan)
    (hlt : hi < 1) :
    ∃ (m : Nat) (side : Point3 K × Point3 K) (j : Nat) (t' : Triangle K),
      t.sides[m]? = some side ∧ (⟨side.1, side.2⟩ : Segment K).On (line.pointAt hi).plan ∧
        (s.mesh.linksAt i).toList[m]? = some (some j) ∧ s.triangles[j]? = some t' ∧
          hi ∈ t'.upright.within line ∧ ∃ v ∈ t'.upright.within line, hi < v := by
  obtain ⟨_, hmem, hi', v, hv, hlater⟩ := exists_further hcover hlast.1.1 hlt
  obtain ⟨j, t', hj, rfl⟩ := exists_of_mem_upright hmem
  have hij : i ≠ j := by
    rintro rfl
    rw [ht, Option.some.injEq] at hj
    subst hj
    exact absurd (hlast.2 hv) (not_le.mpr hlater)
  obtain ⟨f, hf, _⟩ := h.exists_face ht
  obtain ⟨g, hg, _⟩ := h.exists_face hj
  rcases h.meet hij hf hg ht hj _ hlast.1.2.2 hi'.2.2 with ⟨c, hc, _, hplan⟩ |
    ⟨m, n, hshare, side, hside, hon⟩
  · -- There is no corner on the line.
    have hline : line.On (line.pointAt hi).plan := line.on_pointAt hlast.1.1 hlast.1.2.1
    exact absurd (hplan ▸ hline) (hpass.not_on h (List.mem_of_getElem? ht) hend hc)
  · exact ⟨m, side, j, t', hside, hon, h.getElem?_linksAt hij hf hg hshare, hj, hi', v, hv, hlater⟩

/-- The way out taken is the side on which the line leaves, unless it leads back. -/
theorem next_of_exit? (heps : 0 < eps) {m j : Nat} {side : Point3 K × Point3 K}
    (hside : t.sides[m]? = some side)
    (hon : (⟨side.1, side.2⟩ : Segment K).On (line.pointAt hi).plan)
    (hlink : (s.mesh.linksAt i).toList[m]? = some (some j)) (hfresh : j ∉ visited) :
    ∃ e, s.exit? line visited eps i = some e ∧ e.next = some j ∧
      e.crossing = (line.pointAt hi).plan.atZ
        ((⟨side.1, side.2⟩ : Segment K).elevation (line.pointAt hi).plan) := by
  have htmem : t ∈ s.triangles := List.mem_of_getElem? ht
  have hmem : side ∈ t.sides := List.mem_of_getElem? hside
  have hline : line.On (line.pointAt hi).plan := line.on_pointAt hlast.1.1 hlast.1.2.1
  obtain ⟨x, y, hclosest, hx, hy⟩ := hpass.exists_closestPoints h htmem hend hmem hline hon
  have hnotBack : (some j).any visited.contains = false := by simpa using hfresh
  have hnear : x.plan.dist y.plan < eps := by
    rwa [hx, hy, Point2.dist_eq_zero.mpr rfl]
  have hexit := (s.mem_exits line ht).mpr
    ⟨m, side.1, side.2, x, y, some j, hside, hlink, hnotBack, hclosest, hnear, rfl⟩
  obtain ⟨e, he, hle⟩ := s.exists_exit? line hexit
  obtain ⟨m', side', hside', hlink', w, hw, hon', hremaining, hcrossing⟩ :=
    hpass.spec_of_mem_exits h htmem hend ht (s.mem_of_exit?_eq_some line he)
  -- What the line crosses no farther from its end, it crosses where it leaves.
  have hwhi : w = hi := by
    refine le_antisymm (hlast.2 hw) ?_
    have hpos : 0 < Coordinates.norm line.dir :=
      line.norm_dir_pos fun heq => hend (heq ▸ hlast.1.2.2)
    dsimp only at hle
    rw [hremaining, hx, ← line.pointAt_plan_one, line.dist_pointAt hlast.1.2.1] at hle
    linarith [le_of_mul_le_mul_right hle hpos]
  rw [hwhi] at hon' hcrossing
  have hsame : side' = side :=
    hpass.eq_of_on h htmem hend (List.mem_of_getElem? hside') hmem hline hon' hon
  rw [hsame] at hside' hcrossing
  have hmm : m = m' := Triangle.number_inj (h.area t htmem) hside hside'
  rw [← hmm, hlink, Option.some.injEq] at hlink'
  exact ⟨e, he, hlink'.symm, hcrossing⟩

end

/-! ## Stepping -/

/-- The line goes on in a triangle: it has a place there beyond all those in the triangles
    visited. -/
def Ahead (s : Terrain K) (line : Segment K) (visited : List Nat) (i : Nat) : Prop :=
  ∃ t, s.triangles[i]? = some t ∧ ∃ u ∈ t.within line,
    ∀ k ∈ visited, ∀ t', s.triangles[k]? = some t' → ∀ v ∈ t'.within line, v < u

/-- The line enters a triangle at a parameter: it goes on in it from there, and has left all
    the triangles visited. -/
def Enters (s : Terrain K) (line : Segment K) (visited : List Nat) (i : Nat) (lo : K) : Prop :=
  ∃ t, s.triangles[i]? = some t ∧ lo ∈ t.within line ∧ (∃ u ∈ t.within line, lo < u) ∧
    ∀ k ∈ visited, ∀ t', s.triangles[k]? = some t' → ∀ v ∈ t'.within line, v ≤ lo

theorem Enters.ahead {lo : K} (h : s.Enters line visited i lo) : s.Ahead line visited i := by
  obtain ⟨t, ht, _, ⟨u, hu, hlt⟩, hpassed⟩ := h
  exact ⟨t, ht, u, hu, fun k hk t' ht' v hv => (hpassed k hk t' ht' v hv).trans_lt hlt⟩

/-- A triangle in which the line goes on is a new one. -/
theorem Ahead.notMem (h : s.Ahead line visited i) : i ∉ visited := by
  intro hmem
  obtain ⟨t, ht, u, hu, hbeyond⟩ := h
  exact lt_irrefl u (hbeyond i hmem t ht u hu)

/-- **One step.** From a triangle in which the line goes on, but does not end, the way out is
    where the line leaves, and leads to the triangle that the line enters there. -/
theorem exists_exit?_entering (h : s.IsTriangulation) (hpass : s.Passable line eps)
    (heps : 0 < eps) (hcover : ∀ u, 0 ≤ u → u ≤ 1 → s.upright.Covers (line.pointAt u).plan)
    (hahead : s.upright.Ahead line visited i) (ht : s.triangles[i]? = some t)
    (hend : s.holds i line.p1.plan = false) :
    ∃ hi e j, IsGreatest (t.upright.within line) hi ∧
      s.exit? line (i :: visited) eps i = some e ∧ e.next = some j ∧
        s.upright.Enters line (i :: visited) j hi ∧
          ∃ side ∈ t.sides, (⟨side.1, side.2⟩ : Segment K).On (line.pointAt hi).plan ∧
            e.crossing = (line.pointAt hi).plan.atZ
              ((⟨side.1, side.2⟩ : Segment K).elevation (line.pointAt hi).plan) := by
  have hupright : s.upright.triangles[i]? = some t.upright := by
    rw [getElem?_upright, ht, Option.map_some]
  obtain ⟨_, ht', u, hu, hbeyond⟩ := hahead
  rw [hupright, Option.some.injEq] at ht'
  subst ht'
  have hnot : ¬ t.upright.Has line.p1.plan := by
    intro hhas
    rw [h.holds_of_has ht hhas] at hend
    cases hend
  obtain ⟨hi, hlt, hlast⟩ := exists_isGreatest hnot hu
  obtain ⟨m, side, j, t', hside, hon, hlink, hj, hi', v, hv, hlater⟩ :=
    exists_across h hpass ht hnot hlast hcover hlt
  have hj' : s.upright.triangles[j]? = some t'.upright := by
    rw [getElem?_upright, hj, Option.map_some]
  -- What was visited ends before the line leaves, so the triangle across is new.
  have hpassed : ∀ k ∈ i :: visited, ∀ t₀, s.upright.triangles[k]? = some t₀ →
      ∀ w ∈ t₀.within line, w ≤ hi := by
    intro k hk t₀ ht₀ w hw
    rcases List.mem_cons.mp hk with rfl | hk
    · rw [hupright, Option.some.injEq] at ht₀
      subst ht₀
      exact hlast.2 hw
    · exact (hbeyond k hk t₀ ht₀ w hw).le.trans (hlast.2 hu)
  have henters : s.upright.Enters line (i :: visited) j hi :=
    ⟨t'.upright, hj', hi', ⟨v, hv, hlater⟩, hpassed⟩
  obtain ⟨e, he, hnext, hcrossing⟩ :=
    next_of_exit? h hpass ht hnot hlast heps hside hon hlink henters.ahead.notMem
  exact ⟨hi, e, j, hlast, he, hnext, henters, side, List.mem_of_getElem? hside, hon, hcrossing⟩

/-! ## Starting -/

/-- A walk from a location on the mesh starts there, in a triangle that has it. -/
theorem exists_start?_upright (h : s.IsTriangulation) (hp : s.upright.Covers line.p0.plan) :
    ∃ i t, s.triangles[i]? = some t ∧ t.upright.Has line.p0.plan ∧
      s.start? line = some (i, line.p0.withZ (s.planeZ i line.p0.plan)) := by
  obtain ⟨i, t, hlocate, ht, hhas⟩ := h.exists_locate? hp
  refine ⟨i, t, ht, hhas, ?_⟩
  rw [start?, hlocate]

end Terrain

end SiteSection
