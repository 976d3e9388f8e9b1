import SiteSection.Proofs.Terrain.Locating
import SiteSection.Proofs.Terrain.Links

/-! # Tessellations

  A terrain is a triangulation if its triangles have an area and meet in common corners and
  common sides only. Then no more than two triangles use a side, so the links of the mesh tell
  the triangle across it; and a location that the mesh covers is located in a triangle that
  really has it, whatever the tolerance of the search.

  The triangles of a triangulation may run either way round, and what the mesh covers is told
  by the upright triangles. In a tessellation all triangles are upright as they are.
-/

namespace SiteSection

/-- Side `m` of one face uses the same points as side `n` of the other. -/
def Face.SharesSide (f g : Face) (m n : Nat) : Prop :=
  ∃ d ∈ f.sides[m]?, ∃ d' ∈ g.sides[n]?, Side.key d = Side.key d'

namespace Terrain

variable {K : Type} [ExactScalar K] {s : Terrain K} {i j m n : Nat} {f g : Face}
  {t u : Triangle K} {p : Point2 K} {d d' : Nat × Nat}

/-- Is a location on the mesh? -/
def Covers (s : Terrain K) (p : Point2 K) : Prop := ∃ t ∈ s.triangles, t.Has p

/-- The terrain with all triangles counter-clockwise in plan. -/
def upright (s : Terrain K) : Terrain K :=
  { s with triangles := s.triangles.map Triangle.upright }

theorem getElem?_upright (s : Terrain K) (i : Nat) :
    s.upright.triangles[i]? = (s.triangles[i]?).map Triangle.upright :=
  List.getElem?_map

theorem exists_of_mem_upright (ht : t ∈ s.upright.triangles) :
    ∃ (k : Nat) (t₀ : Triangle K), s.triangles[k]? = some t₀ ∧ t = t₀.upright := by
  obtain ⟨t₀, ht₀, rfl⟩ := List.mem_map.mp ht
  obtain ⟨k, hk⟩ := List.mem_iff_getElem?.mp ht₀
  exact ⟨k, t₀, hk, rfl⟩

/-- The triangles of a mesh have an area, and what two of them have in common is a common
    corner or on a common side. -/
structure IsTriangulation (s : Terrain K) : Prop where
  /-- The links are those of the faces. -/
  exists_ofMesh? : ∃ points faces, ofMesh? (Mesh.ofFaces points faces) = some s
  /-- The triangles have an area. -/
  area : ∀ t ∈ s.triangles, t.doubleArea ≠ 0
  /-- The triangles meet in corners and sides. -/
  meet : ∀ {i j : Nat} {f g : Face} {t u : Triangle K}, i ≠ j →
    s.mesh.faces[i]? = some f → s.mesh.faces[j]? = some g →
      s.triangles[i]? = some t → s.triangles[j]? = some u →
        ∀ p, t.upright.Has p → u.upright.Has p →
          (∃ v ∈ t.corners, v ∈ u.corners ∧ v.plan = p) ∨
            ∃ m n, f.SharesSide g m n ∧ ∃ e ∈ t.sides[m]?, (⟨e.1, e.2⟩ : Segment K).On p

/-- The triangles of a mesh have an area and run counter-clockwise, and what two of them have
    in common is a common corner or on a common side. -/
structure IsTessellation (s : Terrain K) : Prop where
  /-- The links are those of the faces. -/
  exists_ofMesh? : ∃ points faces, ofMesh? (Mesh.ofFaces points faces) = some s
  /-- The triangles have a positive area. -/
  positive : ∀ t ∈ s.triangles, 0 < t.doubleArea
  /-- The triangles meet in corners and sides. -/
  meet : ∀ {i j : Nat} {f g : Face} {t u : Triangle K}, i ≠ j →
    s.mesh.faces[i]? = some f → s.mesh.faces[j]? = some g →
      s.triangles[i]? = some t → s.triangles[j]? = some u →
        ∀ p, t.Has p → u.Has p → (∃ v ∈ t.corners, v ∈ u.corners ∧ v.plan = p) ∨
          ∃ m n, f.SharesSide g m n ∧ ∃ e ∈ t.sides[m]?, (⟨e.1, e.2⟩ : Segment K).On p

namespace IsTessellation

/-- The triangles of a tessellation are upright as they are. -/
theorem upright_eq (h : s.IsTessellation) : s.upright = s := by
  have hmap : s.triangles.map Triangle.upright = s.triangles := by
    rw [List.map_congr_left fun t ht => Triangle.upright_of_pos (h.positive t ht), List.map_id']
  rw [upright, hmap]

theorem isTriangulation (h : s.IsTessellation) : s.IsTriangulation where
  exists_ofMesh? := h.exists_ofMesh?
  area := fun t ht => ne_of_gt (h.positive t ht)
  meet := by
    intro i j f g t u hij hf hg ht hu p hp hp'
    rw [Triangle.upright_of_pos (h.positive t (List.mem_of_getElem? ht))] at hp
    rw [Triangle.upright_of_pos (h.positive u (List.mem_of_getElem? hu))] at hp'
    exact h.meet hij hf hg ht hu p hp hp'

end IsTessellation

namespace IsTriangulation

/-! ## Faces and triangles -/

/-- The terrain is that of its mesh, with the links of the faces. -/
theorem spec (h : s.IsTriangulation) :
    s.mesh = Mesh.ofFaces s.mesh.points s.mesh.faces ∧ ofMesh? s.mesh = some s := by
  obtain ⟨points, faces, hs⟩ := h.exists_ofMesh?
  have hmesh := (spec_of_ofMesh? hs).1
  rw [hmesh]
  exact ⟨rfl, hs⟩

/-- The terrain has all triangles of its mesh. -/
theorem triangles? (h : s.IsTriangulation) : s.mesh.triangles? = some s.triangles :=
  (spec_of_ofMesh? h.spec.2).2.1

theorem exists_face (h : s.IsTriangulation) (ht : s.triangles[i]? = some t) :
    ∃ f, s.mesh.faces[i]? = some f ∧ s.mesh.corners? f = some t := by
  rw [Mesh.getElem?_triangles? h.triangles? i] at ht
  exact Option.bind_eq_some_iff.mp ht

theorem exists_triangle (h : s.IsTriangulation) (hf : s.mesh.faces[i]? = some f) :
    ∃ t, s.triangles[i]? = some t ∧ s.mesh.corners? f = some t := by
  have hlt : i < s.triangles.length := by
    rw [Mesh.length_triangles? h.triangles?]
    exact (List.getElem?_eq_some_iff.mp hf).1
  have ht : s.triangles[i]? = some s.triangles[i] := List.getElem?_eq_getElem hlt
  refine ⟨_, ht, ?_⟩
  rw [← ht, Mesh.getElem?_triangles? h.triangles? i, hf, Option.bind_some]

/-- A side is between the points that the face names. -/
theorem exists_side (h : s.IsTriangulation) (hf : s.mesh.faces[i]? = some f)
    (ht : s.triangles[i]? = some t) (hd : f.sides[m]? = some d) :
    ∃ e, t.sides[m]? = some e ∧ s.mesh.points[d.1]? = some e.1 ∧
      s.mesh.points[d.2]? = some e.2 := by
  obtain ⟨t', ht', hcorners⟩ := h.exists_triangle hf
  rw [ht, Option.some.injEq] at ht'
  subst ht'
  exact Mesh.exists_side_of_corners? hcorners hd

/-! ## Common sides -/

/-- On one side of a common side two triangles would overlap. -/
theorem eq_of_mem_sides_upright (h : s.IsTriangulation) (ht : s.triangles[i]? = some t)
    (hu : s.triangles[j]? = some u) {e : Point3 K × Point3 K} (he : e ∈ t.upright.sides)
    (he' : e ∈ u.upright.sides) : i = j := by
  by_contra hij
  obtain ⟨f, hf, _⟩ := h.exists_face ht
  obtain ⟨g, hg, _⟩ := h.exists_face hu
  have htpos := Triangle.doubleArea_upright_pos (h.area t (List.mem_of_getElem? ht))
  have hupos := Triangle.doubleArea_upright_pos (h.area u (List.mem_of_getElem? hu))
  obtain ⟨C, hC⟩ := Triangle.exists_mem_turns he
  obtain ⟨D, hD⟩ := Triangle.exists_mem_turns he'
  rw [← Triangle.doubleArea_of_mem_turns hC] at htpos
  rw [← Triangle.doubleArea_of_mem_turns hD] at hupos
  obtain ⟨p, hpt, hpu⟩ := Triangle.exists_inside_of_common_side htpos hupos
  rw [Triangle.inside_of_mem_turns hC] at hpt
  rw [Triangle.has_of_mem_turns hD] at hpu
  have hhas : t.upright.Has p := fun e he => (hpt e he).le
  -- What is inside a triangle is no corner and on no side of it.
  rcases h.meet hij hf hg ht hu p hhas hpu with ⟨v, hv, _, rfl⟩ | ⟨_, _, _, e, he, hon⟩
  · obtain ⟨e, he, hon⟩ :=
      Triangle.exists_on_of_mem_corners (Triangle.mem_corners_upright.mpr hv)
    exact Triangle.not_on_of_inside hpt he hon
  · exact Triangle.not_on_of_inside hpt (Triangle.mem_sides_upright (List.mem_of_getElem? he))
      ((t.on_forward e).mpr hon)

/-- No two sides run from one point to another in the same direction on upright triangles. -/
theorem side_inj (h : s.IsTriangulation) (hf : s.mesh.faces[i]? = some f)
    (hg : s.mesh.faces[j]? = some g) (ht : s.triangles[i]? = some t)
    (hu : s.triangles[j]? = some u) (hd : f.sides[m]? = some d) (hd' : g.sides[n]? = some d')
    (hdir : t.forward d = u.forward d') : i = j ∧ m = n := by
  obtain ⟨e, he, he1, he2⟩ := h.exists_side hf ht hd
  obtain ⟨e', he', he1', he2'⟩ := h.exists_side hg hu hd'
  have hpoints : ∀ (t : Triangle K) {d : Nat × Nat} {e : Point3 K × Point3 K},
      s.mesh.points[d.1]? = some e.1 → s.mesh.points[d.2]? = some e.2 →
        s.mesh.points[(t.forward d).1]? = some (t.forward e).1 ∧
          s.mesh.points[(t.forward d).2]? = some (t.forward e).2 := by
    intro t d e h1 h2
    unfold Triangle.forward
    split
    · exact ⟨h1, h2⟩
    · exact ⟨h2, h1⟩
  have hside : t.forward e = u.forward e' := by
    obtain ⟨h1, h2⟩ := hpoints t he1 he2
    obtain ⟨h1', h2'⟩ := hpoints u he1' he2'
    rw [hdir, h1', Option.some.injEq] at h1
    rw [hdir, h2', Option.some.injEq] at h2
    exact Prod.ext h1.symm h2.symm
  have hmem := Triangle.mem_sides_upright (List.mem_of_getElem? he')
  rw [← hside] at hmem
  have hij := h.eq_of_mem_sides_upright ht hu
    (Triangle.mem_sides_upright (List.mem_of_getElem? he)) hmem
  subst hij
  rw [ht, Option.some.injEq] at hu
  subst hu
  rw [← Triangle.forward_inj hside] at he'
  exact ⟨rfl, Triangle.number_inj (h.area t (List.mem_of_getElem? ht)) he he'⟩

/-- Three sides with one key are not all different, since two of them run in one direction. -/
theorem eq_or_eq_of_key_eq (h : s.IsTriangulation) {k r : Nat} {f' : Face} {d₀ : Nat × Nat}
    (hij : i ≠ j) (hf : s.mesh.faces[i]? = some f) (hg : s.mesh.faces[j]? = some g)
    (hf' : s.mesh.faces[k]? = some f') (hd : f.sides[m]? = some d) (hd' : g.sides[n]? = some d')
    (hd₀ : f'.sides[r]? = some d₀) (hkey : Side.key d = Side.key d')
    (hkey₀ : Side.key d = Side.key d₀) : (k = i ∧ r = m) ∨ k = j ∧ r = n := by
  obtain ⟨t, ht, _⟩ := h.exists_triangle hf
  obtain ⟨u, hu, _⟩ := h.exists_triangle hg
  obtain ⟨t', ht', _⟩ := h.exists_triangle hf'
  have hdir : ∀ (t : Triangle K) {d₁ : Nat × Nat}, Side.key d = Side.key d₁ →
      t.forward d₁ = d ∨ t.forward d₁ = d.swap := by
    intro t d₁ hkey₁
    rcases Side.key_eq_iff.mp hkey₁ with rfl | rfl
    · exact t.forward_eq_or _
    · rw [or_comm]
      exact t.forward_eq_or _
  have hdiff : t.forward d ≠ u.forward d' := fun heq =>
    hij (h.side_inj hf hg ht hu hd hd' heq).1
  by_cases hfirst : t'.forward d₀ = t.forward d
  · exact .inl (h.side_inj hf' hf ht' ht hd₀ hd hfirst)
  · refine .inr (h.side_inj hf' hg ht' hu hd₀ hd' ?_)
    rcases hdir t rfl with h1 | h1 <;> rcases hdir u hkey with h2 | h2 <;>
      rcases hdir t' hkey₀ with h3 | h3 <;> grind

/-- Across a common side is the other triangle. -/
theorem getElem?_linksAt (h : s.IsTriangulation) (hij : i ≠ j) (hf : s.mesh.faces[i]? = some f)
    (hg : s.mesh.faces[j]? = some g) (hshare : f.SharesSide g m n) :
    (s.mesh.linksAt i).toList[m]? = some (some j) := by
  obtain ⟨d, hd, d', hd', hkey⟩ := hshare
  have hm : m < 3 := by simpa using (List.getElem?_eq_some_iff.mp hd).1
  have hn : n < 3 := by simpa using (List.getElem?_eq_some_iff.mp hd').1
  have hkeys : ∀ {k r : Nat} {f' : Face} {d₀ : Nat × Nat}, s.mesh.faces[k]? = some f' →
      f'.sides[r]? = some d₀ → r < 3 →
        (Side.keys s.mesh.faces)[3 * k + r]? = some (Side.key d₀) := by
    intro k r f' d₀ hf' hd₀ hr
    rw [Side.getElem?_keys s.mesh.faces k hr, hf', Option.bind_some, hd₀, Option.map_some]
  -- A third use would be the first or the second.
  have hpartner : Side.partner? (Side.keys s.mesh.faces) (3 * i + m) = some (3 * j + n) := by
    apply Side.partner?_of_two (hkeys hf hd hm) ((hkeys hg hd' hn).trans (by rw [hkey])) (by omega)
    intro k hk
    have hr : k % 3 < 3 := Nat.mod_lt k (by decide)
    rw [← Nat.div_add_mod k 3, Side.getElem?_keys s.mesh.faces (k / 3) hr] at hk
    obtain ⟨f', hf', hside⟩ := Option.bind_eq_some_iff.mp hk
    obtain ⟨d₀, hd₀, hkey₀⟩ := Option.map_eq_some_iff.mp hside
    have huse := h.eq_or_eq_of_key_eq hij hf hg hf' hd hd' hd₀ hkey hkey₀.symm
    omega
  have hlt : i < s.mesh.faces.length := (List.getElem?_eq_some_iff.mp hf).1
  rw [h.spec.1, Mesh.getElem?_linksAt s.mesh.points hlt hm, hpartner, Option.map_some]
  congr 2
  omega

/-! ## Locating -/

/-- A triangle holds what it has. -/
theorem holds_of_has (h : s.IsTriangulation) (ht : s.triangles[i]? = some t)
    (hp : t.upright.Has p) : s.holds i p = true := by
  have hne := h.area t (List.mem_of_getElem? ht)
  rw [holds, excess?_of_spans ht hne ((Triangle.spans_iff_upright_has hne).mpr hp)]
  rfl

/-- A triangle does not hold a location that lies across a side by more than the tolerance. -/
theorem holds_eq_false (h : s.IsTriangulation) (ht : s.triangles[i]? = some t)
    {e : Point3 K × Point3 K} (he : e ∈ t.sides)
    (hacross : Ring.side e.1.plan e.2.plan p / t.doubleArea < -locateTolerance) :
    s.holds i p = false := by
  obtain ⟨g, hg, hu, hv, hw⟩ := t.exists_barycentric (h.area t (List.mem_of_getElem? ht)) p
  have hweight : Ring.side e.1.plan e.2.plan p / t.doubleArea ∈ [g.u, g.v, g.w] := by
    simp only [Triangle.sides, List.mem_cons, List.not_mem_nil, or_false] at he ⊢
    rcases he with rfl | rfl | rfl
    · exact .inl hu.symm
    · exact .inr (.inr hw.symm)
    · exact .inr (.inl hv.symm)
  have hexcess := Barycentric.neg_le_excess hweight
    (hacross.trans (neg_lt_zero.mpr locateTolerance_pos))
  rw [holds, Option.isSome_eq_false_iff, Option.isNone_iff_eq_none,
    Option.eq_none_iff_forall_ne_some]
  intro excess he
  obtain ⟨u, g', hu, hg', rfl, hle⟩ := excess?_eq_some_iff.mp he
  rw [ht, Option.some.injEq] at hu
  subst hu
  rw [hg, Option.some.injEq] at hg'
  subst hg'
  linarith

/-- A location on the mesh is located in a triangle that has it. -/
theorem exists_locate? (h : s.IsTriangulation) (hp : s.upright.Covers p) :
    ∃ i t, s.locate? p = some i ∧ s.triangles[i]? = some t ∧ t.upright.Has p := by
  obtain ⟨_, hmem, hhas⟩ := hp
  obtain ⟨k, u, hk, rfl⟩ := exists_of_mem_upright hmem
  have hu := List.mem_of_getElem? hk
  have hne := h.area u hu
  obtain ⟨i, t, hi, ht, hne', hspans, _⟩ := locate?_of_spans h.spec.2
    ⟨u, hu, hne, (Triangle.spans_iff_upright_has hne).mpr hhas⟩
  exact ⟨i, t, hi, ht, (Triangle.spans_iff_upright_has hne').mp hspans⟩

end IsTriangulation

end Terrain

end SiteSection
