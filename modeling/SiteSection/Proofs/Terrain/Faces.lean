import Mathlib.Data.Set.List
import SiteSection.Proofs.Numbers.Choosing
import SiteSection.Proofs.Plan.Boxes
import SiteSection.Terrain

/-! # The triangles of a mesh

  A mesh whose faces name existing points has a triangle for every face, and so is a terrain.
  The terrain files each triangle, under its number, by its box.
-/

namespace SiteSection

/-- Are the corners of a face among so many points? -/
def Face.InRange (f : Face) (n : Nat) : Prop := f.a < n ∧ f.b < n ∧ f.c < n

namespace Mesh

variable {α : Type} {m : Mesh α} {f : Face} {t : Triangle α}

/-! ## Corners -/

/-- A face that names existing points has a triangle. -/
theorem exists_corners? (h : f.InRange m.points.length) : ∃ t, m.corners? f = some t := by
  obtain ⟨ha, hb, hc⟩ := h
  simp only [corners?, List.getElem?_eq_getElem ha, List.getElem?_eq_getElem hb,
    List.getElem?_eq_getElem hc]
  exact ⟨_, rfl⟩

/-- The corners of a triangle are the points that the face names. -/
theorem corners?_eq_some_iff : m.corners? f = some t ↔
    m.points[f.a]? = some t.a ∧ m.points[f.b]? = some t.b ∧ m.points[f.c]? = some t.c := by
  simp only [corners?, Option.bind_eq_bind, Option.bind_eq_some_iff, Option.pure_def,
    Option.some.injEq]
  constructor
  · rintro ⟨a, ha, b, hb, c, hc, rfl⟩
    exact ⟨ha, hb, hc⟩
  · rintro ⟨ha, hb, hc⟩
    exact ⟨t.a, ha, t.b, hb, t.c, hc, rfl⟩

theorem mem_points_of_corners? (h : m.corners? f = some t) {v : Point3 α} (hv : v ∈ t.corners) :
    v ∈ m.points := by
  obtain ⟨ha, hb, hc⟩ := corners?_eq_some_iff.mp h
  simp only [Triangle.corners, List.mem_cons, List.not_mem_nil, or_false] at hv
  rcases hv with rfl | rfl | rfl
  · exact List.mem_of_getElem? ha
  · exact List.mem_of_getElem? hb
  · exact List.mem_of_getElem? hc

/-- The sides of a triangle are between the points that the face names. -/
theorem exists_side_of_corners? (h : m.corners? f = some t) {i : Nat} {d : Nat × Nat}
    (hd : f.sides[i]? = some d) :
    ∃ e, t.sides[i]? = some e ∧ m.points[d.1]? = some e.1 ∧ m.points[d.2]? = some e.2 := by
  obtain ⟨ha, hb, hc⟩ := corners?_eq_some_iff.mp h
  match i with
  | 0 =>
    cases hd
    exact ⟨(t.a, t.b), rfl, ha, hb⟩
  | 1 =>
    cases hd
    exact ⟨(t.b, t.c), rfl, hb, hc⟩
  | 2 =>
    cases hd
    exact ⟨(t.c, t.a), rfl, hc, ha⟩
  | _ + 3 => cases hd

/-! ## Triangles -/

/-- A mesh has all its triangles if each of its faces has one. -/
theorem triangles?_eq_some_iff {triangles : List (Triangle α)} :
    m.triangles? = some triangles ↔ m.faces.map m.corners? = triangles.map some := by
  unfold triangles?
  generalize m.faces = faces
  induction faces generalizing triangles with
  | nil =>
    rw [List.mapM_nil, Option.pure_def, Option.some.injEq, List.map_nil, eq_comm,
      eq_comm (a := []), List.map_eq_nil_iff]
  | cons f faces ih =>
    simp only [List.mapM_cons, Option.bind_eq_bind, Option.bind_eq_some_iff, Option.pure_def,
      Option.some.injEq, ih, List.map_cons]
    constructor
    · rintro ⟨t, ht, rest, hrest, rfl⟩
      rw [ht, hrest, List.map_cons]
    · intro h
      cases triangles with
      | nil => cases h
      | cons t rest =>
        obtain ⟨ht, hrest⟩ := List.cons_eq_cons.mp h
        exact ⟨t, ht, rest, hrest, rfl⟩

/-- A mesh whose faces name existing points has all its triangles. -/
theorem exists_triangles? (h : ∀ f ∈ m.faces, f.InRange m.points.length) :
    ∃ triangles, m.triangles? = some triangles := by
  have hrange : m.faces.map m.corners? ∈ Set.range (List.map some) := by
    rw [Set.range_list_map]
    intro t? ht
    obtain ⟨f, hf, rfl⟩ := List.mem_map.mp ht
    obtain ⟨t, ht⟩ := exists_corners? (h f hf)
    exact ⟨t, ht.symm⟩
  obtain ⟨triangles, htriangles⟩ := hrange
  exact ⟨triangles, triangles?_eq_some_iff.mpr htriangles.symm⟩

section
variable {triangles : List (Triangle α)} (h : m.triangles? = some triangles)
include h

/-- There are as many triangles as faces. -/
theorem length_triangles? : triangles.length = m.faces.length := by
  simpa using (congrArg List.length (triangles?_eq_some_iff.mp h)).symm

/-- Every triangle is that of the face at its position. -/
theorem getElem?_triangles? (i : Nat) : triangles[i]? = (m.faces[i]?).bind m.corners? := by
  have hsame := congrArg (fun l => l[i]?.bind id) (triangles?_eq_some_iff.mp h)
  simpa [List.getElem?_map, Option.bind_map, Function.comp_def] using hsame.symm

/-- The triangles are those of the faces. -/
theorem mem_triangles?_iff : t ∈ triangles ↔ ∃ f ∈ m.faces, m.corners? f = some t := by
  rw [← List.mem_map, triangles?_eq_some_iff.mp h]
  simp

end

end Mesh

namespace Terrain

/-! ## Terrains -/

section
variable {α : Type} [Scalar α] {m : Mesh α} {s : Terrain α} {i : Nat} {t : Triangle α}
  {b : Box2 α}

/-- The terrain of a mesh has its triangles, and an index over their boxes. -/
theorem spec_of_ofMesh? (hs : ofMesh? m = some s) :
    s.mesh = m ∧ m.triangles? = some s.triangles ∧
      s.index = BoxIndex.ofList (s.triangles.zipIdx.map fun (t, i) => (t.box.plan, i)) := by
  simp only [ofMesh?, Option.bind_eq_bind, Option.bind_eq_some_iff, Option.pure_def,
    Option.some.injEq] at hs
  obtain ⟨triangles, htriangles, rfl⟩ := hs
  exact ⟨rfl, htriangles, rfl⟩

/-- A mesh whose faces name existing points is a terrain. -/
theorem exists_ofMesh? (h : ∀ f ∈ m.faces, f.InRange m.points.length) :
    ∃ s, ofMesh? m = some s := by
  obtain ⟨triangles, htriangles⟩ := Mesh.exists_triangles? h
  rw [ofMesh?, htriangles]
  exact ⟨_, rfl⟩

/-- A query finds the triangles whose box meets the box asked for. -/
theorem mem_query_iff (hs : ofMesh? m = some s) (ht : s.triangles[i]? = some t) :
    i ∈ s.index.query b ↔ (Envelope.ofBox t.box.plan).meets (Envelope.ofBox b) = true := by
  rw [(spec_of_ofMesh? hs).2.2]
  exact @BoxIndex.mem_query_zipIdx α _ _ (fun t => t.box.plan) s.triangles b i t ht

/-- A location is located in a triangle whose box it meets, and has weights there. -/
theorem exists_of_locate?_eq_some {p : Point2 α}
    (h : s.locate? p = some i) : i ∈ s.index.queryPoint p ∧
      ∃ t g, s.triangles[i]? = some t ∧ t.barycentric? p = some g := by
  obtain ⟨⟨e, j⟩, hleast, rfl⟩ := Option.map_eq_some_iff.mp h
  obtain ⟨j', hquery, hexcess⟩ := List.mem_filterMap.mp (mem_of_leastBy?_eq_some hleast)
  obtain ⟨e', he, heq⟩ := Option.map_eq_some_iff.mp hexcess
  cases heq
  simp only [excess?, Option.bind_eq_bind, Option.bind_eq_some_iff] at he
  obtain ⟨t, ht, g, hg, -⟩ := he
  exact ⟨hquery, t, g, ht, hg⟩

end

variable {K : Type} [ExactScalar K] {m : Mesh K} {s : Terrain K} {i : Nat} {t : Triangle K}
  {p : Point2 K}

/-- A location is looked up in the triangles whose box holds it. -/
theorem mem_queryPoint_iff (hs : ofMesh? m = some s) (ht : s.triangles[i]? = some t) :
    i ∈ s.index.queryPoint p ↔ t.box.plan.contains p = true := by
  have hbox : t.box.plan = Box.ofPoints [t.a.plan, t.b.plan, t.c.plan] := rfl
  have hfirst : t.box.plan.contains t.a.plan = true := by
    rw [hbox]
    exact Box2.contains_ofPoints List.mem_cons_self
  obtain ⟨hx, hy⟩ := Box2.contains_iff.mp hfirst
  rw [BoxIndex.queryPoint, mem_query_iff hs ht,
    Envelope.meets_ofPoint (hx.1.trans hx.2) (hy.1.trans hy.2)]

end Terrain

end SiteSection
