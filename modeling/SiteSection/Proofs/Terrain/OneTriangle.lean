import SiteSection.Proofs.Terrain.FiniteElevations
import SiteSection.Proofs.Terrain.Merging

/-! # Terrain of one triangle

  Three vertices, from west to east, the last of them on the right of the line between the other
  two, are triangulated into one face. On a terrain whose triangles are all the same, what is
  inside it is located there, and nothing is located where its box does not reach.
-/

namespace SiteSection

open Extended

/-! ## Three vertices -/

namespace Triangulation

section
variable {α β : Type} [Scalar α] [Exact α β]
  [Zero β] [Add β] [Sub β] [Mul β] [LT β] [DecidableLT β] [BEq β]

/-- Three vertices from west to east that turn to the right. -/
structure TurnsRight (a b c : Point3 α) : Prop where
  /-- Their coordinates are in range. -/
  inRange : ∀ p ∈ [a, b, c], locationFault? p.plan = none
  /-- They are at different places. -/
  apart : [a, b, c].Pairwise fun p q => p.samePlan q = false
  /-- They are given from west to east, or south first. -/
  sorted : [a, b, c].Pairwise fun p q =>
    ExactPlan.before (exactPlan q : Point2 β) (exactPlan p) = false
  /-- The last is on the right of the line between the others. -/
  right : ExactPlan.rightOf (exactPlan a : Point2 β) (exactPlan b) (exactPlan c) = true
  /-- So it is not on the right of the line back. -/
  not_right : ExactPlan.rightOf (exactPlan b : Point2 β) (exactPlan a) (exactPlan c) = false

variable {a b c : Point3 α}

/-- Numbers that are neither very small nor very large are in range. -/
theorem coordinateFault?_number {K : Type} [ExactScalar K] {c : K} (h : 1 ≤ |c|)
    (h' : |c| ≤ 2 ^ 201) : coordinateFault? (number c) = none := by
  have hsize : (if (number c : Extended K) < 0 then -(number c) else number c) = number |c| := by
    by_cases hc : c < 0
    · rw [if_pos (by simpa [zero_eq] using hc), number_neg, abs_of_neg hc]
    · rw [if_neg (by simpa [zero_eq] using hc), abs_of_nonneg (not_lt.mp hc)]
  have hpow : ∀ n : Nat, ((Nat.pow 2 n : Nat) : K) = 2 ^ n := fun n => by
    rw [Nat.pow_eq, Nat.cast_pow, Nat.cast_ofNat]
  have hsmall : ¬ (number |c| : Extended K) < 1 / Scalar.ofNat (Nat.pow 2 142) := by
    have hpos : (0 : K) < 2 ^ 142 := by positivity
    rw [one_eq, ofNat_eq, hpow, number_div _ hpos.ne', number_lt, not_lt]
    exact (div_le_one_of_le₀ (one_le_pow₀ one_le_two) hpos.le).trans h
  have hlarge : ¬ (Scalar.ofNat (Nat.pow 2 201) : Extended K) < number |c| := by
    rw [ofNat_eq, hpow, number_lt, not_lt]
    exact h'
  simp only [coordinateFault?, hsize, isNaN_number, Bool.false_eq_true, if_false, if_neg hlarge,
    hsmall, false_and]

omit [Add β] in
/-- The sweep joins the last vertex to the line between the others. -/
theorem TurnsRight.sweep_eq (h : TurnsRight a b c) :
    sweep #[(exactPlan a : Point2 β), exactPlan b, exactPlan c] = [⟨1, 0, 2⟩] := by
  have hsorted := h.sorted
  simp only [List.pairwise_cons, List.mem_cons, List.not_mem_nil, or_false, forall_eq_or_imp,
    forall_eq] at hsorted
  rw [sweep, List.mergeSort_of_pairwise]
  · simp [Swept.take, Swept.empty, h.right, h.not_right]
  · simp [hsorted]

/-- The one face, from its lowest corner. -/
theorem TurnsRight.mem_facesOf_iff (h : TurnsRight a b c) {f : Face} :
    f ∈ facesOf [a, b, c] [] ↔ f = ⟨0, 2, 1⟩ := by
  set w := Wings.ofFaces [⟨1, 0, 2⟩] with hw
  have hwings : ∀ {e : Nat × Nat} {i : Nat}, w[e]? = some i →
      (e, i) ∈ Wings.wingsOf ⟨1, 0, 2⟩ := by
    intro e i he
    simpa using Wings.mem_wingsOf_of_getElem? he
  have hfaces : facesOf [a, b, c] [] = w.faces := by
    have hplan : ([a, b, c].map fun v => (exactPlan v : Point2 β)).toArray =
        #[exactPlan a, exactPlan b, exactPlan c] := rfl
    rw [facesOf, hplan, h.sweep_eq, List.flatMap_nil, List.foldl_nil, Wings.legalise_eq_self]
    -- No edge has a face on both of its sides.
    intro i j k l hk hl
    have hforth := hwings hk
    have hback := hwings hl
    simp only [Wings.wingsOf, List.mem_cons, List.not_mem_nil, or_false, Prod.mk.injEq]
      at hforth hback
    omega
  rw [hfaces, Wings.mem_faces_iff]
  constructor
  · rintro ⟨hopposite, hlow, hlow'⟩
    have hmem := hwings hopposite
    simp only [Wings.wingsOf, List.mem_cons, List.not_mem_nil, or_false, Prod.mk.injEq] at hmem
    obtain ⟨x, y, z⟩ := f
    simp only at hmem hlow hlow'
    simp only [Face.mk.injEq]
    omega
  · rintro rfl
    refine ⟨?_, by decide, by decide⟩
    simp [hw, Wings.ofFaces, Wings.addFace, Std.HashMap.getElem_insert]

/-- The terrain of the three vertices is their triangle. -/
theorem TurnsRight.exists_terrain (h : TurnsRight a b c) : ∃ m s,
    (triangulate [a, b, c] []).result = .ok m ∧ Terrain.ofMesh? m = some s ∧
      ∀ t, t ∈ s.triangles ↔ t = ⟨a, c, b⟩ := by
  have houtline : Outline.ofLists [a, b, c] [] = (⟨[a, b, c], [], 0⟩, none) := by
    have hrange := h.inRange
    have hapart := h.apart
    simp only [List.pairwise_cons, List.mem_cons, List.not_mem_nil, or_false, forall_eq_or_imp,
      forall_eq] at hrange hapart
    simp [Outline.ofLists, Outline.addAll, Outline.addPoint, Outline.empty, enter?, enter,
      numberOf?, List.findIdx?_cons, hrange, hapart, Except.map]
  obtain ⟨m, hm, hpoints, hfaces⟩ : ∃ m, (triangulate [a, b, c] []).result = .ok m ∧
      m.points = [a, b, c] ∧ ∀ f, f ∈ m.faces ↔ f = ⟨0, 2, 1⟩ := by
    obtain ⟨face, faces, hfaces⟩ := List.exists_cons_of_ne_nil
      (List.ne_nil_of_mem (h.mem_facesOf_iff.mpr rfl))
    rw [triangulate, houtline]
    simp only [hfaces]
    refine ⟨_, rfl, rfl, fun f => ?_⟩
    rw [Mesh.faces_ofFaces, ← hfaces, h.mem_facesOf_iff]
  have hcorners : m.corners? ⟨0, 2, 1⟩ = some ⟨a, c, b⟩ := by
    simp [Mesh.corners?, hpoints]
  obtain ⟨s, hs⟩ := Terrain.exists_ofMesh? (m := m) fun f hf => by
    rw [(hfaces f).mp hf, hpoints]
    exact ⟨Nat.zero_lt_succ _, Nat.lt_succ_self _, Nat.one_lt_succ_succ _⟩
  refine ⟨m, s, hm, hs, fun t => ?_⟩
  rw [Mesh.mem_triangles?_iff (Terrain.spec_of_ofMesh? hs).2.1]
  constructor
  · rintro ⟨f, hf, ht⟩
    rw [(hfaces f).mp hf, hcorners, Option.some.injEq] at ht
    exact ht.symm
  · rintro rfl
    exact ⟨_, (hfaces _).mpr rfl, hcorners⟩

end

end Triangulation

/-! ## Elevations on one triangle -/

namespace Terrain

variable {α : Type} [Scalar α] {m : Mesh α} {s : Terrain α} {t : Triangle α} {p : Point2 α}
  (hs : ofMesh? m = some s) (hone : ∀ t', t' ∈ s.triangles ↔ t' = t)

include hs hone

/-- Inside the triangle the elevation is that of its plane. -/
theorem elevation?_of_inside {g : Barycentric α}
    (hmeets : (Envelope.ofBox t.box.plan).meets (Envelope.ofBox (Box.ofPoint p)) = true)
    (hg : t.barycentric? p = some g) (hinside : g.inside = true) :
    s.elevation? p = some (t.plane.elevation p) := by
  obtain ⟨i, hi⟩ := List.getElem?_of_mem ((hone t).mpr rfl)
  have hfound : (g.excess, i) ∈ (s.index.queryPoint p).filterMap fun j =>
      (s.excess? j p).map fun e => (e, j) := by
    refine List.mem_filterMap.mpr ⟨i, (mem_query_iff hs hi).mpr hmeets, ?_⟩
    simp [excess?, hi, hg, hinside]
  obtain ⟨best, hbest⟩ : ∃ j, s.locate? p = some j := by
    obtain ⟨first, rest, hcons⟩ := List.exists_cons_of_ne_nil (List.ne_nil_of_mem hfound)
    rw [locate?, hcons]
    exact ⟨_, rfl⟩
  -- Wherever it is located, that is the triangle.
  obtain ⟨-, t', -, ht', -⟩ := exists_of_locate?_eq_some hbest
  rw [elevation?, hbest, Option.map_some, planeZ, ht', (hone t').mp (List.mem_of_getElem? ht')]

/-- Off the box of the triangle there is no elevation. -/
theorem elevation?_eq_none
    (hmeets : (Envelope.ofBox t.box.plan).meets (Envelope.ofBox (Box.ofPoint p)) = false) :
    s.elevation? p = none := by
  refine Option.map_eq_none_iff.mpr ?_
  cases hlocate : s.locate? p with
  | none => rfl
  | some i =>
    obtain ⟨hquery, t', -, ht', -⟩ := exists_of_locate?_eq_some hlocate
    rw [BoxIndex.queryPoint, mem_query_iff hs ht', (hone t').mp (List.mem_of_getElem? ht'),
      hmeets] at hquery
    cases hquery

end Terrain

end SiteSection
