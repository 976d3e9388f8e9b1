import Mathlib.Data.List.Perm.Subperm
import SiteSection.Proofs.Plan.Meeting
import SiteSection.Terrain.Walk

/-! # Where samples are taken

  In exact arithmetic every sample of a walk is a place of the line, whatever the mesh and
  the tolerance: a walk starts at the beginning of the line or at a meeting point, goes on at
  places of the line closest to a side, and ends at the end of the line.
-/

namespace SiteSection

namespace Terrain

/-! ## Entries, ways out and samples

  For these it does not matter what the numbers are. -/

section
variable {α : Type} [Scalar α] (s : Terrain α) (line : Segment α) {t : Nat} {x : Point3 α}

/-- What is offered by a triangle is the first common place of the line and a side of it. -/
theorem mem_sideCrossings {hit : α × Nat × Point3 α} : hit ∈ s.sideCrossings line t ↔
    ∃ tri e x, s.triangles[t]? = some tri ∧ e ∈ tri.sides ∧
      line.intersect? ⟨e.1, e.2⟩ = some x ∧ hit = (line.project x.plan, t,
        x.withZ ((⟨e.1, e.2⟩ : Segment α).elevation x.plan)) := by
  cases ht : s.triangles[t]? with
  | none => simp [sideCrossings, ht]
  | some tri =>
    simp only [sideCrossings, ht, List.mem_filterMap, Option.map_eq_some_iff, Option.some.injEq]
    constructor
    · rintro ⟨e, he, x, hx, rfl⟩
      exact ⟨tri, e, x, rfl, he, hx, rfl⟩
    · rintro ⟨_, e, x, rfl, he, hx, rfl⟩
      exact ⟨e, he, x, hx, rfl⟩

/-- The way out is one of the ways out. -/
theorem mem_of_exit?_eq_some {visited : List Nat} {eps : α} {e : Exit α}
    (h : s.exit? line visited eps t = some e) : e ∈ s.exits line visited eps t := by
  rw [exit?] at h
  split at h
  · cases h
  · next first others hexits =>
    rw [Option.some.injEq] at h
    rw [hexits, ← h]
    exact mem_of_foldl_replace (fun best x : Exit α => x.remaining < best.remaining) others first

theorem eq_of_mem_distinctFrom {last y : Point3 α} (h : x ∈ distinctFrom last y) : x = y := by
  rw [distinctFrom] at h
  split at h
  · cases h
  · exact List.mem_singleton.mp h

/-- There are no more triangles to visit than there are. -/
theorem length_visited_le {visited : List Nat} {n : Nat} (hnodup : visited.Nodup)
    (hindex : ∀ k ∈ visited, k < n) : visited.length ≤ n := by
  have hsub : visited ⊆ List.range n := fun k hk => List.mem_range.mpr (hindex k hk)
  have hle := (List.subperm_of_subset hnodup hsub).length_le
  rwa [List.length_range] at hle

end

variable {K : Type} [ExactScalar K] (s : Terrain K) (line : Segment K) {t : Nat} {x : Point3 K}

/-! ## Entering -/

/-- A line enters the mesh at a place of a side, at the elevation of the side. -/
theorem entry?_spec (h : s.entry? line = some (t, x)) :
    line.On x.plan ∧ ∃ tri e, s.triangles[t]? = some tri ∧ e ∈ tri.sides ∧
      (⟨e.1, e.2⟩ : Segment K).On x.plan ∧ x.z = (⟨e.1, e.2⟩ : Segment K).elevation x.plan := by
  obtain ⟨hit, hleast, heq⟩ := Option.map_eq_some_iff.mp h
  obtain ⟨u, _, hmem⟩ := List.mem_flatMap.mp (mem_of_leastBy?_eq_some hleast)
  obtain ⟨tri, e, y, ht, he, hy, rfl⟩ := (s.mem_sideCrossings line).mp hmem
  have hleft : line.On y.plan := line.on_left_of_intersect? ⟨e.1, e.2⟩ hy
  have hright : (⟨e.1, e.2⟩ : Segment K).On y.plan := line.on_right_of_intersect? ⟨e.1, e.2⟩ hy
  cases heq
  exact ⟨hleft, tri, e, ht, he, hright, rfl⟩

theorem on_of_entry?_eq_some (h : s.entry? line = some (t, x)) : line.On x.plan :=
  (s.entry?_spec line h).1

theorem on_of_start?_eq_some (h : s.start? line = some (t, x)) : line.On x.plan := by
  rw [start?] at h
  split at h
  · cases h
    exact line.on_p0
  · exact s.on_of_entry?_eq_some line h

/-! ## Stepping -/

/-- A way out is at a side that is nearer to the line than the tolerance and does not lead back. -/
theorem mem_exits {visited : List Nat} {eps : K} {e : Exit K} {tri : Triangle K}
    (ht : s.triangles[t]? = some tri) : e ∈ s.exits line visited eps t ↔
      ∃ (m : Nat) (p q x y : Point3 K) (next : Option Nat), tri.sides[m]? = some (p, q) ∧
        (s.mesh.linksAt t).toList[m]? = some next ∧ next.any visited.contains = false ∧
        line.closestPoints ⟨p, q⟩ = (x, y) ∧ x.plan.dist y.plan < eps ∧
        e = ⟨x.plan.dist line.p1.plan, x.withZ ((⟨p, q⟩ : Segment K).elevation x.plan), next⟩ := by
  rw [exits, ht]
  dsimp only
  rw [List.mem_filterMap]
  constructor
  · rintro ⟨⟨⟨p, q⟩, next⟩, hmem, he⟩
    obtain ⟨m, hm⟩ := List.mem_iff_getElem?.mp hmem
    rw [List.getElem?_zip_eq_some] at hm
    dsimp only at he
    split at he
    · cases he
    · next hnext =>
      split at he
      · cases he
      · next hnear =>
        cases he
        exact ⟨m, p, q, _, _, next, hm.1, hm.2, by simpa using hnext, rfl, not_le.mp hnear, rfl⟩
  · rintro ⟨m, p, q, x, y, next, hside, hlink, hnext, hclosest, hnear, rfl⟩
    refine ⟨((p, q), next), List.mem_of_getElem? (List.getElem?_zip_eq_some.mpr ⟨hside, hlink⟩), ?_⟩
    dsimp only
    rw [hnext, if_neg (by simp), hclosest, if_neg (not_le.mpr hnear)]

/-- No way out is nearer to the end of the line than the one taken. -/
theorem exists_exit? {visited : List Nat} {eps : K} {e : Exit K}
    (h : e ∈ s.exits line visited eps t) :
    ∃ out, s.exit? line visited eps t = some out ∧ out.remaining ≤ e.remaining := by
  rw [exit?]
  split
  · next hnone =>
    rw [hnone] at h
    cases h
  · next first others hexits =>
    rw [hexits] at h
    refine ⟨_, rfl, ?_⟩
    exact foldl_replace_le (fun best x : Exit K => x.remaining < best.remaining) Exit.remaining
      (fun _ _ hlt => hlt.le) (fun _ _ hlt => not_lt.mp hlt) others first e h

theorem on_of_exit?_eq_some {visited : List Nat} {eps : K} {e : Exit K}
    (h : s.exit? line visited eps t = some e) : line.On e.crossing.plan := by
  have hmem := s.mem_of_exit?_eq_some line h
  cases ht : s.triangles[t]? with
  | none =>
    rw [exits, ht] at hmem
    cases hmem
  | some tri =>
    obtain ⟨_, p, q, x, y, _, _, _, _, hclosest, _, rfl⟩ := (s.mem_exits line ht).mp hmem
    have hon := (line.on_closestPoints ⟨p, q⟩).1
    rw [hclosest] at hon
    exact hon

/-! ## Walking -/

section
variable {P : Point3 K → Prop} {eps : K}

/-- What holds of every crossing that may be taken, and of the end of the line over every
    triangle that holds it, holds of all samples. -/
theorem forall_mem_samplesFrom
    (hexit : ∀ {visited t e}, s.exit? line visited eps t = some e → P e.crossing)
    (hend : ∀ {t}, s.holds t line.p1.plan = true → P (line.p1.withZ (s.planeZ t line.p1.plan)))
    {bound : Nat} {visited : List Nat} {last : Point3 K}
    (h : x ∈ s.samplesFrom line eps bound visited t last) : P x := by
  -- The induction is on the number of triangles that may still be entered.
  induction bound generalizing visited t last with
  | zero => cases h
  | succ bound ih =>
    rw [samplesFrom] at h
    split at h
    · next hheld =>
      rw [eq_of_mem_distinctFrom h]
      exact hend hheld
    · split at h
      · cases h
      · next e he =>
        have hcrossing : x ∈ distinctFrom last e.crossing → P x := fun hx =>
          eq_of_mem_distinctFrom hx ▸ hexit he
        split at h
        · exact hcrossing h
        · rcases List.mem_append.mp h with hx | hx
          · exact hcrossing hx
          · exact ih hx

variable {a b : Point2 K}

/-- A property of where a walk may start, of the crossings and of the end is one of all samples. -/
theorem forall_mem_walk (hstart : ∀ {t x}, s.start? (Segment.flat a b) = some (t, x) → P x)
    (hexit : ∀ {visited t e}, s.exit? (Segment.flat a b) visited eps t = some e → P e.crossing)
    (hend : ∀ {t}, s.holds t b = true → P (b.atZ (s.planeZ t b))) (h : x ∈ s.walk a b eps) :
    P x := by
  rw [walk] at h
  split at h
  · cases h
  · next first hfirst =>
    rcases List.mem_cons.mp h with rfl | h
    · exact hstart hfirst
    · exact s.forall_mem_samplesFrom (Segment.flat a b) hexit hend h

end

/-- Every sample of a walk is a place of the line. -/
theorem on_of_mem_walk {a b : Point2 K} {eps : K} (h : x ∈ s.walk a b eps) :
    (Segment.flat a b).On x.plan :=
  s.forall_mem_walk (P := fun x => (Segment.flat a b).On x.plan) (s.on_of_start?_eq_some _)
    (s.on_of_exit?_eq_some _) (fun _ => (Segment.flat a b).on_p1) h

end Terrain

end SiteSection
