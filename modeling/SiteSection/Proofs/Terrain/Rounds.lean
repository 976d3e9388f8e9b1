import SiteSection.Double
import SiteSection.Proofs.Terrain.Faces
import SiteSection.Proofs.Terrain.Matching
import SiteSection.Proofs.Terrain.Walk

/-! # Rounds of a walk

  A walk goes on from triangle to triangle until it breaks off: in a triangle that holds the end
  of the line, in one that has no way out, or where the way out leaves the mesh. It is given a
  bound on the triangles that it may enter, and would be cut short there without a word.

  It never is. A way out does not lead into a triangle visited, and leads into one that exists,
  so every round visits one more of finitely many. Nothing is asked of the mesh, but that its
  faces name existing points, or of the numbers.
-/

namespace SiteSection

/-- The faces that are linked exist. -/
theorem Mesh.lt_of_mem_linksAt {α : Type} {points : List (Point3 α)} {faces : List Face}
    {t n : Nat} (h : some n ∈ ((Mesh.ofFaces points faces).linksAt t).toList) :
    n < faces.length := by
  obtain ⟨i, hi⟩ := List.mem_iff_getElem?.mp h
  have hacross : (Mesh.ofFaces points faces).across? (t, i) = some n := by
    rw [Mesh.across?, hi, Option.join_some]
  rw [Mesh.across?_ofFaces] at hacross
  obtain ⟨b, hmate, rfl⟩ := Option.map_eq_some_iff.mp hacross
  obtain ⟨e, -, hkey⟩ := (Side.isMatching_mate? faces).key_eq _ b hmate
  obtain ⟨f, hf, -⟩ := Option.bind_eq_some_iff.mp hkey
  exact (List.getElem?_eq_some_iff.mp hf).1

namespace Terrain

variable {α : Type} [Scalar α] {s : Terrain α} {line : Segment α} {eps : α} {visited : List Nat}
  {t n : Nat} {last : Point3 α} {entered : List Nat} {samples : List (Point3 α)}

/-! ## Starting -/

/-- A walk starts in a triangle that exists. -/
theorem exists_of_start?_eq_some {x : Point3 α} (h : s.start? line = some (t, x)) :
    ∃ tri, s.triangles[t]? = some tri := by
  rw [start?] at h
  split at h
  · next hlocate =>
    cases h
    obtain ⟨-, tri, -, htri, -⟩ := exists_of_locate?_eq_some hlocate
    exact ⟨tri, htri⟩
  · obtain ⟨hit, hleast, heq⟩ := Option.map_eq_some_iff.mp h
    obtain ⟨u, -, hmem⟩ := List.mem_flatMap.mp (mem_of_leastBy?_eq_some hleast)
    obtain ⟨tri, e, y, htri, -, -, rfl⟩ := (s.mem_sideCrossings line).mp hmem
    cases heq
    exact ⟨tri, htri⟩

/-! ## Stepping -/

/-- A way out leads across a side, and into no triangle visited. -/
theorem next_of_mem_exits {e : Exit α} (h : e ∈ s.exits line visited eps t)
    (hnext : e.next = some n) : n ∉ visited ∧ some n ∈ (s.mesh.linksAt t).toList := by
  rw [exits] at h
  split at h
  · cases h
  · obtain ⟨⟨⟨p, q⟩, next⟩, hmem, he⟩ := List.mem_filterMap.mp h
    dsimp only at he
    split at he
    · cases he
    · next hfresh =>
      split at he
      · cases he
      · cases he
        subst hnext
        exact ⟨by simpa using hfresh, (List.of_mem_zip hmem).2⟩

/-! ## Walking -/

/-- The rounds of a walk that has no bound, in triangle `t` after the triangles `visited` and the
    sample `last`: which triangles are entered from here on, in order, and which samples are
    taken. A round is the last one in three cases, and else another triangle is entered. -/
inductive Rounds (s : Terrain α) (line : Segment α) (eps : α) :
    List Nat → Nat → Point3 α → List Nat → List (Point3 α) → Prop where
  /-- The triangle holds the end of the line. -/
  | ends {visited : List Nat} {t : Nat} {last : Point3 α} (hend : s.holds t line.p1.plan = true) :
      Rounds s line eps visited t last [t]
        (distinctFrom last (line.p1.withZ (s.planeZ t line.p1.plan)))
  /-- There is no way out. -/
  | stuck {visited : List Nat} {t : Nat} {last : Point3 α} (hend : s.holds t line.p1.plan = false)
      (hexit : s.exit? line (t :: visited) eps t = none) :
      Rounds s line eps visited t last [t] []
  /-- The way out leaves the mesh. -/
  | leaves {visited : List Nat} {t : Nat} {last : Point3 α} {e : Exit α}
      (hend : s.holds t line.p1.plan = false)
      (hexit : s.exit? line (t :: visited) eps t = some e) (hnext : e.next = none) :
      Rounds s line eps visited t last [t] (distinctFrom last e.crossing)
  /-- The way out leads to another triangle. -/
  | goesOn {visited : List Nat} {t n : Nat} {last : Point3 α} {e : Exit α} {entered : List Nat}
      {samples : List (Point3 α)} (hend : s.holds t line.p1.plan = false)
      (hexit : s.exit? line (t :: visited) eps t = some e) (hnext : e.next = some n)
      (hrest : Rounds s line eps (t :: visited) n
        ((distinctFrom last e.crossing).getLast?.getD last) entered samples) :
      Rounds s line eps visited t last (t :: entered) (distinctFrom last e.crossing ++ samples)

theorem length_distinctFrom_le (last x : Point3 α) : (distinctFrom last x).length ≤ 1 := by
  rw [distinctFrom]
  split
  · exact Nat.zero_le 1
  · exact le_rfl

/-- Every round takes one sample at most. -/
theorem Rounds.length_samples_le (h : s.Rounds line eps visited t last entered samples) :
    samples.length ≤ entered.length := by
  induction h with
  | ends => exact length_distinctFrom_le _ _
  | stuck => exact Nat.zero_le _
  | leaves => exact length_distinctFrom_le _ _
  | goesOn _ _ _ _ ih =>
    rw [List.length_append, List.length_cons, Nat.add_comm]
    exact Nat.add_le_add ih (length_distinctFrom_le _ _)

/-- A walk whose bound allows for all its rounds takes the samples that one without a bound
    takes. -/
theorem Rounds.samplesFrom_eq (h : s.Rounds line eps visited t last entered samples) {bound : Nat}
    (hbound : entered.length ≤ bound) :
    s.samplesFrom line eps bound visited t last = samples := by
  -- Each round uses up one of the bound, which therefore has a predecessor.
  induction h generalizing bound with
  | ends hend =>
    obtain ⟨bound, rfl⟩ := Nat.exists_eq_add_of_le' hbound
    rw [List.length_singleton, samplesFrom, if_pos hend]
  | stuck hend hexit =>
    obtain ⟨bound, rfl⟩ := Nat.exists_eq_add_of_le' hbound
    rw [List.length_singleton, samplesFrom, if_neg (by simp [hend]), hexit]
  | leaves hend hexit hnext =>
    obtain ⟨bound, rfl⟩ := Nat.exists_eq_add_of_le' hbound
    rw [List.length_singleton, samplesFrom, if_neg (by simp [hend]), hexit]
    simp only [hnext]
  | goesOn hend hexit hnext _ ih =>
    rw [List.length_cons] at hbound
    obtain ⟨bound, rfl⟩ := Nat.exists_eq_add_of_le' (Nat.le_of_add_left_le hbound)
    rw [samplesFrom, if_neg (by simp [hend]), hexit]
    simp only [hnext]
    rw [ih (by omega)]

section
variable (hlinks : ∀ t n, some n ∈ (s.mesh.linksAt t).toList → n < s.triangles.length)
include hlinks

/-- **One step.** A way out into another triangle leads into one that exists and is new. -/
theorem fresh_of_exit? (hnodup : (t :: visited).Nodup)
    (hindex : ∀ k ∈ t :: visited, k < s.triangles.length) {e : Exit α}
    (hexit : s.exit? line (t :: visited) eps t = some e) (hnext : e.next = some n) :
    (n :: t :: visited).Nodup ∧ ∀ k ∈ n :: t :: visited, k < s.triangles.length := by
  obtain ⟨hfresh, hlink⟩ := next_of_mem_exits (s.mem_of_exit?_eq_some line hexit) hnext
  exact ⟨List.nodup_cons.mpr ⟨hfresh, hnodup⟩, List.forall_mem_cons.mpr ⟨hlinks t n hlink, hindex⟩⟩

/-- **All rounds.** A walk breaks off, and until then enters triangles that exist and that it has
    not visited, each of them once. -/
theorem exists_rounds {left : Nat} (hleft : s.triangles.length ≤ left + visited.length)
    (hnodup : (t :: visited).Nodup) (hindex : ∀ k ∈ t :: visited, k < s.triangles.length) :
    ∃ entered samples, s.Rounds line eps visited t last entered samples ∧
      (entered ++ visited).Nodup ∧ ∀ k ∈ entered, k < s.triangles.length := by
  -- The induction is on the number of triangles that have not been visited.
  induction left generalizing visited t last with
  | zero =>
    -- All triangles have been visited, so there is none that the walk could be in.
    exfalso
    have hle := length_visited_le hnodup hindex
    rw [List.length_cons] at hle
    omega
  | succ left ih =>
    have hlt : t < s.triangles.length := hindex t List.mem_cons_self
    have hlast : ([t] ++ visited).Nodup ∧ ∀ k ∈ [t], k < s.triangles.length :=
      ⟨hnodup, by simpa using hlt⟩
    cases hend : s.holds t line.p1.plan with
    | true => exact ⟨_, _, .ends hend, hlast⟩
    | false =>
      cases hexit : s.exit? line (t :: visited) eps t with
      | none => exact ⟨_, _, .stuck hend hexit, hlast⟩
      | some e =>
        cases hnext : e.next with
        | none => exact ⟨_, _, .leaves hend hexit hnext, hlast⟩
        | some n =>
          obtain ⟨hnodup', hindex'⟩ := fresh_of_exit? hlinks hnodup hindex hexit hnext
          obtain ⟨entered, samples, hrest, hnew, hin⟩ :=
            ih (by rw [List.length_cons]; omega) hnodup' hindex'
          refine ⟨_, _, .goesOn hend hexit hnext hrest, ?_, List.forall_mem_cons.mpr ⟨hlt, hin⟩⟩
          exact List.nodup_middle.mp hnew

end

/-- **Walks break off.** Over every mesh whose faces name existing points, a walk that starts has
    rounds that come to an end by themselves: it enters triangles of the mesh, none of them
    twice, so there are fewer rounds than its bound allows for, and its samples are those of a
    walk without a bound. There is at most one sample more than there are faces. -/
theorem walk_breaks_off (points : List (Point3 α)) (faces : List Face)
    (h : ∀ f ∈ faces, f.InRange points.length) :
    ∃ s, ofMesh? (Mesh.ofFaces points faces) = some s ∧ s.triangles.length = faces.length ∧
      ∀ (a b : Point2 α) (eps : α), (s.walk a b eps).length ≤ faces.length + 1 ∧
        match s.start? (Segment.flat a b) with
        | none => s.walk a b eps = []
        | some (t, first) => ∃ entered samples,
            s.Rounds (Segment.flat a b) eps [] t first entered samples ∧
              entered.Nodup ∧ (∀ k ∈ entered, k < faces.length) ∧
              entered.length < faces.length + 1 ∧ s.walk a b eps = first :: samples := by
  obtain ⟨s, hs⟩ := exists_ofMesh? (m := Mesh.ofFaces points faces) h
  obtain ⟨hmesh, htriangles, -⟩ := spec_of_ofMesh? hs
  have hcount : s.triangles.length = faces.length := Mesh.length_triangles? htriangles
  have hlinks : ∀ t n, some n ∈ (s.mesh.linksAt t).toList → n < s.triangles.length := by
    intro t n hn
    rw [hmesh] at hn
    exact hcount ▸ Mesh.lt_of_mem_linksAt hn
  refine ⟨s, hs, hcount, fun a b eps => ?_⟩
  rw [walk]
  cases hstart : s.start? (Segment.flat a b) with
  | none => exact ⟨Nat.zero_le _, rfl⟩
  | some start =>
    obtain ⟨t, first⟩ := start
    obtain ⟨tri, htri⟩ := exists_of_start?_eq_some hstart
    have hlt : t < s.triangles.length := (List.getElem?_eq_some_iff.mp htri).1
    obtain ⟨entered, samples, hrounds, hnodup, hindex⟩ :
        ∃ entered samples, s.Rounds (Segment.flat a b) eps [] t first entered samples ∧
          (entered ++ []).Nodup ∧ ∀ k ∈ entered, k < s.triangles.length :=
      exists_rounds hlinks (Nat.le_add_right _ _) (List.nodup_singleton t) (by simpa using hlt)
    rw [List.append_nil] at hnodup
    have hfew : entered.length ≤ s.triangles.length := length_visited_le hnodup hindex
    have hsamples := hrounds.samplesFrom_eq (Nat.le_succ_of_le hfew)
    rw [hcount] at hfew hindex
    dsimp only
    rw [hsamples]
    refine ⟨?_, entered, samples, hrounds, hnodup, hindex, Nat.lt_succ_of_le hfew, rfl⟩
    rw [List.length_cons]
    exact Nat.succ_le_succ (hrounds.length_samples_le.trans hfew)

/-- Of these faces the first is its own neighbour, the next two are the same, and the last uses a
    side that they all have. No walk over them takes more than five samples. -/
theorem walk_breaks_off_tangled : ∃ (points : List (Point3 Float)) (faces : List Face),
    points = [⟨0, 0, 0⟩, ⟨4, 0, 0⟩, ⟨0, 4, 0⟩, ⟨4, 4, 0⟩] ∧
    faces = [⟨0, 1, 0⟩, ⟨0, 1, 2⟩, ⟨0, 1, 2⟩, ⟨1, 0, 3⟩] ∧
    (∀ f ∈ faces, f.InRange points.length) ∧
    ∃ s, ofMesh? (Mesh.ofFaces points faces) = some s ∧
      ∀ (a b : Point2 Float) (eps : Float), (s.walk a b eps).length ≤ 5 := by
  refine ⟨_, _, rfl, rfl, ?_⟩
  have hrange : ∀ f ∈ [⟨0, 1, 0⟩, ⟨0, 1, 2⟩, ⟨0, 1, 2⟩, (⟨1, 0, 3⟩ : Face)],
      f.InRange [⟨0, 0, 0⟩, ⟨4, 0, 0⟩, ⟨0, 4, 0⟩, (⟨4, 4, 0⟩ : Point3 Float)].length := by
    simp [Face.InRange]
  obtain ⟨s, hs, -, hwalk⟩ := walk_breaks_off _ _ hrange
  exact ⟨hrange, s, hs, fun a b eps => (hwalk a b eps).1⟩

end Terrain

end SiteSection
