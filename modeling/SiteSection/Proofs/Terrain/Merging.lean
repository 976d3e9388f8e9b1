import Mathlib.Data.List.Forall2
import SiteSection.Triangulation
import SiteSection.Proofs.Numbers.Double

/-! # Merging topographic points

  Free points and the ends of break-lines are entered one after another. A place that is visited
  for the first time is a new vertex. A place that is visited again keeps its vertex, which takes
  over the elevation. So there is one vertex for each place, the vertices are in the order of the
  first visits, and their elevations are those of the last.

  The triangulation may keep plan locations only, with the elevations in a table beside it that
  is indexed by the numbers of the vertices and grows as they come. This makes no difference, be
  the triangulation the one here or any other that numbers its vertices in turn.
-/

namespace SiteSection

namespace Triangulation

variable {α : Type} [Scalar α]

/-! ## Visits -/

/-- The points in the order in which they are entered: free points, then both ends of each
    line. -/
def visits (points : List (Point3 α)) (lines : List (Point3 α × Point3 α)) : List (Point3 α) :=
  points ++ lines.flatMap fun l => [l.1, l.2]

/-- The first visits of all places, in their order. -/
def firstVisits (vs : List (Point3 α)) : List (Point3 α) :=
  vs.foldl (fun firsts p => if firsts.any (·.samePlan p) then firsts else firsts ++ [p]) []

/-- The last visit of the place of a point. -/
def lastVisit? (vs : List (Point3 α)) (p : Point3 α) : Option (Point3 α) :=
  vs.reverse.find? (·.samePlan p)

theorem firstVisits_concat (vs : List (Point3 α)) (p : Point3 α) :
    firstVisits (vs ++ [p]) =
      if (firstVisits vs).any (·.samePlan p) then firstVisits vs else firstVisits vs ++ [p] := by
  rw [firstVisits, List.foldl_append]
  rfl

theorem lastVisit?_concat (vs : List (Point3 α)) (p q : Point3 α) :
    lastVisit? (vs ++ [p]) q = if p.samePlan q then some p else lastVisit? vs q := by
  rw [lastVisit?, List.reverse_append, List.reverse_singleton, List.singleton_append,
    List.find?_cons]
  split <;> simp_all [lastVisit?]

/-- The vertices merge the visits: there is one for each place that is visited, in the order of
    the first visits and at the elevations of the last. -/
structure Merges (vs vertices : List (Point3 α)) : Prop where
  /-- No two vertices are at one place. -/
  apart : vertices.Pairwise fun p q => p.samePlan q = false
  /-- Every visit is at the place of a vertex. -/
  covers : ∀ p ∈ vs, ∃ q ∈ vertices, q.samePlan p = true
  /-- The vertices are at the places of the first visits, in their order, and at the elevations
      of the last visits. -/
  entries : List.Forall₂ (fun q first => q.samePlan first = true ∧
    (lastVisit? vs q).map Point3.z = some q.z) vertices (firstVisits vs)

/-- A triangulation whose vertices merge what is given. -/
class LawfulTriangulates (α : Type) [Scalar α] [Triangulates α] : Prop where
  /-- The vertices of a mesh merge the points and the ends of the lines. -/
  merges : ∀ {points : List (Point3 α)} {lines : List (Point3 α × Point3 α)} {m : Mesh α},
    (Triangulates.triangulate points lines).result = .ok m → Merges (visits points lines) m.points

theorem mem_of_mem_firstVisits {vs : List (Point3 α)} {p : Point3 α} (h : p ∈ firstVisits vs) :
    p ∈ vs := by
  induction vs using List.reverseRecOn with
  | nil => cases h
  | append_singleton vs q ih =>
    rw [firstVisits_concat] at h
    split at h
    · exact List.mem_append_left _ (ih h)
    · exact List.mem_append.mpr ((List.mem_append.mp h).imp_left ih)

/-- A vertex has its place from some visit and its elevation from some visit. -/
theorem Merges.exists_visits {vs vertices : List (Point3 α)} (h : Merges vs vertices)
    {q : Point3 α} (hq : q ∈ vertices) :
    ∃ first ∈ vs, q.samePlan first = true ∧ ∃ last ∈ vs, last.z = q.z := by
  obtain ⟨i, hi⟩ := List.mem_iff_getElem?.mp hq
  obtain ⟨hlt, hget⟩ := List.getElem?_eq_some_iff.mp hi
  obtain ⟨hplace, hz⟩ := h.entries.get hlt (h.entries.length_eq ▸ hlt)
  rw [List.get_eq_getElem, hget] at hplace hz
  obtain ⟨last, hlast, hz⟩ := Option.map_eq_some_iff.mp hz
  refine ⟨_, mem_of_mem_firstVisits (List.getElem_mem _), hplace, last, ?_, hz⟩
  exact List.mem_reverse.mp (List.mem_of_find?_eq_some hlast)

/-- A point is entered: it changes the vertex at its place, or it is a new vertex there. -/
inductive Enters (vertices : List (Point3 α)) (p : Point3 α) : List (Point3 α) → Nat → Prop where
  | known {i : Nat} {old new : Point3 α} (hold : vertices[i]? = some old)
      (hsame : old.samePlan p = true) (hnew : new.samePlan p = true) (hz : new.z = p.z) :
      Enters vertices p (vertices.set i new) i
  | fresh {new : Point3 α} (hfresh : ∀ q ∈ vertices, q.samePlan p = false)
      (hnew : new.samePlan p = true) (hz : new.z = p.z) :
      Enters vertices p (vertices ++ [new]) vertices.length

theorem Merges.nil : Merges ([] : List (Point3 α)) [] :=
  ⟨.nil, by simp, .nil⟩

section
variable [PartialEquivBEq α] {vs vertices vertices' : List (Point3 α)} {p q r : Point3 α} {i : Nat}

theorem samePlan_symm (h : p.samePlan q = true) : q.samePlan p = true := BEq.symm h

theorem samePlan_congr_left (h : p.samePlan q = true) : p.samePlan r = q.samePlan r :=
  BEq.congr_left h

theorem samePlan_congr_right (h : p.samePlan q = true) : r.samePlan p = r.samePlan q :=
  BEq.congr_right h

/-- Among vertices at different places, the one that is changed is the one at its place. -/
theorem set_eq_map (hapart : vertices.Pairwise fun p q => p.samePlan q = false) {old : Point3 α}
    (hold : vertices[i]? = some old) (hsame : old.samePlan p = true) (new : Point3 α) :
    vertices.set i new = vertices.map fun q => if q.samePlan p then new else q := by
  obtain ⟨hi, hget⟩ := List.getElem?_eq_some_iff.mp hold
  obtain ⟨l, l', hsplit, -, hset⟩ := @List.exists_of_set _ i new vertices hi
  rw [hget] at hsplit
  rw [hset]
  rw [hsplit] at hapart ⊢
  rw [List.pairwise_append, List.pairwise_cons] at hapart
  obtain ⟨-, ⟨hafter, -⟩, hbefore⟩ := hapart
  have hkeep : ∀ m : List (Point3 α), (∀ q ∈ m, q.samePlan p = false) →
      m.map (fun q => if q.samePlan p then new else q) = m := by
    intro m hm
    refine (List.map_congr_left fun q hq => ?_).trans (List.map_id m)
    rw [hm q hq]
    rfl
  rw [List.map_append, List.map_cons, if_pos hsame, hkeep l, hkeep l']
  · intro q hq
    rw [Bool.eq_false_iff]
    intro hqp
    have := hafter q hq
    rw [samePlan_congr_left hsame, samePlan_symm hqp] at this
    cases this
  · intro q hq
    rw [← samePlan_congr_right hsame]
    exact hbefore q hq old List.mem_cons_self

/-- A place is that of a vertex if it has been visited first. -/
theorem Merges.any_firstVisits (h : Merges vs vertices) (p : Point3 α) :
    (firstVisits vs).any (·.samePlan p) = vertices.any (·.samePlan p) := by
  obtain ⟨-, -, hentries⟩ := h
  generalize firstVisits vs = firsts at hentries
  induction hentries with
  | nil => rfl
  | cons hentry _ ih => rw [List.any_cons, List.any_cons, ih, samePlan_congr_left hentry.1]

/-- A visit of a place that is known changes its vertex, and no vertex moves. -/
theorem Merges.visit_known (h : Merges vs vertices) {old new : Point3 α}
    (hold : vertices[i]? = some old) (hsame : old.samePlan p = true)
    (hnew : new.samePlan p = true) (hz : new.z = p.z) :
    Merges (vs ++ [p]) (vertices.set i new) := by
  rw [set_eq_map h.apart hold hsame new]
  have hmem := List.mem_of_getElem? hold
  set change := fun q : Point3 α => if q.samePlan p then new else q with hchange
  have hplace : ∀ q r, (change q).samePlan r = q.samePlan r ∧
      r.samePlan (change q) = r.samePlan q := by
    intro q r
    rw [hchange]
    by_cases hqp : q.samePlan p = true
    · have hto := BEq.trans hnew (samePlan_symm hqp)
      simp only [hqp, if_true]
      exact ⟨samePlan_congr_left hto, samePlan_congr_right hto⟩
    · simp only [hqp]
      exact ⟨rfl, rfl⟩
  refine ⟨?_, ?_, ?_⟩
  · rw [List.pairwise_map]
    exact h.apart.imp fun {q r} hqr => by rw [(hplace q _).1, (hplace r _).2, hqr]
  · intro r hr
    rw [List.mem_append, List.mem_singleton] at hr
    obtain ⟨q, hq, hqr⟩ : ∃ q ∈ vertices, q.samePlan r = true := by
      rcases hr with hr | rfl
      · exact h.covers r hr
      · exact ⟨old, hmem, hsame⟩
    exact ⟨change q, List.mem_map_of_mem hq, (hplace q r).1.trans hqr⟩
  · have hvisited : (firstVisits vs).any (·.samePlan p) = true := by
      rw [h.any_firstVisits]
      exact List.any_eq_true.mpr ⟨old, hmem, hsame⟩
    rw [firstVisits_concat, if_pos hvisited, List.forall₂_map_left_iff]
    refine h.entries.imp fun q first hentry => ⟨(hplace q first).1.trans hentry.1, ?_⟩
    rw [lastVisit?_concat, (hplace q p).2]
    by_cases hqp : q.samePlan p = true
    · rw [if_pos (samePlan_symm hqp), hchange]
      simp only [hqp, if_true, Option.map_some, hz]
    · have hpq : ¬ p.samePlan q = true := fun hpq => hqp (samePlan_symm hpq)
      rw [if_neg hpq, hchange]
      simp only [hqp]
      exact hentry.2

/-- A visit of any other place brings a new vertex, and changes no other. -/
theorem Merges.visit_fresh (h : Merges vs vertices) {new : Point3 α}
    (hfresh : ∀ q ∈ vertices, q.samePlan p = false) (hnew : new.samePlan p = true)
    (hz : new.z = p.z) : Merges (vs ++ [p]) (vertices ++ [new]) := by
  refine ⟨?_, ?_, ?_⟩
  · rw [List.pairwise_append]
    refine ⟨h.apart, List.pairwise_singleton _ _, fun q hq r hr => ?_⟩
    rw [List.mem_singleton.mp hr, samePlan_congr_right hnew, hfresh q hq]
  · intro r hr
    rw [List.mem_append, List.mem_singleton] at hr
    rcases hr with hr | rfl
    · obtain ⟨q, hq, hqr⟩ := h.covers r hr
      exact ⟨q, List.mem_append_left _ hq, hqr⟩
    · exact ⟨new, List.mem_append_right _ (List.mem_singleton_self new), hnew⟩
  · have hnever : ¬ (firstVisits vs).any (·.samePlan p) = true := by
      rw [h.any_firstVisits, List.any_eq_true]
      rintro ⟨q, hq, hqp⟩
      rw [hfresh q hq] at hqp
      cases hqp
    rw [firstVisits_concat, if_neg hnever]
    refine List.rel_append ?_ (.cons ⟨hnew, ?_⟩ .nil)
    · have hentries := (List.forall₂_and_left _ _).mpr ⟨hfresh, h.entries⟩
      refine hentries.imp fun q first hentry => ⟨hentry.2.1, ?_⟩
      have hpq : ¬ p.samePlan q = true := fun hpq => by
        rw [samePlan_symm hpq] at hentry
        cases hentry.1
      rw [lastVisit?_concat, if_neg hpq]
      exact hentry.2.2
    · rw [lastVisit?_concat, if_pos (samePlan_symm hnew), Option.map_some, hz]

/-- Entering a point is a visit more. -/
theorem Merges.enters (h : Merges vs vertices) (hp : Enters vertices p vertices' i) :
    Merges (vs ++ [p]) vertices' := by
  cases hp with
  | known hold hsame hnew hz => exact h.visit_known hold hsame hnew hz
  | fresh hfresh hnew hz => exact h.visit_fresh hfresh hnew hz

end

/-! ## Elevations in a table -/

/-- A triangulation that is built up, as far as the merging of points depends on it. -/
structure VertexStore (α σ : Type) where
  /-- Without vertices. -/
  empty : σ
  /-- Enters a plan location, and gives the number of its vertex or says what is wrong with it. -/
  insert : σ → Point2 α → Except CoordinateFault (σ × Nat)
  /-- May the line between two vertices be followed? -/
  accepts : σ → Nat → Nat → Bool
  /-- Follows the line between two vertices. -/
  follow : σ → Nat → Nat → σ
  /-- The locations of the vertices, by their numbers. -/
  vertices : σ → List (Point2 α)
  /-- The faces. -/
  faces : σ → List Face

/-- What has been entered, with the elevations beside it. -/
structure Tabled (α σ : Type) where
  /-- The triangulation. -/
  store : σ
  /-- The elevations, by the numbers of the vertices. -/
  elevations : List α
  /-- How many break-lines were refused. -/
  refused : Nat

/-- The table with an elevation put in its place, and undefined ones before it if there is no
    such place yet. -/
def putElevation (zs : List α) (i : Nat) (z : α) : List α :=
  (if i < zs.length then zs else zs ++ List.replicate (i + 1 - zs.length) Scalar.nan).set i z

/-- Putting an elevation in its place changes no other, those that are not there included. -/
theorem getD_putElevation (zs : List α) (i j : Nat) (z : α) :
    (putElevation zs i z)[j]?.getD Scalar.nan =
      if i = j then z else zs[j]?.getD Scalar.nan := by
  have hlong : i < (if i < zs.length then zs
      else zs ++ List.replicate (i + 1 - zs.length) Scalar.nan).length := by
    split
    · assumption
    · rw [List.length_append, List.length_replicate]
      omega
  rw [putElevation, List.getElem?_set, if_pos hlong]
  by_cases hij : i = j
  · rw [if_pos hij, if_pos hij, Option.getD_some]
  · rw [if_neg hij, if_neg hij]
    split
    · rfl
    · -- What has been put before the new place is undefined, as is what is not there.
      rw [List.getElem?_append]
      split
      · rfl
      · next hlt =>
        rw [List.getElem?_eq_none (Nat.le_of_not_lt hlt), List.getElem?_replicate]
        split <;> rfl

namespace VertexStore

variable {σ : Type}

section
variable (S : VertexStore α σ)

/-- Enters a point. -/
def addPoint (t : Tabled α σ) (p : Point3 α) :
    Except (TriangulationFault α) (Tabled α σ × Nat) :=
  match S.insert t.store p.plan with
  | .error fault => .error (.badCoordinate fault p.x p.y)
  | .ok (store, i) =>
    .ok ({ t with store := store, elevations := putElevation t.elevations i p.z }, i)

/-- Accepts or refuses the break-line between two vertices. A line between one vertex and
    itself is left out. -/
def addBreakline (t : Tabled α σ) (i j : Nat) : Tabled α σ :=
  if i = j then t
  else if S.accepts t.store i j then { t with store := S.follow t.store i j }
  else { t with refused := t.refused + 1 }

/-- Enters the ends of a line, then the line. -/
def addLine (t : Tabled α σ) (l : Point3 α × Point3 α) :
    Except (TriangulationFault α) (Tabled α σ) :=
  match S.addPoint t l.1 with
  | .error e => .error e
  | .ok (t1, i) => match S.addPoint t1 l.2 with
    | .error e => .error e
    | .ok (t2, j) => .ok (S.addBreakline t2 i j)

/-- Enters points and lines until one is at fault; what has been entered is kept. -/
def addAll {ι : Type} (add : Tabled α σ → ι → Except (TriangulationFault α) (Tabled α σ)) :
    Tabled α σ → List ι → Tabled α σ × Option (TriangulationFault α)
  | t, [] => (t, none)
  | t, i :: rest =>
    match add t i with
    | .error e => (t, some e)
    | .ok t' => addAll add t' rest

/-- Enters some points and then some lines. -/
def ofLists (points : List (Point3 α)) (lines : List (Point3 α × Point3 α)) :
    Tabled α σ × Option (TriangulationFault α) :=
  match addAll (fun t p => (S.addPoint t p).map (·.1)) ⟨S.empty, [], 0⟩ points with
  | (t, some e) => (t, some e)
  | (t, none) => addAll S.addLine t lines

/-- The vertices, each at its elevation in the table. -/
def points (t : Tabled α σ) : List (Point3 α) :=
  (S.vertices t.store).mapIdx fun i v => v.atZ (t.elevations[i]?.getD Scalar.nan)

/-- Triangulates points and break-lines, with the elevations in a table. -/
def triangulate (points : List (Point3 α)) (lines : List (Point3 α × Point3 α)) :
    Triangulated α :=
  match S.ofLists points lines with
  | (t, some fault) => ⟨t.refused, .error fault⟩
  | (t, none) =>
    match S.faces t.store with
    | [] => ⟨t.refused, .error (.noTriangle (S.vertices t.store).length)⟩
    | faces => ⟨t.refused, .ok (Mesh.ofFaces (S.points t) faces)⟩

/-- A triangulation numbers its vertices in turn: a location that is known has a vertex, any other
    that is entered gets the next number, and lines bring no vertices. -/
structure IsLawful : Prop where
  /-- At first there are no vertices. -/
  vertices_empty : S.vertices S.empty = []
  /-- An undefined location is not entered. -/
  defined {s s' : σ} {p : Point2 α} {i : Nat} :
    S.insert s p = .ok (s', i) → (p == p) = true
  /-- A location that is known is that of its vertex, which stays in place. -/
  known {s s' : σ} {p : Point2 α} {i : Nat} :
    S.insert s p = .ok (s', i) → (∃ v ∈ S.vertices s, (v == p) = true) →
      ∃ old new, (S.vertices s)[i]? = some old ∧ (old == p) = true ∧ (new == p) = true ∧
        S.vertices s' = (S.vertices s).set i new
  /-- Any other location is a new vertex. -/
  fresh {s s' : σ} {p : Point2 α} {i : Nat} :
    S.insert s p = .ok (s', i) → (∀ v ∈ S.vertices s, (v == p) = false) →
      i = (S.vertices s).length ∧ S.vertices s' = S.vertices s ++ [p]
  /-- Following a line brings no vertices. -/
  vertices_follow {s : σ} {i j : Nat} :
    S.accepts s i j = true → S.vertices (S.follow s i j) = S.vertices s

end

/-- Entering a list is as many visits more as its elements make. -/
theorem merges_addAll {ι : Type} {S : VertexStore α σ} {t t' : Tabled α σ} {vs : List (Point3 α)}
    {add : Tabled α σ → ι → Except (TriangulationFault α) (Tabled α σ)} {seen : ι → List (Point3 α)}
    (hadd : ∀ t t' i vs, add t i = .ok t' → Merges vs (S.points t) →
      Merges (vs ++ seen i) (S.points t'))
    {l : List ι} (h : addAll add t l = (t', none)) (hmerges : Merges vs (S.points t)) :
    Merges (vs ++ l.flatMap seen) (S.points t') := by
  induction l generalizing t vs with
  | nil =>
    cases h
    rwa [List.flatMap_nil, List.append_nil]
  | cons i l ih =>
    rw [addAll] at h
    split at h
    · cases h
    · next t1 hi =>
      rw [List.flatMap_cons, ← List.append_assoc]
      exact ih h (hadd _ _ _ _ hi hmerges)

section
variable {S : VertexStore α σ} (hS : S.IsLawful) {t t' : Tabled α σ} {p : Point3 α} {i j : Nat}
include hS

/-- Entering a point changes the vertex at its place, or brings a new one. -/
theorem enters_of_addPoint (h : S.addPoint t p = .ok (t', i)) :
    Enters (S.points t) p (S.points t') i := by
  rw [addPoint] at h
  split at h
  · cases h
  · next store i hinsert =>
    cases h
    by_cases hknown : ∃ v ∈ S.vertices t.store, (v == p.plan) = true
    · obtain ⟨old, new, hold, hsame, hnew, hset⟩ := hS.known hinsert hknown
      have hpoints : S.points ⟨store, putElevation t.elevations i p.z, t.refused⟩ =
          (S.points t).set i (new.atZ p.z) := by
        refine List.ext_getElem? fun j => ?_
        simp only [points, hset, List.getElem?_set, List.getElem?_mapIdx, getD_putElevation,
          List.length_mapIdx]
        split
        · split <;> rfl
        · rfl
      rw [hpoints]
      have hentry : (S.points t)[i]? = some (old.atZ (t.elevations[i]?.getD Scalar.nan)) := by
        rw [points, List.getElem?_mapIdx, hold, Option.map_some]
      exact .known hentry hsame hnew rfl
    · have hfresh : ∀ v ∈ S.vertices t.store, (v == p.plan) = false := fun v hv =>
        Bool.eq_false_iff.mpr fun hv' => hknown ⟨v, hv, hv'⟩
      obtain ⟨rfl, happend⟩ := hS.fresh hinsert hfresh
      have hpoints : S.points ⟨store, putElevation t.elevations (S.vertices t.store).length p.z,
          t.refused⟩ = S.points t ++ [p] := by
        refine List.ext_getElem? fun j => ?_
        simp only [points, happend, List.getElem?_append, List.getElem?_mapIdx,
          getD_putElevation, List.length_mapIdx]
        by_cases hj : j < (S.vertices t.store).length
        · simp only [if_pos hj, if_neg (Nat.ne_of_gt hj)]
        · simp only [if_neg hj]
          cases hrest : j - (S.vertices t.store).length with
          | zero =>
            rw [if_pos (by omega)]
            rfl
          | succ => rfl
      have hlength : (S.vertices t.store).length = (S.points t).length := List.length_mapIdx.symm
      rw [hpoints, hlength]
      refine .fresh (fun q hq => ?_) (hS.defined hinsert) rfl
      obtain ⟨j, hj, rfl⟩ := List.mem_mapIdx.mp hq
      exact hfresh _ (List.getElem_mem hj)

theorem points_addBreakline (t : Tabled α σ) (i j : Nat) :
    S.points (S.addBreakline t i j) = S.points t := by
  rw [addBreakline]
  split
  · rfl
  · split
    · next haccepts => rw [points, points, hS.vertices_follow haccepts]
    · rfl

variable [PartialEquivBEq α] {vs : List (Point3 α)}

/-- Entering a line is two visits more. -/
theorem merges_addLine {l : Point3 α × Point3 α} (h : S.addLine t l = .ok t')
    (hmerges : Merges vs (S.points t)) : Merges (vs ++ [l.1, l.2]) (S.points t') := by
  rw [addLine] at h
  split at h
  · cases h
  · next t1 i hfirst =>
    split at h
    · cases h
    · next t2 j hsecond =>
      cases h
      rw [points_addBreakline hS]
      have htwice := (hmerges.enters (enters_of_addPoint hS hfirst)).enters
        (enters_of_addPoint hS hsecond)
      rwa [List.append_assoc] at htwice

theorem merges_ofLists {ps : List (Point3 α)} {ls : List (Point3 α × Point3 α)}
    (h : S.ofLists ps ls = (t, none)) : Merges (visits ps ls) (S.points t) := by
  have hnone : Merges [] (S.points ⟨S.empty, [], 0⟩) := by
    rw [points, hS.vertices_empty]
    exact .nil
  rw [ofLists] at h
  split at h
  · cases h
  · next t1 hpoints =>
    have hfree : Merges ps (S.points t1) := by
      rw [← List.nil_append ps, ← List.flatMap_singleton' ps]
      refine merges_addAll (fun t t' p vs hp hvs => ?_) hpoints hnone
      · cases hi : S.addPoint t p with
        | error e =>
          rw [hi] at hp
          cases hp
        | ok r =>
          rw [hi] at hp
          cases hp
          exact hvs.enters (enters_of_addPoint hS hi)
    exact merges_addAll (fun t t' l vs hl hvs => merges_addLine hS hl hvs) h hfree

end

end VertexStore

/-! ## Where no edge is flipped -/

/-- A line on which there is no vertex is in one part. -/
theorem breaklineParts_eq_singleton {β : Type} [Zero β] [Add β] [Sub β] [Mul β] [LT β]
    [DecidableLT β] [BEq β] {plan : Array (Point2 β)}
    {l : Nat × Nat} {a b : Point2 β} (ha : plan[l.1]? = some a) (hb : plan[l.2]? = some b)
    (hnone : plan.toList.zipIdx.filter (fun v => ExactPlan.within a b v.1) = []) :
    breaklineParts plan l = [l] := by
  simp [breaklineParts, ha, hb, hnone, pathEdges]

namespace Wings

/-- The sides of a face, each with the corner opposite it. -/
def wingsOf (f : Face) : List ((Nat × Nat) × Nat) :=
  [((f.a, f.b), f.c), ((f.b, f.c), f.a), ((f.c, f.a), f.b)]

theorem getElem?_addFace {w : Wings} {f : Face} {e : Nat × Nat} {c : Nat}
    (h : (w.addFace f)[e]? = some c) : (e, c) ∈ wingsOf f ∨ w[e]? = some c := by
  simp only [addFace, Std.HashMap.getElem?_insert, beq_iff_eq] at h
  grind [wingsOf]

/-- Corners are opposite the sides of their faces only. -/
theorem mem_wingsOf_of_getElem? {faces : List Face} {e : Nat × Nat} {c : Nat}
    (h : (ofFaces faces)[e]? = some c) : (e, c) ∈ faces.flatMap wingsOf := by
  have hfrom : ∀ w : Wings, (faces.foldl addFace w)[e]? = some c →
      (e, c) ∈ faces.flatMap wingsOf ∨ w[e]? = some c := by
    clear h
    induction faces with
    | nil => exact fun w hw => .inr hw
    | cons f faces ih =>
      intro w hw
      rw [List.flatMap_cons, List.mem_append, or_assoc]
      rcases ih _ hw with hlater | hfirst
      · exact .inr (.inl hlater)
      · exact (getElem?_addFace hfirst).imp_right .inr
  rcases hfrom ∅ h with hmem | hempty
  · exact hmem
  · simp at hempty

variable {β : Type} [Zero β] [Add β] [Sub β] [Mul β] [LT β] [DecidableLT β]
  {plan : Array (Point2 β)} {w : Wings}

/-- The edges of a line that crosses no edge are there already. -/
theorem force_eq_self {u v : Nat}
    (h : ∀ a b c d, w[(a, b)]? = some c → w[(b, a)]? = some d →
      holdsAt plan ExactPlan.cross u v a b = false) (bound : Nat) :
    force plan u v bound w = w := by
  cases bound with
  | zero => rfl
  | succ bound =>
    have hnone : w.inner.filter (fun e => holdsAt plan ExactPlan.cross u v e.1 e.2.1) = [] := by
      refine List.filter_eq_nil_iff.mpr fun e he => ?_
      obtain ⟨⟨⟨a, b⟩, c⟩, hmem, he⟩ := List.mem_filterMap.mp he
      rw [Std.HashMap.mem_toList_iff_getElem?_eq_some] at hmem
      split at he
      · obtain ⟨d, hd, rfl⟩ := Option.map_eq_some_iff.mp he
        rw [h a b c d hmem hd]
        exact Bool.false_ne_true
      · cases he
    rw [force, nearing?, hnone]
    rfl

/-- Where the circles are empty but for those at fixed edges, nothing is flipped. -/
theorem legalise_eq_self {fixed : Nat × Nat → Bool}
    (h : ∀ a b c d, w[(a, b)]? = some c → w[(b, a)]? = some d →
      (!fixed (a, b) && holdsAt plan ExactPlan.inCircle a b c d) = false)
    (bound : Nat) (work : List (Nat × Nat)) : legalise plan fixed bound work w = w := by
  induction bound generalizing work with
  | zero => rfl
  | succ bound ih =>
    cases work with
    | nil => rfl
    | cons e work =>
      rw [legalise]
      split
      · next c d hc hd =>
        rw [h _ _ c d hc hd]
        exact ih work
      · exact ih work

/-- The faces are what is left of an edge, from their lowest corner. -/
theorem mem_faces_iff {f : Face} :
    f ∈ w.faces ↔ w[(f.a, f.b)]? = some f.c ∧ f.a < f.b ∧ f.a < f.c := by
  rw [faces, List.mem_mergeSort, List.mem_filterMap]
  constructor
  · rintro ⟨⟨e, c⟩, he, hf⟩
    rw [Std.HashMap.mem_toList_iff_getElem?_eq_some] at he
    split at hf
    · next hlowest =>
      cases hf
      exact ⟨he, hlowest⟩
    · cases hf
  · rintro ⟨he, hlowest⟩
    exact ⟨((f.a, f.b), f.c), Std.HashMap.mem_toList_iff_getElem?_eq_some.mpr he, if_pos hlowest⟩

end Wings

/-! ## The triangulation at hand -/

section
variable {β : Type} [Exact α β]
  [Zero β] [Add β] [Sub β] [Mul β] [LT β] [DecidableLT β] [BEq β]

/-- The plan locations and break-lines of an outline. -/
structure PlanOutline (α : Type) where
  /-- The distinct plan locations. -/
  vertices : List (Point2 α)
  /-- The accepted break-lines, by their end vertices. -/
  breaklines : List (Nat × Nat)

/-- The triangulation of outlines, on plan locations only. -/
def outlines : VertexStore α (PlanOutline α) where
  empty := ⟨[], []⟩
  insert o p :=
    match locationFault? p with
    | some fault => .error fault
    | none =>
      match o.vertices.findIdx? (· == p) with
      | some i => .ok ({ o with vertices := o.vertices.set i p }, i)
      | none => .ok ({ o with vertices := o.vertices ++ [p] }, o.vertices.length)
  accepts o i j :=
    let plan := (o.vertices.map fun v => (exactPlan (v.atZ Scalar.nan) : Point2 β)).toArray
    !o.breaklines.any (clash plan (i, j))
  follow o i j := { o with breaklines := o.breaklines ++ [(i, j)] }
  vertices o := o.vertices
  faces o := facesOf (o.vertices.map (·.atZ Scalar.nan)) o.breaklines

/-- A location in range is defined. -/
theorem beq_self_of_locationFault? [LawfulScalar α] {p : Point2 α} (h : locationFault? p = none) :
    (p == p) = true := by
  have hdefined : ∀ c : α, coordinateFault? c = none → (c == c) = true := by
    intro c hc
    refine LawfulScalar.beq_self (Bool.eq_false_iff.mpr fun hnan => ?_)
    rw [coordinateFault?, if_pos hnan] at hc
    cases hc
  rw [locationFault?, Option.or_eq_none_iff] at h
  rw [Point2.beq_eq, hdefined _ h.1, hdefined _ h.2, Bool.and_self]

theorem isLawful_outlines [LawfulScalar α] :
    (outlines : VertexStore α (PlanOutline α)).IsLawful where
  vertices_empty := rfl
  defined := by
    intro o o' p i h
    simp only [outlines] at h
    split at h
    · cases h
    · next hsound => exact beq_self_of_locationFault? hsound
  known := by
    rintro o o' p i h ⟨v, hv, hvp⟩
    simp only [outlines] at h hv ⊢
    split at h
    · cases h
    · next hsound =>
      split at h
      · next i hi =>
        cases h
        obtain ⟨hlt, hsame, -⟩ := List.findIdx?_eq_some_iff_getElem.mp hi
        exact ⟨_, p, List.getElem?_eq_getElem hlt, hsame, beq_self_of_locationFault? hsound, rfl⟩
      · next hnone =>
        rw [List.findIdx?_eq_none_iff.mp hnone v hv] at hvp
        cases hvp
  fresh := by
    intro o o' p i h hfresh
    simp only [outlines] at h hfresh ⊢
    rw [List.findIdx?_eq_none_iff.mpr hfresh] at h
    split at h
    · cases h
    · cases h
      exact ⟨rfl, rfl⟩
  vertices_follow _ := rfl

/-- An outline with its elevations in a table. -/
def tabled (o : Outline α) : Tabled α (PlanOutline α) :=
  ⟨⟨o.vertices.map Point3.plan, o.breaklines⟩, o.vertices.map Point3.z, o.refused⟩

omit [Zero β] [Add β] [Sub β] [Mul β] [LT β] [DecidableLT β] [BEq β] in
theorem exactPlan_vertices (vertices : List (Point3 α)) :
    ((vertices.map Point3.plan).map fun v => (exactPlan (v.atZ Scalar.nan) : Point2 β)) =
      vertices.map fun v => exactPlan v :=
  List.map_map

theorem putElevation_map (vertices : List (Point3 α)) (p : Point3 α) {i : Nat}
    (hi : i < vertices.length) :
    putElevation (vertices.map Point3.z) i p.z = (vertices.set i p).map Point3.z := by
  rw [putElevation, List.length_map, if_pos hi, List.map_set]

theorem putElevation_map_concat (vertices : List (Point3 α)) (p : Point3 α) :
    putElevation (vertices.map Point3.z) vertices.length p.z =
      (vertices ++ [p]).map Point3.z := by
  rw [putElevation, List.length_map, if_neg (Nat.lt_irrefl _), Nat.add_sub_cancel_left,
    List.map_append]
  simp

theorem addPoint_tabled (o : Outline α) (p : Point3 α) :
    (outlines : VertexStore α (PlanOutline α)).addPoint (tabled o) p =
      (o.addPoint p).map fun r => (tabled r.1, r.2) := by
  have hnumber : (o.vertices.map Point3.plan).findIdx? (· == p.plan) = numberOf? o.vertices p :=
    List.findIdx?_map
  simp only [VertexStore.addPoint, outlines, Outline.addPoint, enter?, tabled, hnumber]
  cases locationFault? p.plan with
  | some fault => rfl
  | none =>
    simp only [Except.map, enter]
    cases hi : numberOf? o.vertices p with
    | none => simp only [List.length_map, putElevation_map_concat, List.map_append]; rfl
    | some i =>
      have hlt := (List.findIdx?_eq_some_iff_getElem.mp hi).1
      simp only [putElevation_map o.vertices p hlt, List.map_set]

theorem addBreakline_tabled (o : Outline α) (i j : Nat) :
    (outlines : VertexStore α (PlanOutline α)).addBreakline (tabled o) i j =
      tabled (o.addBreakline i j) := by
  simp only [VertexStore.addBreakline, outlines, Outline.addBreakline, tabled, exactPlan_vertices]
  by_cases hij : i = j
  · simp only [if_pos hij]
  · simp only [if_neg hij]
    cases o.breaklines.any (clash (o.vertices.map fun v => exactPlan v).toArray (i, j)) <;> rfl

theorem addLine_tabled (o : Outline α) (l : Point3 α × Point3 α) :
    (outlines : VertexStore α (PlanOutline α)).addLine (tabled o) l =
      (o.addLine l).map tabled := by
  rw [VertexStore.addLine, Outline.addLine, addPoint_tabled]
  cases o.addPoint l.1 with
  | error e => rfl
  | ok r =>
    simp only [Except.map]
    rw [addPoint_tabled]
    cases r.1.addPoint l.2 with
    | error e => rfl
    | ok r' => simp only [Except.map, addBreakline_tabled]

omit [Scalar α] in
theorem addAll_tabled {ι : Type} {add : Outline α → ι → Except (TriangulationFault α) (Outline α)}
    {add' : Tabled α (PlanOutline α) → ι →
      Except (TriangulationFault α) (Tabled α (PlanOutline α))}
    (hadd : ∀ o i, add' (tabled o) i = (add o i).map tabled) (o : Outline α) (l : List ι) :
    VertexStore.addAll add' (tabled o) l =
      (tabled (Outline.addAll add o l).1, (Outline.addAll add o l).2) := by
  induction l generalizing o with
  | nil => rfl
  | cons i l ih =>
    rw [VertexStore.addAll, Outline.addAll, hadd]
    cases add o i with
    | error e => rfl
    | ok o' => exact ih o'

theorem ofLists_tabled (points : List (Point3 α)) (lines : List (Point3 α × Point3 α)) :
    (outlines : VertexStore α (PlanOutline α)).ofLists points lines =
      (tabled (Outline.ofLists points lines).1, (Outline.ofLists points lines).2) := by
  have hpoint : ∀ (o : Outline α) (p : Point3 α),
      ((outlines : VertexStore α (PlanOutline α)).addPoint (tabled o) p).map (·.1) =
        ((o.addPoint p).map (·.1)).map tabled := by
    intro o p
    rw [addPoint_tabled]
    cases o.addPoint p <;> rfl
  have hstart : (⟨outlines.empty, [], 0⟩ : Tabled α (PlanOutline α)) = tabled Outline.empty := rfl
  rw [VertexStore.ofLists, Outline.ofLists, hstart, addAll_tabled hpoint]
  generalize Outline.addAll _ (Outline.empty : Outline α) points = run
  obtain ⟨o, fault⟩ := run
  cases fault with
  | some e => rfl
  | none => exact addAll_tabled addLine_tabled o lines

theorem points_tabled (o : Outline α) :
    (outlines : VertexStore α (PlanOutline α)).points (tabled o) = o.vertices := by
  refine List.ext_getElem? fun j => ?_
  simp only [VertexStore.points, outlines, tabled, List.getElem?_mapIdx, List.getElem?_map]
  cases o.vertices[j]? <;> rfl

/-- The faces depend on the plan locations of the vertices only. -/
theorem facesOf_tabled (o : Outline α) :
    (outlines : VertexStore α (PlanOutline α)).faces (tabled o).store =
      facesOf o.vertices o.breaklines := by
  simp only [outlines, tabled, facesOf, List.map_map]
  rfl

/-- With the elevations in a table, the same is triangulated. -/
theorem triangulate_outlines (points : List (Point3 α)) (lines : List (Point3 α × Point3 α)) :
    (outlines : VertexStore α (PlanOutline α)).triangulate points lines =
      SiteSection.triangulate points lines := by
  rw [VertexStore.triangulate, SiteSection.triangulate, ofLists_tabled]
  obtain ⟨o, fault⟩ := Outline.ofLists points lines
  cases fault with
  | some e => rfl
  | none =>
    simp only [facesOf_tabled, points_tabled]
    have hcount : (outlines.vertices (tabled o).store).length = o.vertices.length :=
      List.length_map _
    rw [hcount]
    rfl

/-! ## Merged vertices -/

/-- What comes of a triangulation that numbers its vertices in turn. -/
theorem VertexStore.IsLawful.merges_triangulate [PartialEquivBEq α] {σ : Type}
    {S : VertexStore α σ} (hS : S.IsLawful) {points : List (Point3 α)}
    {lines : List (Point3 α × Point3 α)} {m : Mesh α}
    (h : (S.triangulate points lines).result = .ok m) : Merges (visits points lines) m.points := by
  rw [VertexStore.triangulate] at h
  split at h
  · cases h
  · next t hlists =>
    split at h
    · cases h
    · cases h
      exact VertexStore.merges_ofLists hS hlists

/-- What comes of the triangulation at hand. -/
theorem merges_of_triangulate [LawfulScalar α] {points : List (Point3 α)}
    {lines : List (Point3 α × Point3 α)} {m : Mesh α}
    (h : (SiteSection.triangulate points lines).result = .ok m) :
    Merges (visits points lines) m.points := by
  rw [← triangulate_outlines] at h
  exact isLawful_outlines.merges_triangulate h

instance [LawfulScalar α] : LawfulTriangulates α := ⟨merges_of_triangulate⟩

/-- **Merged points.** If points and break-lines can be triangulated, there is one vertex for each
    place among the points and the ends of the lines, in the order in which the places are first
    given and at the elevations that are given for them last, no matter which lines are accepted.
    So it is here, and for any other triangulation that numbers its vertices in turn if the
    elevations are kept in a table beside it. -/
theorem triangulate_merges [LawfulScalar α] (points : List (Point3 α))
    (lines : List (Point3 α × Point3 α)) :
    (∀ m, (SiteSection.triangulate points lines).result = .ok m →
      Merges (visits points lines) m.points) ∧
    ∀ (σ : Type) (S : VertexStore α σ), S.IsLawful →
      ∀ m, (S.triangulate points lines).result = .ok m →
        Merges (visits points lines) m.points :=
  ⟨fun _ h => merges_of_triangulate h, fun _ _ hS _ h => hS.merges_triangulate h⟩

end

/-- Four corners, of which the first is given again with a zero of the other sign. The first line
    is between one place and itself, the second is accepted, the third crosses it and is
    refused. -/
def repeatedCorners : List (Point3 Float) × List (Point3 Float × Point3 Float) :=
  ([⟨0, 0, 1⟩, ⟨0, 4, 2⟩, ⟨4, 0, 3⟩, ⟨4, 4, 4⟩, ⟨-0, 0, 5⟩],
    [(⟨4, 4, 6⟩, ⟨4, 4, 7⟩), (⟨0, 4, 8⟩, ⟨4, 0, 9⟩), (⟨0, 0, 10⟩, ⟨4, 4, Scalar.nan⟩)])

/-- No edge is flipped: the line that is accepted is the only edge between two faces. -/
theorem facesOf_repeatedCorners :
    facesOf ([⟨0, 0, 10⟩, ⟨0, 4, 8⟩, ⟨4, 0, 9⟩, ⟨4, 4, Scalar.nan⟩] : List (Point3 Float))
      [(1, 2)] ≠ [] := by
  set plan := (([⟨0, 0, 10⟩, ⟨0, 4, 8⟩, ⟨4, 0, 9⟩, ⟨4, 4, Scalar.nan⟩] :
    List (Point3 Float)).map fun v => (exactPlan v : Point2 Dyadic)).toArray with hplan
  have hsweep : sweep plan = [⟨1, 0, 2⟩, ⟨1, 2, 3⟩] := by
    rw [hplan, sweep, List.mergeSort_of_pairwise (by decide +kernel)]
    decide +kernel
  have hparts : breaklineParts plan (1, 2) = [(1, 2)] :=
    breaklineParts_eq_singleton rfl rfl (by decide +kernel)
  have hinner : ∀ e ∈ [(⟨1, 0, 2⟩ : Face), ⟨1, 2, 3⟩].flatMap Wings.wingsOf,
      ∀ e' ∈ [(⟨1, 0, 2⟩ : Face), ⟨1, 2, 3⟩].flatMap Wings.wingsOf, e'.1 = (e.1.2, e.1.1) →
        Wings.holdsAt plan ExactPlan.cross 1 2 e.1.1 e.1.2 = false ∧
        (e.1 = (1, 2) ∨ (e.1.2, e.1.1) = (1, 2)) := by
    decide +kernel
  have hwings : ∀ a b c d, (Wings.ofFaces [⟨1, 0, 2⟩, ⟨1, 2, 3⟩])[(a, b)]? = some c →
      (Wings.ofFaces [⟨1, 0, 2⟩, ⟨1, 2, 3⟩])[(b, a)]? = some d →
        Wings.holdsAt plan ExactPlan.cross 1 2 a b = false ∧ ((a, b) = (1, 2) ∨ (b, a) = (1, 2)) :=
    fun a b c d hc hd => hinner _ (Wings.mem_wingsOf_of_getElem? hc) _
      (Wings.mem_wingsOf_of_getElem? hd) rfl
  rw [facesOf, ← hplan, hsweep, List.flatMap_singleton, hparts, List.foldl_cons, List.foldl_nil,
    Wings.force_eq_self fun a b c d hc hd => (hwings a b c d hc hd).1, Wings.legalise_eq_self]
  · have hface : (⟨0, 2, 1⟩ : Face) ∈ (Wings.ofFaces [⟨1, 0, 2⟩, ⟨1, 2, 3⟩]).faces := by
      refine Wings.mem_faces_iff.mpr ⟨?_, by decide, by decide⟩
      simp [Wings.ofFaces, Wings.addFace, Std.HashMap.getElem_insert]
    exact List.ne_nil_of_mem hface
  · intro a b c d hc hd
    rcases (hwings a b c d hc hd).2 with hfixed | hfixed
    · rw [hfixed]
      rfl
    · cases hfixed
      rfl

/-- The corners are triangulated, each with the elevation that was given for it last. -/
theorem triangulate_merges_repeatedCorners : ∃ m : Mesh Float,
    SiteSection.triangulate repeatedCorners.1 repeatedCorners.2 = ⟨1, .ok m⟩ ∧
    m.points = [⟨0, 0, 10⟩, ⟨0, 4, 8⟩, ⟨4, 0, 9⟩, ⟨4, 4, Scalar.nan⟩] ∧
    Merges (visits repeatedCorners.1 repeatedCorners.2) m.points ∧
    (outlines : VertexStore Float (PlanOutline Float)).IsLawful ∧ ∃ m' : Mesh Float,
      outlines.triangulate repeatedCorners.1 repeatedCorners.2 = ⟨1, .ok m'⟩ ∧
      Merges (visits repeatedCorners.1 repeatedCorners.2) m'.points := by
  obtain ⟨hmerges, hany⟩ := triangulate_merges repeatedCorners.1 repeatedCorners.2
  obtain ⟨m, hm, hpoints⟩ : ∃ m : Mesh Float,
      SiteSection.triangulate repeatedCorners.1 repeatedCorners.2 = ⟨1, .ok m⟩ ∧
      m.points = [⟨0, 0, 10⟩, ⟨0, 4, 8⟩, ⟨4, 0, 9⟩, ⟨4, 4, Scalar.nan⟩] := by
    generalize houtline : Outline.ofLists repeatedCorners.1 repeatedCorners.2 = o
    obtain ⟨hvertices, hlines, hrefused, hsound⟩ : o.1.vertices =
        [⟨0, 0, 10⟩, ⟨0, 4, 8⟩, ⟨4, 0, 9⟩, ⟨4, 4, Scalar.nan⟩] ∧ o.1.breaklines = [(1, 2)] ∧
        o.1.refused = 1 ∧ o.2 = none := by
      rw [← houtline]
      decide +kernel
    obtain ⟨⟨vertices, breaklines, refused⟩, fault⟩ := o
    simp only at hvertices hlines hrefused hsound
    subst hvertices hlines hrefused hsound
    rw [SiteSection.triangulate, houtline]
    obtain ⟨face, faces, hfaces⟩ := List.exists_cons_of_ne_nil facesOf_repeatedCorners
    simp only [hfaces]
    exact ⟨_, rfl, rfl⟩
  have htable := (triangulate_outlines repeatedCorners.1 repeatedCorners.2).trans hm
  exact ⟨m, hm, hpoints, hmerges m (congrArg Triangulated.result hm), isLawful_outlines, m,
    htable, hany _ outlines isLawful_outlines m (congrArg Triangulated.result htable)⟩

end Triangulation

end SiteSection
