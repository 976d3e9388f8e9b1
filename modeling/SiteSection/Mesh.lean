import SiteSection.Triangle

/-! # Triangle meshes

  A mesh is a list of points and a list of faces that name their corners by index, with a
  table of links: which face lies across each side of each face. Two faces are linked where
  they use the same two points. If more than two sides use the same two points they are
  paired in order, the first with the second, the third with the fourth.

  Faces may name points that do not exist; what would need such a point is `none`.
-/

namespace SiteSection

/-- A face of a mesh, by the indices of its corners. -/
structure Face where
  /-- The first corner. -/
  a : Nat
  /-- The second corner. -/
  b : Nat
  /-- The third corner. -/
  c : Nat
  deriving DecidableEq, Repr, Inhabited

namespace Face

/-- The sides, from each corner to the next. -/
def sides (f : Face) : List (Nat × Nat) := [(f.a, f.b), (f.b, f.c), (f.c, f.a)]

@[simp] theorem length_sides (f : Face) : f.sides.length = 3 := rfl

end Face

/-- The faces across the three sides of a face, `none` on the border of the mesh. -/
structure Links where
  /-- Across the side from the first corner to the second. -/
  ab : Option Nat
  /-- Across the side from the second corner to the third. -/
  bc : Option Nat
  /-- Across the side from the third corner to the first. -/
  ca : Option Nat
  deriving DecidableEq, Repr, Inhabited

namespace Links

/-- No neighbours. -/
def none : Links := ⟨.none, .none, .none⟩

/-- The neighbours in the order of the sides. -/
def toList (l : Links) : List (Option Nat) := [l.ab, l.bc, l.ca]

@[simp] theorem length_toList (l : Links) : l.toList.length = 3 := rfl

end Links

/-! ## Matching sides -/

namespace Side

/-- The two points of a side, the lower first. -/
def key (e : Nat × Nat) : Nat × Nat := if e.1 ≤ e.2 then e else (e.2, e.1)

/-- The keys of all sides; side `s` of face `t` stands at position `3 * t + s`. -/
def keys (faces : List Face) : List (Nat × Nat) := faces.flatMap fun f => f.sides.map key

/-- The positions at which a key stands. -/
def uses (keys : List (Nat × Nat)) (e : Nat × Nat) : List Nat :=
  (keys.zipIdx.filter fun u => u.1 == e).map (·.2)

/-- The position paired with position `k`: the uses of a key are paired two by two, in order,
    so a use of odd rank goes with the one before it and one of even rank with the next. -/
def partner? (keys : List (Nat × Nat)) (k : Nat) : Option Nat := do
  let e ← keys[k]?
  let us := uses keys e
  us[us.idxOf k ^^^ 1]?

end Side

/-- The links of a list of faces. -/
def linksOf (faces : List Face) : List Links :=
  let keys := Side.keys faces
  let across := fun (t s : Nat) => (Side.partner? keys (3 * t + s)).map (· / 3)
  (List.range faces.length).map fun t => ⟨across t 0, across t 1, across t 2⟩

@[simp] theorem length_linksOf (faces : List Face) : (linksOf faces).length = faces.length := by
  simp [linksOf]

/-! ## Meshes -/

/-- A triangle mesh with neighbour links. -/
structure Mesh (α : Type) where
  /-- The points. -/
  points : List (Point3 α)
  /-- The faces. -/
  faces : List Face
  /-- The links of each face. -/
  links : List Links
  deriving DecidableEq, Repr, Inhabited

namespace Mesh

variable {α : Type}

/-- The mesh of some points and faces, with its links resolved. -/
def ofFaces (points : List (Point3 α)) (faces : List Face) : Mesh α :=
  ⟨points, faces, linksOf faces⟩

@[simp] theorem points_ofFaces (ps : List (Point3 α)) (fs : List Face) :
    (ofFaces ps fs).points = ps := rfl

@[simp] theorem faces_ofFaces (ps : List (Point3 α)) (fs : List Face) :
    (ofFaces ps fs).faces = fs := rfl

/-- The triangle of a face, if its corners exist. -/
def corners? (m : Mesh α) (f : Face) : Option (Triangle α) := do
  return ⟨← m.points[f.a]?, ← m.points[f.b]?, ← m.points[f.c]?⟩

/-- The triangle of face `t`, if the face and its corners exist. -/
def triangle? (m : Mesh α) (t : Nat) : Option (Triangle α) := do
  m.corners? (← m.faces[t]?)

/-- All triangles, if all corners exist. -/
def triangles? (m : Mesh α) : Option (List (Triangle α)) := m.faces.mapM m.corners?

/-- The links of face `t`; a face that does not exist has no neighbours. -/
def linksAt (m : Mesh α) (t : Nat) : Links := (m.links[t]?).getD .none

/-- Each undirected edge once, with the lowest face that uses it: a face lists the sides that
    have no neighbour or one of a higher number. -/
def edges? (m : Mesh α) : Option (List (Point3 α × Point3 α × Nat)) := do
  let triangles ← m.triangles?
  return triangles.zipIdx.flatMap fun (tri, t) =>
    ((tri.sides.zip (m.linksAt t).toList).filter fun (_, n) => n.all (t < ·)).map
      fun ((p, q), _) => (p, q, t)

variable [Scalar α]

/-- The box around all points. -/
def box (m : Mesh α) : Box3 α := Box.ofPoints m.points

/-- Is a plan location in the box of the mesh and in some triangle, borders included? The
    triangles are tried in order up to the first that holds it. -/
def covers? (m : Mesh α) (p : Point2 α) : Option Bool :=
  if m.box.plan.contains p then go m.faces else some false
where
  /-- Does some triangle of these faces hold the location? -/
  go : List Face → Option Bool
    | [] => some false
    | f :: fs => do
      let tri ← m.corners? f
      if (tri.barycentric? p).any (·.inside) then some true else go fs

end Mesh

end SiteSection
