import SiteSection.Mesh
import SiteSection.BoxIndex
import SiteSection.Segment

/-! # Terrain

  A mesh taken as a surface: the triangles of its faces, filed under their plan boxes. A plan
  location belongs to the triangle in which it lies, borders included up to a small
  barycentric tolerance; its elevation is that of the plane of the triangle.
-/

namespace SiteSection

/-- A mesh whose faces are all triangles, with an index over their plan boxes. -/
structure Terrain (α : Type) where
  /-- The mesh. -/
  mesh : Mesh α
  /-- The triangle of each face. -/
  triangles : List (Triangle α)
  /-- The faces by the plan boxes of their triangles. -/
  index : BoxIndex α Nat

namespace Terrain

variable {α : Type} [Scalar α]

/-- The terrain of a mesh, if all corners of its faces exist. -/
def ofMesh? (m : Mesh α) : Option (Terrain α) := do
  let triangles ← m.triangles?
  return ⟨m, triangles, BoxIndex.ofList (triangles.zipIdx.map fun e => (e.1.box.plan, e.2))⟩

/-- The excess of barycentric weights up to which a location counts as inside a triangle. -/
def locateTolerance : α := Scalar.negPowTen 9

/-- How far a location lies outside triangle `t`, if it counts as inside. -/
def excess? (s : Terrain α) (t : Nat) (p : Point2 α) : Option α := do
  let g ← (← s.triangles[t]?).barycentric? p
  if g.inside ∨ g.excess ≤ locateTolerance then some g.excess else none

/-- Does triangle `t` hold a location? -/
def holds (s : Terrain α) (t : Nat) (p : Point2 α) : Bool := (s.excess? t p).isSome

/-- The triangle that holds a location: the one with the least excess, then the lowest. -/
def locate? (s : Terrain α) (p : Point2 α) : Option Nat :=
  let found := (s.index.queryPoint p).filterMap fun t => (s.excess? t p).map fun e => (e, t)
  (leastBy? (fun a b => (Scalar.totalCmp a.1 b.1).then (compare a.2 b.2)) found).map (·.2)

/-- The elevation of the plane of triangle `t` over a location. -/
def planeZ (s : Terrain α) (t : Nat) (p : Point2 α) : α :=
  match s.triangles[t]? with
  | some tri => tri.plane.elevation p
  | none => Scalar.nan

/-- The elevation at a location, if some triangle holds it. -/
def elevation? (s : Terrain α) (p : Point2 α) : Option α :=
  (s.locate? p).map fun t => s.planeZ t p

/-- The elevation at a location, undefined off the mesh. -/
def elevation (s : Terrain α) (p : Point2 α) : α := (s.elevation? p).getD Scalar.nan

end Terrain

end SiteSection
