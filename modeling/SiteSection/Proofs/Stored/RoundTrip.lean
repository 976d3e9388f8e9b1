import SiteSection.Double
import SiteSection.Proofs.Stored.Forms
import SiteSection.Stored.Site

/-! # Stored sites and sections read back

  A value is storable if its scalars are finite and its numbers in range: sixty-four bits for
  those of buildings, walls and regions, and with a sign for outside names, and thirty-two for
  those of vertices, faces and triangles. The form of each type restores the storable values,
  and reads no others of any tree.

  So a tree may leave out fields, or hold more of them, or hold whole numbers for scalars: what
  it is read as is written to a tree that is read as the same.
-/

namespace SiteSection

/-! ## Storable geometry -/

/-- The corners are of thirty-two bits. -/
def Face.Storable (f : Face) : Prop :=
  f.a < Nat.pow 2 32 ∧ f.b < Nat.pow 2 32 ∧ f.c < Nat.pow 2 32

/-- The neighbours are of thirty-two bits. -/
def Links.Storable (l : Links) : Prop :=
  (∀ i ∈ l.ab, i < Nat.pow 2 32) ∧ (∀ i ∈ l.bc, i < Nat.pow 2 32) ∧ ∀ i ∈ l.ca, i < Nat.pow 2 32

section
variable {α : Type} [Scalar α]

/-- All of some scalars are finite. -/
def Scalar.AllFinite (xs : List α) : Prop := ∀ x ∈ xs, Scalar.isFinite x = true

def Point2.Storable (p : Point2 α) : Prop :=
  Scalar.isFinite p.x = true ∧ Scalar.isFinite p.y = true

def Point3.Storable (p : Point3 α) : Prop :=
  Scalar.isFinite p.x = true ∧ Scalar.isFinite p.y = true ∧ Scalar.isFinite p.z = true

def Box.Storable {P : Type → Type} (storable : P α → Prop) (b : Box P α) : Prop :=
  storable b.origin ∧ storable b.size

def Segment.Storable (s : Segment α) : Prop := s.p0.Storable ∧ s.p1.Storable

def Polygon.Storable (g : Polygon α) : Prop := ∀ p ∈ g.ring, p.Storable

def Mesh.Storable (m : Mesh α) : Prop :=
  (∀ p ∈ m.points, p.Storable) ∧ (∀ f ∈ m.faces, f.Storable) ∧ ∀ l ∈ m.links, l.Storable

/-! ## Storable sites and sections -/

/-- The position and the ground are finite, and so is the absorption, if there is one; the
    owner is of sixty-four bits. -/
structure SectionPoint.Storable (c : SectionPoint α) : Prop where
  position : c.position.Storable
  owner : ∀ i ∈ c.owner, i < Nat.pow 2 64
  ground : Scalar.isFinite c.ground = true
  absorption : ∀ xs ∈ c.absorption, Scalar.AllFinite xs

def Profile.Storable (s : Profile α) : Prop := ∀ c ∈ s.points, c.Storable

/-- What the role holds is finite, and its number of sixty-four bits, or of thirty-two for a
    triangle. -/
def Role.Storable : Role α → Prop
  | .side i xs => i < Nat.pow 2 64 ∧ Scalar.AllFinite xs
  | .freestanding i height xs name =>
    i < Nat.pow 2 64 ∧ Scalar.isFinite height = true ∧ Scalar.AllFinite xs ∧
      -Nat.pow 2 63 ≤ name ∧ name < Nat.pow 2 63
  | .region i => i < Nat.pow 2 64
  | .terrain i => i < Nat.pow 2 32

def Boundary.Storable (b : Boundary α) : Prop :=
  b.p0.Storable ∧ b.p1.Storable ∧ b.role.Storable

/-- The building is finite throughout, and its outside name is of sixty-four bits. -/
structure Building.Storable (b : Building α) : Prop where
  footprint : ∀ p ∈ b.footprint, p.Storable
  plan : b.plan.Storable
  height : Scalar.isFinite b.height = true
  absorption : Scalar.AllFinite b.absorption
  name : -Nat.pow 2 63 ≤ b.name ∧ b.name < Nat.pow 2 63
  groundZ : Scalar.isFinite b.groundZ = true

def GroundRegion.Storable (r : GroundRegion α) : Prop :=
  (∀ g ∈ r.polygons, g.Storable) ∧ Scalar.isFinite r.coefficient = true

/-- All lengths, elevations and coefficients are finite. -/
structure Settings.Storable (s : Settings α) : Prop where
  pieceLength : Scalar.isFinite s.pieceLength = true
  ground : Scalar.isFinite s.ground = true
  cornerOffset : Scalar.isFinite s.cornerOffset = true
  terrainTolerance : Scalar.isFinite s.terrainTolerance = true
  crossingTolerance : Scalar.isFinite s.crossingTolerance = true
  defaultZ : Scalar.isFinite s.defaultZ = true
  buildingGround : ∀ g ∈ s.buildingGround, Scalar.isFinite g = true

end

namespace Form

variable {α : Type}

/-! ## Forms of geometry -/

theorem restores_face : (face : Form α Face).Restores Face.Storable :=
  (restores_below _).triple.map (fun _ => rfl) fun _ => rfl

theorem restores_links : (links : Form α Links).Restores Links.Storable :=
  ((restores_below _).option rfl).triple.map (fun _ => rfl) fun _ => rfl

theorem restores_box {P : Type → Type} {corner : Form α (P α)} {storable : P α → Prop}
    (h : corner.Restores storable) : (box corner).Restores (Box.Storable storable) := by
  have hfields := (Fields.Restores.required "origin" h).and (.required "size" h)
  have hnames : ["origin", "size"].Nodup := by decide
  exact (hfields.record hnames _).map (fun _ => rfl) fun _ => rfl

section
variable [Scalar α]

theorem restores_point2 : (point2 : Form α (Point2 α)).Restores Point2.Storable :=
  restores_scalar.pair.map (fun _ => rfl) fun _ => rfl

theorem restores_point3 : (point3 : Form α (Point3 α)).Restores Point3.Storable :=
  restores_scalar.triple.map (fun _ => rfl) fun _ => rfl

theorem restores_segment : (segment : Form α (Segment α)).Restores Segment.Storable := by
  have hfields := (Fields.Restores.required "p0" (restores_point3 (α := α))).and
    (.required "p1" restores_point3)
  have hnames : ["p0", "p1"].Nodup := by decide
  exact (hfields.record hnames _).map (fun _ => rfl) fun _ => rfl

theorem restores_polygon : (polygon : Form α (Polygon α)).Restores Polygon.Storable :=
  restores_point2.list.map (fun _ => rfl) fun _ => rfl

theorem restores_mesh : (mesh : Form α (Mesh α)).Restores Mesh.Storable := by
  have hfields := (Fields.Restores.required "points" (restores_point3 (α := α)).list).and
    ((Fields.Restores.required "triangles" restores_face.list).and
      (.required "neighbours" restores_links.list))
  have hnames : ["points", "triangles", "neighbours"].Nodup := by decide
  exact (hfields.record hnames _).map (fun _ => rfl) fun _ => rfl

end

/-! ## Forms of sections -/

theorem restores_pointKind : (pointKind : Form α PointKind).Restores fun _ => True :=
  restores_oneOf fun v => by cases v <;> decide

theorem restores_conflictPolicy :
    (conflictPolicy : Form α ConflictPolicy).Restores fun _ => True :=
  restores_oneOf fun v => by cases v <;> decide

section
variable [Scalar α]

theorem restores_scalars : (scalar.list : Form α (List α)).Restores Scalar.AllFinite :=
  restores_scalar.list

theorem restores_sectionPoint :
    (sectionPoint : Form α (SectionPoint α)).Restores SectionPoint.Storable := by
  have hfields := (Fields.Restores.required "coordinate" (restores_point3 (α := α))).and
    ((Fields.Restores.required "kind" restores_pointKind).and
    ((Fields.Restores.optional "id" (restores_below (Nat.pow 2 64)) rfl).and
    ((Fields.Restores.required "ground_coef" restores_scalar).and
    ((Fields.Restores.optional "wall_alpha" restores_scalars rfl).and
      (.required "on_wall_end" restores_bool)))))
  have hnames : ["coordinate", "kind", "id", "ground_coef", "wall_alpha", "on_wall_end"].Nodup := by
    decide
  refine ((hfields.record hnames .complete).map (fun _ => rfl) fun _ => rfl).congr fun c => ?_
  constructor
  · rintro ⟨position, owner, ground, absorption⟩
    exact ⟨position, trivial, owner, ground, absorption, trivial⟩
  · rintro ⟨position, _, owner, ground, absorption, _⟩
    exact ⟨position, owner, ground, absorption⟩

theorem restores_profile : (profile : Form α (Profile α)).Restores Profile.Storable := by
  have hfields := Fields.Restores.required "pts" (restores_sectionPoint (α := α)).list
  have hnames : ["pts"].Nodup := by decide
  exact (hfields.record hnames _).map (fun _ => rfl) fun _ => rfl

/-! ## Forms of boundaries -/

theorem restores_side : (side : Form α (Nat × List α)).Restores
    fun v => v.1 < Nat.pow 2 64 ∧ Scalar.AllFinite v.2 := by
  have hfields := (Fields.Restores.required "building" (restores_below (α := α) (Nat.pow 2 64))).and
    (.required "alphas" restores_scalars)
  have hnames : ["building", "alphas"].Nodup := by decide
  exact hfields.record hnames _

theorem restores_freestanding : (freestanding : Form α (Nat × α × List α × Int)).Restores
    fun v => v.1 < Nat.pow 2 64 ∧ Scalar.isFinite v.2.1 = true ∧ Scalar.AllFinite v.2.2.1 ∧
      -Nat.pow 2 63 ≤ v.2.2.2 ∧ v.2.2.2 < Nat.pow 2 63 := by
  have hfields := (Fields.Restores.required "wall" (restores_below (α := α) (Nat.pow 2 64))).and
    ((Fields.Restores.required "height" restores_scalar).and
    ((Fields.Restores.required "alphas" restores_scalars).and
      (.required "origin_id" restores_signed)))
  have hnames : ["wall", "height", "alphas", "origin_id"].Nodup := by decide
  exact hfields.record hnames _

omit [Scalar α] in
theorem restores_regionBorder : (regionBorder : Form α Nat).Restores (· < Nat.pow 2 64) := by
  have hfields := Fields.Restores.required "region" (restores_below (α := α) (Nat.pow 2 64))
  have hnames : ["region"].Nodup := by decide
  exact hfields.record hnames _

omit [Scalar α] in
theorem restores_terrainEdge : (terrainEdge : Form α Nat).Restores (· < Nat.pow 2 32) := by
  have hfields := Fields.Restores.required "triangle" (restores_below (α := α) (Nat.pow 2 32))
  have hnames : ["triangle"].Nodup := by decide
  exact hfields.record hnames _

/-- The entry that holds a role is under the name of the role, and read by what it holds. -/
theorem restores_role : (role : Form α (Role α)).Restores Role.Storable where
  read?_write
    | .side i xs, h => by
      have hread := restores_side.read?_write (i, xs) h
      simp [role, hread]
    | .freestanding i height xs name, h => by
      have hread := restores_freestanding.read?_write (i, height, xs, name) h
      simp [role, hread]
    | .region i, h => by
      have hread := (restores_regionBorder (α := α)).read?_write i h
      simp [role, hread]
    | .terrain i, h => by
      have hread := (restores_terrainEdge (α := α)).read?_write i h
      simp [role, hread]
  storable_of_read? t r hread := by
    simp only [role] at hread
    split at hread
    · obtain ⟨v, hv, rfl⟩ := Option.map_eq_some_iff.mp hread
      exact restores_side.storable_of_read? _ v hv
    · obtain ⟨v, hv, rfl⟩ := Option.map_eq_some_iff.mp hread
      exact restores_freestanding.storable_of_read? _ v hv
    · obtain ⟨i, hi, rfl⟩ := Option.map_eq_some_iff.mp hread
      exact restores_regionBorder.storable_of_read? _ i hi
    · obtain ⟨i, hi, rfl⟩ := Option.map_eq_some_iff.mp hread
      exact restores_terrainEdge.storable_of_read? _ i hi
    · cases hread

theorem restores_boundary : (boundary : Form α (Boundary α)).Restores Boundary.Storable := by
  have hfields := (Fields.Restores.required "p0" (restores_point3 (α := α))).and
    ((Fields.Restores.required "p1" restores_point3).and
    ((Fields.Restores.required "p0_shared" restores_bool).and
    ((Fields.Restores.required "p1_shared" restores_bool).and
      (.required "kind" restores_role))))
  have hnames : ["p0", "p1", "p0_shared", "p1_shared", "kind"].Nodup := by decide
  refine ((hfields.record hnames .complete).map (fun _ => rfl) fun _ => rfl).congr fun b => ?_
  constructor
  · rintro ⟨p0, p1, role⟩
    exact ⟨p0, p1, trivial, trivial, role⟩
  · rintro ⟨p0, p1, _, _, role⟩
    exact ⟨p0, p1, role⟩

/-! ## Forms of buildings and regions -/

theorem restores_building : (building : Form α (Building α)).Restores Building.Storable := by
  have hfields := (Fields.Restores.required "footprint" (restores_point3 (α := α)).list).and
    ((Fields.Restores.required "plan" restores_polygon).and
    ((Fields.Restores.required "height" restores_scalar).and
    ((Fields.Restores.required "alphas" restores_scalars).and
    ((Fields.Restores.required "origin_id" restores_signed).and
      (.required "ground_z" restores_scalar)))))
  have hnames : ["footprint", "plan", "height", "alphas", "origin_id", "ground_z"].Nodup := by
    decide
  refine ((hfields.record hnames .complete).map (fun _ => rfl) fun _ => rfl).congr fun b => ?_
  constructor
  · rintro ⟨footprint, plan, height, absorption, name, groundZ⟩
    exact ⟨footprint, plan, height, absorption, name, groundZ⟩
  · rintro ⟨footprint, plan, height, absorption, name, groundZ⟩
    exact ⟨footprint, plan, height, absorption, name, groundZ⟩

theorem restores_groundRegion :
    (groundRegion : Form α (GroundRegion α)).Restores GroundRegion.Storable := by
  have hfields := (Fields.Restores.required "polygons" (restores_polygon (α := α)).list).and
    (.required "coefficient" restores_scalar)
  have hnames : ["polygons", "coefficient"].Nodup := by decide
  exact (hfields.record hnames _).map (fun _ => rfl) fun _ => rfl

/-! ## Forms of settings -/

/-- Settings are restored if those that apply where nothing else is said are storable. -/
theorem restores_settings (hdefault : (Settings.default : Settings α).Storable) :
    (settings : Form α (Settings α)).Restores Settings.Storable := by
  let d : Settings α := .default
  have hfields :=
    (Fields.Restores.withDefault "max_line_length" restores_scalar d.pieceLength
      hdefault.pieceLength).and
    ((Fields.Restores.withDefault "ground_coefficient" restores_scalar d.ground
      hdefault.ground).and
    ((Fields.Restores.withDefault "wide_angle_epsilon" restores_scalar d.cornerOffset
      hdefault.cornerOffset).and
    ((Fields.Restores.withDefault "topography_tolerance" restores_scalar d.terrainTolerance
      hdefault.terrainTolerance).and
    ((Fields.Restores.withDefault "triangle_intersection_epsilon" restores_scalar
      d.crossingTolerance hdefault.crossingTolerance).and
    ((Fields.Restores.withDefault "default_topography_z" restores_scalar d.defaultZ
      hdefault.defaultZ).and
    ((Fields.Restores.withDefault "absolute_building_z" restores_bool d.absoluteRoofs
      trivial).and
    ((Fields.Restores.withDefault "building_ground_coefficient" (restores_scalar.option rfl)
      d.buildingGround hdefault.buildingGround).and
      (.withDefault "duplicate_ground_policy" restores_conflictPolicy d.policy trivial))))))))
  have hnames : ["max_line_length", "ground_coefficient", "wide_angle_epsilon",
      "topography_tolerance", "triangle_intersection_epsilon", "default_topography_z",
      "absolute_building_z", "building_ground_coefficient", "duplicate_ground_policy"].Nodup := by
    decide
  refine ((hfields.record hnames .leading).map (fun _ => rfl) fun _ => rfl).congr fun s => ?_
  constructor
  · rintro ⟨l, g, o, t, x, z, b⟩
    exact ⟨l, g, o, t, x, z, trivial, b, trivial⟩
  · rintro ⟨l, g, o, t, x, z, _, b, _⟩
    exact ⟨l, g, o, t, x, z, b⟩

end

/-! ## Doubles -/

theorem storable_default : (Settings.default : Settings Float).Storable where
  pieceLength := by decide +kernel
  ground := by decide +kernel
  cornerOffset := by decide +kernel
  terrainTolerance := by decide +kernel
  crossingTolerance := by decide +kernel
  defaultZ := by decide +kernel
  buildingGround := by simp [Settings.default]

/-- **What is stored reads back.** A section point, a profile, a building, a wall or any boundary, a
    ground region, a polygon, a mesh, a segment, a box of the plan or of space, settings, and each
    kind, role and policy, is read back just as it was from the tree that it is written as, if its
    scalars are finite and its numbers in range. And whatever one of these is read of, be it with
    fields that are absent, fields that are unknown, or whole numbers for scalars, is such a value,
    and reads back. -/
theorem stored_round_trips :
    (sectionPoint : Form Float _).RoundTrips SectionPoint.Storable ∧
    (profile : Form Float _).RoundTrips Profile.Storable ∧
    (pointKind : Form Float _).RoundTrips (fun _ => True) ∧
    (building : Form Float _).RoundTrips Building.Storable ∧
    (boundary : Form Float _).RoundTrips Boundary.Storable ∧
    (role : Form Float _).RoundTrips Role.Storable ∧
    (groundRegion : Form Float _).RoundTrips GroundRegion.Storable ∧
    (polygon : Form Float _).RoundTrips Polygon.Storable ∧
    (mesh : Form Float _).RoundTrips Mesh.Storable ∧
    (segment : Form Float _).RoundTrips Segment.Storable ∧
    (box2 : Form Float _).RoundTrips (Box.Storable Point2.Storable) ∧
    (box3 : Form Float _).RoundTrips (Box.Storable Point3.Storable) ∧
    (settings : Form Float _).RoundTrips Settings.Storable ∧
    (conflictPolicy : Form Float _).RoundTrips (fun _ => True) :=
  ⟨restores_sectionPoint.roundTrips, restores_profile.roundTrips, restores_pointKind.roundTrips,
    restores_building.roundTrips, restores_boundary.roundTrips, restores_role.roundTrips,
    restores_groundRegion.roundTrips, restores_polygon.roundTrips, restores_mesh.roundTrips,
    restores_segment.roundTrips, (restores_box restores_point2).roundTrips,
    (restores_box restores_point3).roundTrips, (restores_settings storable_default).roundTrips,
    restores_conflictPolicy.roundTrips⟩

/-- A record without any field that is known is read as the settings that apply where nothing else
    is said. -/
example : (settings : Form Float _).read? (.record [("unknown", .null)]) = some .default := rfl

end Form

end SiteSection
