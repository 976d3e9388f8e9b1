import SiteSection.Proofs.Site.Sealed

/-! # What additions do not read

  An addition reads two of the settings: the ground of buildings, and the elevation of points
  that are given without one. So with settings that agree on these two, the same additions give
  drafts that differ in nothing else.

  No addition reads the topography. So if topographic points and break-lines are left out, the
  rest of the draft is the same.
-/

namespace SiteSection

/-- The settings agree on all that additions read. -/
structure Settings.AddAlike {α : Type} (t t' : Settings α) : Prop where
  /-- Buildings are ground alike. -/
  buildingGround : t'.buildingGround = t.buildingGround
  /-- Points without an elevation are given the same one. -/
  defaultZ : t'.defaultZ = t.defaultZ

namespace Draft

section
variable {α : Type}

/-- Does the call add to the topography? -/
def Call.isTopographic : Call α → Bool
  | .point .. | .line .. => true
  | _ => false

/-- The draft with its settings and its topography changed. -/
def reframe (f : Settings α → Settings α) (g : List (Point3 α) → List (Point3 α))
    (h : List (Point3 α × Point3 α) → List (Point3 α × Point3 α)) (d : Draft α) : Draft α :=
  { d with settings := f d.settings, points := g d.points, lines := h d.lines }

/-- The draft with other settings. -/
def withSettings (d : Draft α) (t : Settings α) : Draft α := { d with settings := t }

/-- The draft without its topographic points and break-lines. -/
def withoutTopography (d : Draft α) : Draft α := { d with points := [], lines := [] }

end

variable {α : Type} [Scalar α] {d : Draft α}

/-- An addition leaves the settings as they are. -/
theorem settings_after (d : Draft α) (c : Call α) : (d.after c).settings = d.settings := by
  rw [after]
  split
  · next e he =>
    obtain ⟨d', i⟩ := e
    cases Call.adds_of_outcome he <;> rfl
  · rfl

theorem settings_afterAll (d : Draft α) (calls : List (Call α)) :
    (d.afterAll calls).settings = d.settings := by
  induction calls generalizing d with
  | nil => rfl
  | cons c calls ih => exact (ih (d.after c)).trans (d.settings_after c)

/-- An addition of something else reads of the settings the ground of buildings, and of the
    topography nothing. -/
theorem after_reframe {f : Settings α → Settings α} (g : List (Point3 α) → List (Point3 α))
    (h : List (Point3 α × Point3 α) → List (Point3 α × Point3 α))
    (hground : (f d.settings).buildingGround = d.settings.buildingGround) {c : Call α}
    (hc : c.isTopographic = false) : (d.reframe f g h).after c = (d.after c).reframe f g h := by
  cases c with
  | region polygons coefficient =>
    simp only [after, Call.outcome, addRegion]
    cases GroundRegion.ofPolygons? polygons coefficient <;> rfl
  | rectangle a b coefficient =>
    simp only [after, Call.outcome, addRectangle, addRegion]
    cases Polygon.rectangle? (Coordinates.least a b) (Coordinates.greatest a b) with
    | error e => rfl
    | ok p =>
      dsimp only
      cases GroundRegion.ofPolygons? [p] coefficient <;> rfl
  | building footprint height absorption name =>
    have hground' : (d.reframe f g h).settings.buildingGround = d.settings.buildingGround :=
      hground
    simp only [after, Call.outcome, addBuilding, addRegion, hground']
    cases Building.ofFootprint? footprint height absorption name with
    | error e => rfl
    | ok b =>
      cases d.settings.buildingGround with
      | none => rfl
      | some coefficient =>
        dsimp only
        cases GroundRegion.ofPolygons? [b.plan] coefficient <;> rfl
  | wall polyline height absorption name =>
    simp only [after, Call.outcome, addWall]
    cases wallFault? polyline height <;> rfl
  | point | line => cases hc

/-! ## Other settings -/

/-- Additions to the topography read of the settings the elevation that is given to points. -/
theorem after_withSettings {t : Settings α} (halike : d.settings.AddAlike t) (c : Call α) :
    (d.withSettings t).after c = (d.after c).withSettings t := by
  have hz : (d.withSettings t).settings.defaultZ = d.settings.defaultZ := halike.defaultZ
  have htopographic : ∀ p, (d.withSettings t).topographic p = d.topographic p := fun p => by
    rw [topographic, topographic, hz]
  cases c with
  | point p =>
    simp only [after, Call.outcome, addPoint, htopographic]
    cases d.topographic p <;> rfl
  | line a b =>
    simp only [after, Call.outcome, addLine, htopographic]
    cases d.topographic a with
    | error r => rfl
    | ok a' =>
      dsimp only
      cases d.topographic b <;> rfl
  | region | rectangle | building | wall =>
    exact after_reframe (f := fun _ => t) id id halike.buildingGround rfl

/-- The same additions give the same draft, but for the settings. -/
theorem afterAll_withSettings {t : Settings α} (halike : d.settings.AddAlike t)
    (calls : List (Call α)) :
    (d.withSettings t).afterAll calls = (d.afterAll calls).withSettings t := by
  induction calls generalizing d with
  | nil => rfl
  | cons c calls ih =>
    have hstep : (d.withSettings t).afterAll (c :: calls) =
        ((d.withSettings t).after c).afterAll calls := rfl
    rw [hstep, after_withSettings halike, ih ((d.settings_after c).symm ▸ halike)]
    rfl

/-! ## No topography -/

/-- Additions to the topography add nothing else. -/
theorem withoutTopography_after {c : Call α} (hc : c.isTopographic = true) :
    (d.after c).withoutTopography = d.withoutTopography := by
  rw [after]
  split
  · next e he =>
    obtain ⟨d', i⟩ := e
    cases Call.adds_of_outcome he with
    | point | line => rfl
    | region | rectangle | building | buildingOnGround | wall => cases hc
  · rfl

/-- If the calls that add to the topography are left out, the draft is the same but for its
    topography, which is as it was in the beginning. -/
theorem afterAll_filter_topographic (d : Draft α) (calls : List (Call α)) :
    d.withoutTopography.afterAll (calls.filter fun c => !c.isTopographic) =
      (d.afterAll calls).withoutTopography := by
  induction calls generalizing d with
  | nil => rfl
  | cons c calls ih =>
    have hstep : d.afterAll (c :: calls) = (d.after c).afterAll calls := rfl
    rw [hstep, ← ih (d.after c), List.filter_cons]
    cases hc : c.isTopographic with
    | true => simp [withoutTopography_after hc]
    | false =>
      have hafter : d.withoutTopography.after c = (d.after c).withoutTopography :=
        after_reframe (f := id) (fun _ => []) (fun _ => []) rfl hc
      rw [← hafter]
      rfl

end Draft

end SiteSection
