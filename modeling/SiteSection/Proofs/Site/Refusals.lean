import SiteSection.Double
import SiteSection.Proofs.Site.Sealed

/-! # Refused additions

  An addition can be carried out in place, on a draft that changes with every entity that is
  pushed onto it. Then a fault ends the addition where it is found, and nothing takes back
  what was pushed by then. Nothing has to: all faults are found before anything is pushed,
  also where a building brings its region along or a wall its segments one by one.

  So a refused addition is as good as none. The others get the same numbers without it, a
  number is the place of what was added, and it stays its place.
-/

namespace SiteSection

namespace Draft

variable {α : Type}

/-! ## Additions in place -/

/-- A step on a draft that is changed in place. A fault ends it where it is found. -/
abbrev InPlace (α β : Type) := ExceptT (Rejection α) (StateM (Draft α)) β

/-- Changes the draft, and returns the last place of one of its lists. -/
def push (change : Draft α → Draft α) (count : Draft α → Nat) : InPlace α Nat := do
  modify change
  return count (← get) - 1

/-- Pushes one segment of a wall with a number of segments, numbered by its place. -/
def pushSegment (count : Nat) (height : α) (absorption : List α) (name : Int)
    (leg : (Point3 α × Point3 α) × Nat) : InPlace α Unit := do
  let number := (← get).walls.length
  modify fun d => { d with walls := d.walls ++
    [⟨leg.1.1, leg.1.2, leg.2 != 0, leg.2 + 1 != count,
      .freestanding number height absorption name⟩] }

section
variable [Scalar α]

/-- Pushes a region. -/
def pushRegion (polygons : List (Polygon α)) (coefficient : α) : InPlace α Nat := do
  match GroundRegion.ofPolygons? polygons coefficient with
  | .error f => throw ⟨f, .regionRejected f⟩
  | .ok r => push (fun d => { d with regions := d.regions ++ [r] }) (·.regions.length)

/-- Pushes an axis-parallel region. -/
def pushRectangle (a b : Point2 α) (coefficient : α) : InPlace α Nat := do
  match Polygon.rectangle? (Coordinates.least a b) (Coordinates.greatest a b) with
  | .error f => throw ⟨f, .rectangleRejected f⟩
  | .ok p => pushRegion [p] coefficient

/-- Pushes the plan of a building as a region, where buildings are ground. -/
def pushPlan (b : Building α) : InPlace α Unit := do
  match (← get).settings.buildingGround with
  | none => return
  | some coefficient => let _ ← pushRegion [b.plan] coefficient

/-- Pushes a building, after its region. -/
def pushBuilding (footprint : List (Point3 α)) (height : α) (absorption : List α) (name : Int) :
    InPlace α Nat := do
  match Building.ofFootprint? footprint height absorption name with
  | .error f => throw ⟨f, .buildingRejected name f⟩
  | .ok b =>
    pushPlan b
    push (fun d => { d with buildings := d.buildings ++ [b] }) (·.buildings.length)

/-- Pushes a wall, one segment after the other. -/
def pushWall (polyline : List (Point3 α)) (height : α) (absorption : List α) (name : Int) :
    InPlace α Nat := do
  match wallFault? polyline height with
  | some f => throw ⟨f, .wallRejected name f⟩
  | none =>
    let first := (← get).walls.length
    let legs := pathEdges polyline
    forM legs.zipIdx (pushSegment legs.length height absorption name)
    return first

/-- A topographic point as it is kept. -/
def settlePoint (p : Point3 α) : InPlace α (Point3 α) := do
  match (← get).topographic p with
  | .error r => throw r
  | .ok q => return q

/-- Pushes an elevation point. -/
def pushPoint (p : Point3 α) : InPlace α Nat := do
  let q ← settlePoint p
  push (fun d => { d with points := d.points ++ [q] }) (·.points.length)

/-- Pushes a break-line. -/
def pushLine (a b : Point3 α) : InPlace α Nat := do
  let a' ← settlePoint a
  let b' ← settlePoint b
  push (fun d => { d with lines := d.lines ++ [(a', b')] }) (·.lines.length)

/-- The addition carried out in place. -/
def Call.perform : Call α → InPlace α Nat
  | .region polygons coefficient => pushRegion polygons coefficient
  | .rectangle a b coefficient => pushRectangle a b coefficient
  | .building footprint height absorption name => pushBuilding footprint height absorption name
  | .wall polyline height absorption name => pushWall polyline height absorption name
  | .point p => pushPoint p
  | .line a b => pushLine a b

/-- The additions carried out in place, one after the other, with what they return. -/
def performAll (calls : List (Call α)) : StateM (Draft α) (List (Except (Rejection α) Nat)) :=
  calls.mapM fun c => c.perform.run

/-- What the addition returns: a number, or why it is refused. -/
def Call.answer (c : Call α) (d : Draft α) : Except (Rejection α) Nat :=
  (c.outcome d).map Prod.snd

end

/-! ## In place and not -/

/-- Where a step ends in a fault, what was to follow is not done. -/
theorem InPlace.run_bind {β γ : Type} (x : InPlace α β) (f : β → InPlace α γ) (d : Draft α) :
    (x >>= f).run.run d = match x.run.run d with
      | (.ok b, e) => (f b).run.run e
      | (.error r, e) => (.error r, e) := by
  show ExceptT.bindCont f (x.run.run d).1 (x.run.run d).2 = _
  rcases x.run.run d with ⟨y, e⟩
  cases y <;> rfl

theorem InPlace.run_get_bind {β : Type} (f : Draft α → InPlace α β) (d : Draft α) :
    (get >>= f).run.run d = (f d).run.run d := rfl

theorem run_push (change : Draft α → Draft α) (count : Draft α → Nat) (d : Draft α) :
    (push change count).run.run d = (.ok (count (change d) - 1), change d) := rfl

/-- Segment after segment is numbered by its place, so a wall that is pushed has consecutive
    numbers. -/
theorem run_pushSegments (count : Nat) (height : α) (absorption : List α) (name : Int)
    (legs : List (Point3 α × Point3 α)) {first k : Nat} (d : Draft α)
    (hfirst : d.walls.length = first + k) :
    (forM (legs.zipIdx k) (pushSegment count height absorption name)).run.run d =
      (.ok (), { d with walls := d.walls ++ (legs.zipIdx k).map fun (e, i) =>
        ⟨e.1, e.2, i != 0, i + 1 != count,
          .freestanding (first + i) height absorption name⟩ }) := by
  -- The number of walls goes along with the index of the leg.
  induction legs generalizing d k with
  | nil =>
    show (Except.ok (), d) = _
    simp
  | cons leg legs ih =>
    have hpush : (pushSegment count height absorption name (leg, k)).run.run d =
        (.ok (), { d with walls := d.walls ++ [⟨leg.1, leg.2, k != 0, k + 1 != count,
          .freestanding (first + k) height absorption name⟩] }) := by
      rw [← hfirst]
      rfl
    rw [List.zipIdx_cons, List.map_cons, List.append_cons, List.forM_cons, InPlace.run_bind, hpush]
    apply ih
    simp only [List.length_append, List.length_singleton]
    omega

section
variable [Scalar α] (d : Draft α)

theorem run_pushRegion (polygons : List (Polygon α)) (coefficient : α) :
    (pushRegion polygons coefficient).run.run d =
      ((Call.region polygons coefficient).answer d, d.after (.region polygons coefficient)) := by
  simp only [pushRegion, Call.answer, after, Call.outcome, addRegion]
  cases GroundRegion.ofPolygons? polygons coefficient with
  | error f => rfl
  | ok r =>
    rw [run_push, List.length_append]
    rfl

theorem run_pushPlan (b : Building α) :
    (pushPlan b).run.run d = match d.settings.buildingGround with
      | none => (.ok (), d)
      | some coefficient =>
        (((Call.region [b.plan] coefficient).answer d).map fun _ => (),
          d.after (.region [b.plan] coefficient)) := by
  rw [pushPlan, InPlace.run_get_bind]
  cases d.settings.buildingGround with
  | none => rfl
  | some coefficient =>
    dsimp only
    rw [InPlace.run_bind, run_pushRegion]
    cases (Call.region [b.plan] coefficient).answer d <;> rfl

theorem run_settlePoint (p : Point3 α) :
    (settlePoint p).run.run d = (d.topographic p, d) := by
  rw [settlePoint, InPlace.run_get_bind]
  cases d.topographic p <;> rfl

/-- In place an addition returns the same, and leaves the draft as it is if it is refused. -/
theorem Call.run_perform (c : Call α) : c.perform.run.run d = (c.answer d, d.after c) := by
  cases c with
  | region polygons coefficient => exact run_pushRegion d polygons coefficient
  | rectangle a b coefficient =>
    simp only [perform, pushRectangle, answer, after, outcome, addRectangle]
    cases Polygon.rectangle? (Coordinates.least a b) (Coordinates.greatest a b) with
    | error f => rfl
    | ok p => exact run_pushRegion d [p] coefficient
  | building footprint height absorption name =>
    simp only [perform, pushBuilding, answer, after, outcome, addBuilding]
    cases Building.ofFootprint? footprint height absorption name with
    | error f => rfl
    | ok b =>
      dsimp only
      rw [InPlace.run_bind, run_pushPlan]
      cases hground : d.settings.buildingGround with
      | none =>
        dsimp only
        rw [run_push, List.length_append]
        rfl
      | some coefficient =>
        simp only [answer, after, outcome, addRegion]
        cases GroundRegion.ofPolygons? [b.plan] coefficient with
        | error f => rfl
        | ok r =>
          simp only [Except.map]
          rw [run_push, List.length_append]
          rfl
  | wall polyline height absorption name =>
    simp only [perform, pushWall, answer, after, outcome, addWall]
    cases wallFault? polyline height with
    | some f => rfl
    | none =>
      have hpush := run_pushSegments (pathEdges polyline).length height absorption name
        (pathEdges polyline) d (k := 0) rfl
      dsimp only
      rw [InPlace.run_get_bind, InPlace.run_bind, hpush]
      rfl
  | point p =>
    rw [perform, pushPoint, InPlace.run_bind, run_settlePoint, answer, after, outcome, addPoint]
    cases d.topographic p with
    | error r => rfl
    | ok q =>
      dsimp only
      rw [run_push, List.length_append]
      rfl
  | line a b =>
    rw [perform, pushLine, InPlace.run_bind, run_settlePoint, answer, after, outcome, addLine]
    cases d.topographic a with
    | error r => rfl
    | ok a' =>
      dsimp only
      rw [InPlace.run_bind, run_settlePoint]
      cases d.topographic b with
      | error r => rfl
      | ok b' =>
        dsimp only
        rw [run_push, List.length_append]
        rfl

end

/-! ## What is left behind -/

/-- What there is in a draft is in the other, in its place. -/
structure Extends (d d' : Draft α) : Prop where
  /-- The settings are the same. -/
  settings_eq : d'.settings = d.settings
  /-- The buildings come first. -/
  buildings : d.buildings <+: d'.buildings
  /-- The walls come first. -/
  walls : d.walls <+: d'.walls
  /-- The regions come first. -/
  regions : d.regions <+: d'.regions
  /-- The points come first. -/
  points : d.points <+: d'.points
  /-- The break-lines come first. -/
  lines : d.lines <+: d'.lines

theorem Extends.refl (d : Draft α) : d.Extends d :=
  ⟨rfl, List.prefix_rfl, List.prefix_rfl, List.prefix_rfl, List.prefix_rfl, List.prefix_rfl⟩

theorem Extends.trans {d d' d'' : Draft α} (h : d.Extends d') (h' : d'.Extends d'') :
    d.Extends d'' where
  settings_eq := h'.settings_eq.trans h.settings_eq
  buildings := h.buildings.trans h'.buildings
  walls := h.walls.trans h'.walls
  regions := h.regions.trans h'.regions
  points := h.points.trans h'.points
  lines := h.lines.trans h'.lines

section
variable [Scalar α]

/-- What an addition leaves behind: what it adds and the number of that, or, where there is
    nothing that it could add, the draft as it was. -/
inductive Call.Leaves (c : Call α) (d : Draft α) : Draft α → Except (Rejection α) Nat → Prop where
  | added {d' : Draft α} {i : Nat} (h : c.Adds d d' i) : Leaves c d d' (.ok i)
  | refused {r : Rejection α} (h : ∀ d' i, ¬ c.Adds d d' i) : Leaves c d d (.error r)

variable {c : Call α} {d d' : Draft α}

theorem Call.Adds.extends {i : Nat} (h : c.Adds d d' i) : d.Extends d' := by
  cases h with
  | region | rectangle => exact { Extends.refl d with regions := List.prefix_append .. }
  | building => exact { Extends.refl d with buildings := List.prefix_append .. }
  | buildingOnGround =>
    exact { Extends.refl d with
      buildings := List.prefix_append ..
      regions := List.prefix_append .. }
  | wall => exact { Extends.refl d with walls := List.prefix_append .. }
  | point => exact { Extends.refl d with points := List.prefix_append .. }
  | line => exact { Extends.refl d with lines := List.prefix_append .. }

theorem Call.Leaves.extends {a : Except (Rejection α) Nat} (h : c.Leaves d d' a) :
    d.Extends d' := by
  cases h with
  | added h => exact h.extends
  | refused => exact .refl d

variable (c d)

theorem Call.after_of_refused {c : Call α} {d : Draft α} {r : Rejection α}
    (h : c.answer d = .error r) : d.after c = d := by
  rw [answer] at h
  rw [after]
  cases hc : c.outcome d with
  | ok e =>
    rw [hc] at h
    cases h
  | error r => rfl

theorem Call.leaves_after : c.Leaves d (d.after c) (c.answer d) := by
  rw [after, answer]
  cases h : c.outcome d with
  | ok e => exact .added (adds_of_outcome h)
  | error r =>
    refine .refused fun d' i hadds => ?_
    rw [outcome_of_adds hadds] at h
    cases h

/-! ## Runs of additions -/

/-- What the additions return, one after the other. -/
def answers (d : Draft α) : List (Call α) → List (Except (Rejection α) Nat)
  | [] => []
  | c :: calls => c.answer d :: (d.after c).answers calls

/-- The additions without those that are refused. -/
def accepted (d : Draft α) (calls : List (Call α)) : List (Call α) :=
  ((calls.zip (d.answers calls)).filter fun e => e.2.isOk).map Prod.fst

variable (calls : List (Call α))

theorem run_performAll : (performAll calls).run d = (d.answers calls, d.afterAll calls) := by
  induction calls generalizing d with
  | nil => rfl
  | cons c calls ih =>
    have hfirst : (performAll (c :: calls)).run d =
        (performAll calls >>= fun rest => pure (c.answer d :: rest)).run (d.after c) := by
      rw [performAll, List.mapM_cons, StateT.run_bind, Call.run_perform]
      rfl
    rw [hfirst, StateT.run_bind, ih]
    rfl

theorem afterAll_append (calls' : List (Call α)) :
    d.afterAll (calls ++ calls') = (d.afterAll calls).afterAll calls' :=
  List.foldl_append

theorem answers_append (calls' : List (Call α)) :
    d.answers (calls ++ calls') = d.answers calls ++ (d.afterAll calls).answers calls' := by
  induction calls generalizing d with
  | nil => rfl
  | cons c calls ih => exact congrArg (c.answer d :: ·) (ih (d.after c))

theorem length_answers : (d.answers calls).length = calls.length := by
  induction calls generalizing d with
  | nil => rfl
  | cons c calls ih => exact congrArg (· + 1) (ih (d.after c))

theorem extends_afterAll : d.Extends (d.afterAll calls) := by
  induction calls generalizing d with
  | nil => exact .refl d
  | cons c calls ih => exact (Call.leaves_after c d).extends.trans (ih (d.after c))

/-- A run without the refused additions is a run like the whole. -/
theorem run_accepted :
    d.afterAll (d.accepted calls) = d.afterAll calls ∧
      d.answers (d.accepted calls) = (d.answers calls).filter Except.isOk := by
  induction calls generalizing d with
  | nil => exact ⟨rfl, rfl⟩
  | cons c calls ih =>
    obtain ⟨hdraft, hanswers⟩ := ih (d.after c)
    cases hc : c.answer d with
    | ok i =>
      have haccepted : d.accepted (c :: calls) = c :: (d.after c).accepted calls := by
        simp [accepted, answers, hc, Except.isOk, Except.toBool]
      rw [haccepted]
      refine ⟨hdraft, ?_⟩
      rw [answers, answers, hanswers, hc]
      rfl
    | error r =>
      have haccepted : d.accepted (c :: calls) = (d.after c).accepted calls := by
        simp [accepted, answers, hc, Except.isOk, Except.toBool]
      have hsame : d.after c = d := Call.after_of_refused hc
      rw [haccepted, answers, hc]
      rw [hsame] at hdraft hanswers ⊢
      refine ⟨?_, hanswers⟩
      rw [hdraft]
      show _ = (d.after c).afterAll calls
      rw [hsame]

/-- **Refusals leave no trace.** Additions carried out in place, one after the other, return
    what they return on their own, and leave the draft that these make. Without the refused
    additions the draft is the same, and the others return the same numbers.

    An addition adds what it is asked for, or leaves the draft as it was; what there was
    before stays in its place, and so does what was added, through all that follows. -/
theorem refusals_leave_no_trace :
    (performAll calls).run d = (d.answers calls, d.afterAll calls) ∧
    d.afterAll (d.accepted calls) = d.afterAll calls ∧
    d.answers (d.accepted calls) = (d.answers calls).filter Except.isOk ∧
    ∀ before c behind,
      (d.answers (before ++ c :: behind))[before.length]? = some (c.answer (d.afterAll before)) ∧
      c.Leaves (d.afterAll before) (d.afterAll (before ++ [c])) (c.answer (d.afterAll before)) ∧
      (d.afterAll before).Extends (d.afterAll (before ++ [c])) ∧
      (d.afterAll (before ++ [c])).Extends (d.afterAll (before ++ c :: behind)) := by
  obtain ⟨hdraft, hanswers⟩ := d.run_accepted calls
  refine ⟨d.run_performAll calls, hdraft, hanswers, fun before c behind => ?_⟩
  have hturn : d.afterAll (before ++ [c]) = (d.afterAll before).after c :=
    d.afterAll_append before [c]
  have hanswer : (d.answers (before ++ c :: behind))[before.length]? =
      some (c.answer (d.afterAll before)) := by
    rw [answers_append, List.getElem?_append_right (Nat.le_of_eq (d.length_answers before)),
      length_answers, Nat.sub_self]
    rfl
  have hleaves := c.leaves_after (d.afterAll before)
  refine ⟨hanswer, ?_, ?_, ?_⟩
  · rw [hturn]
    exact hleaves
  · rw [hturn]
    exact hleaves.extends
  · rw [List.append_cons before c behind, afterAll_append d (before ++ [c]) behind]
    exact extends_afterAll _ behind

end

/-- A building that cannot be ground is refused with its region, and takes no number. -/
example :
    let d : Draft Float := empty { Settings.default with buildingGround := some Scalar.nan }
    let hut : Call Float := .building [⟨0, 0, 0⟩, ⟨4, 0, 0⟩, ⟨0, 4, 0⟩] 3 [] unnamed
    ((d.answers [hut, .point ⟨1, 1, 1⟩, hut, .point ⟨2, 2, 2⟩]).map Except.toOption =
      [none, some 0, none, some 1]) ∧
    (d.afterAll [hut, hut]).regions.length = 0 := by
  decide +kernel

end Draft

end SiteSection
