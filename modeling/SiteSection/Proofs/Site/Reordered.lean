import Mathlib.Data.List.Nodup
import Mathlib.Data.List.Perm.Subperm
import SiteSection.Proofs.Site.Unread

/-! # Buildings in another order

  Where buildings are not ground regions as well, adding a building does nothing but append
  it. So a draft is what the other additions make of it, with the buildings that were added,
  in their order; and two drafts with the same additions, the buildings in two orders, give
  sites that differ in the numbers of their buildings only.
-/

namespace SiteSection

namespace Draft

variable {α : Type} {d : Draft α}

/-- Does the call add a building? -/
def Call.isBuilding : Call α → Bool
  | .building .. => true
  | _ => false

variable [Scalar α]

/-- The building that a call adds, if any. -/
def Call.building? : Call α → Option (Building α)
  | .building footprint height absorption name =>
    (Building.ofFootprint? footprint height absorption name).toOption
  | _ => none

/-! ## One addition -/

/-- Where buildings are not ground, a building is appended and nothing else is changed. -/
theorem after_building (hground : d.settings.buildingGround = none) {c : Call α}
    (hc : c.isBuilding = true) :
    d.after c = { d with buildings := d.buildings ++ c.building?.toList } := by
  cases c with
  | building footprint height absorption name =>
    simp only [after, Call.outcome, addBuilding, Call.building?]
    cases Building.ofFootprint? footprint height absorption name with
    | error f => simp [Except.toOption]
    | ok b => simp [hground, Except.toOption]
  | _ => cases hc

/-- Other additions neither read the buildings nor change them. -/
theorem after_other {c : Call α} (hc : c.isBuilding = false) (bs : List (Building α)) :
    ({ d with buildings := bs } : Draft α).after c = { d.after c with buildings := bs } := by
  cases c with
  | building => cases hc
  | region polygons coefficient =>
    simp only [after, Call.outcome, addRegion]
    cases GroundRegion.ofPolygons? polygons coefficient <;> rfl
  | rectangle a b coefficient =>
    simp only [after, Call.outcome, addRectangle, addRegion]
    cases Polygon.rectangle? (Coordinates.least a b) (Coordinates.greatest a b) with
    | error f => rfl
    | ok p =>
      dsimp only
      cases GroundRegion.ofPolygons? [p] coefficient <;> rfl
  | wall polyline height absorption name =>
    simp only [after, Call.outcome, addWall]
    cases wallFault? polyline height <;> rfl
  | point p =>
    simp only [after, Call.outcome, addPoint, topographic]
    split_ifs <;> rfl
  | line a b =>
    simp only [after, Call.outcome, addLine, topographic]
    split_ifs <;> rfl

/-! ## All additions -/

/-- After additions of other things the buildings are what they were. -/
theorem afterAll_other {calls : List (Call α)} (hcalls : ∀ c ∈ calls, c.isBuilding = false)
    (d : Draft α) (bs : List (Building α)) :
    ({ d with buildings := bs } : Draft α).afterAll calls =
      { d.afterAll calls with buildings := bs } := by
  induction calls generalizing d with
  | nil => rfl
  | cons c calls ih =>
    have hc : c.isBuilding = false := hcalls c List.mem_cons_self
    show (({ d with buildings := bs } : Draft α).after c).afterAll calls = _
    rw [after_other hc, ih (fun e he => hcalls e (List.mem_cons_of_mem c he))]
    rfl

/-- Where buildings are not ground, a draft is what the other additions make of it, and has
    the buildings that were added, in their order. -/
theorem afterAll_eq (hground : d.settings.buildingGround = none) (calls : List (Call α)) :
    d.afterAll calls =
      { d.afterAll (calls.filter fun c => !c.isBuilding) with
        buildings := d.buildings ++ calls.filterMap Call.building? } := by
  induction calls generalizing d with
  | nil =>
    rw [List.filterMap_nil, List.append_nil]
    rfl
  | cons c calls ih =>
    have hsettings : (d.after c).settings.buildingGround = none := by
      rw [settings_after]
      exact hground
    have hothers : ∀ e ∈ calls.filter fun c => !c.isBuilding, e.isBuilding = false := by
      intro e he
      simpa using (List.mem_filter.mp he).2
    show (d.after c).afterAll calls = _
    rw [ih hsettings]
    cases hc : c.isBuilding with
    | true =>
      have hadd : (c :: calls).filterMap Call.building? =
          c.building?.toList ++ calls.filterMap Call.building? := by
        cases hb : c.building? <;> simp [hb]
      rw [List.filter_cons_of_neg (by simp [hc]), hadd, after_building hground hc,
        afterAll_other hothers, List.append_assoc]
    | false =>
      have hnone : c.building? = none := by
        cases c with
        | building => cases hc
        | _ => rfl
      have hsame : d.after c = { d.after c with buildings := d.buildings } :=
        after_other hc d.buildings
      have hbuildings : (d.after c).buildings = d.buildings := by rw [hsame]
      rw [List.filter_cons_of_pos (by simp [hc]), List.filterMap_cons_none hnone, hbuildings]
      rfl

end Draft

/-! ## New numbers -/

/-- The second list has the elements of the first in another order, and `σ` gives the number in
    the second of every number in the first. -/
structure Renumbers {ι : Type} (σ : Nat → Nat) (l l' : List ι) : Prop where
  /-- There are as many. -/
  length_eq : l'.length = l.length
  /-- No two elements get one number. -/
  injOn : ∀ i < l.length, ∀ j < l.length, σ i = σ j → i = j
  /-- An element is found under its new number. -/
  getElem? : ∀ i < l.length, l'[σ i]? = l[i]?

/-- Lists of the same elements have new numbers. -/
theorem exists_renumbers {ι : Type} {l l' : List ι} (h : l.Perm l') :
    ∃ σ, Renumbers σ l l' := by
  induction h with
  | nil => exact ⟨id, rfl, by simp, by simp⟩
  | @cons a l l' _ ih =>
    obtain ⟨σ, hlength, hinj, hget⟩ := ih
    -- The first stays the first.
    refine ⟨fun i => if i = 0 then 0 else σ (i - 1) + 1, by simp [hlength], ?_, ?_⟩
    · intro i hi j hj hij
      match i, j with
      | 0, 0 => rfl
      | 0, j + 1 => simp at hij
      | i + 1, 0 => simp at hij
      | i + 1, j + 1 =>
        have hσ : σ i = σ j := by simpa using hij
        rw [hinj i (by simpa using hi) j (by simpa using hj) hσ]
    · intro i hi
      match i with
      | 0 => rfl
      | i + 1 => simpa using hget i (by simpa using hi)
  | @swap a b l =>
    refine ⟨fun i => if i = 0 then 1 else if i = 1 then 0 else i, rfl, ?_, ?_⟩
    · intro i _ j _ hij
      split_ifs at hij <;> omega
    · intro i _
      match i with
      | 0 | 1 => rfl
      | i + 2 => simp
  | trans _ _ ih ih' =>
    obtain ⟨σ, hlength, hinj, hget⟩ := ih
    obtain ⟨τ, hlength', hinj', hget'⟩ := ih'
    -- New numbers are numbers: an element is found there.
    have hlt : ∀ i < _, σ i < _ := fun i hi => by
      have hsome := hget i hi
      rw [List.getElem?_eq_getElem hi] at hsome
      exact (List.getElem?_eq_some_iff.mp hsome).1
    refine ⟨fun i => τ (σ i), hlength'.trans hlength, ?_, ?_⟩
    · intro i hi j hj hij
      exact hinj i hi j hj (hinj' _ (hlt i hi) _ (hlt j hj) hij)
    · intro i hi
      rw [hget' _ (hlt i hi), hget i hi]

/-- With their new numbers the elements are the numbered elements of the other list. -/
theorem Renumbers.zipIdx_perm {ι : Type} {σ : Nat → Nat} {l l' : List ι} (h : Renumbers σ l l') :
    (l.zipIdx.map fun e => (e.1, σ e.2)).Perm l'.zipIdx := by
  have hnodup : (l.zipIdx.map fun e => (e.1, σ e.2)).Nodup := by
    apply List.Nodup.of_map Prod.snd
    rw [List.map_map]
    have hsnd : l.zipIdx.map (Prod.snd ∘ fun e : ι × Nat => (e.1, σ e.2)) =
        (List.range l.length).map σ := by
      rw [List.range_eq_range', ← List.zipIdx_map_snd, List.map_map]
      rfl
    rw [hsnd]
    apply List.Nodup.map_on _ List.nodup_range
    intro i hi j hj
    exact h.injOn i (List.mem_range.mp hi) j (List.mem_range.mp hj)
  have hsubset : (l.zipIdx.map fun e => (e.1, σ e.2)) ⊆ l'.zipIdx := by
    intro e he
    obtain ⟨⟨a, i⟩, ha, rfl⟩ := List.mem_map.mp he
    have hget := List.mk_mem_zipIdx_iff_getElem?.mp ha
    apply List.mk_mem_zipIdx_iff_getElem?.mpr
    rw [h.getElem? i (List.getElem?_eq_some_iff.mp hget).1, hget]
  apply (List.subperm_of_subset hnodup hsubset).perm_of_length_le
  rw [List.length_map, List.length_zipIdx, List.length_zipIdx]
  exact Nat.le_of_eq h.length_eq

/-! ## Sealing -/

namespace Site

variable {α : Type}

/-- The sites differ in their buildings, and what belongs to these, only. -/
structure SameSurroundings (s s' : Site α) : Prop where
  /-- The settings are the same. -/
  settings : s'.settings = s.settings
  /-- The terrain is the same. -/
  terrain : s'.terrain = s.terrain
  /-- The walls are the same. -/
  walls : s'.walls = s.walls
  /-- The ground regions are the same. -/
  regions : s'.regions = s.regions
  /-- The ground regions are looked up in the same way. -/
  regionIndex : s'.regionIndex = s.regionIndex

end Site

namespace Draft

variable {α : Type} [Circular α] [Triangulates α] {d d' : Draft α}

/-- Drafts that differ in the order of their buildings only are sealed together: to sites that
    differ in the numbers of their buildings only. -/
theorem exists_build_of_perm (hdraft : { d' with buildings := [] } = { d with buildings := [] })
    (hperm : d.buildings.Perm d'.buildings) {strict : Bool} {s : Site α}
    (hs : (d.build strict).result = .ok s) :
    ∃ s', (d'.build strict).result = .ok s' ∧ s.SameSurroundings s' ∧
      ∃ σ, Renumbers σ s.buildings s'.buildings := by
  have hfields := Draft.mk.inj hdraft
  have hsite : ∀ t, (d.siteOver t).SameSurroundings (d'.siteOver t) ∧
      ∃ σ, Renumbers σ (d.siteOver t).buildings (d'.siteOver t).buildings := by
    intro t
    refine ⟨⟨hfields.1, rfl, ?_, hfields.2.2.2.1, ?_⟩, exists_renumbers ?_⟩
    · exact congrArg (List.map (placeWall t)) hfields.2.2.1
    · simp only [siteOver]
      rw [hfields.2.2.2.1]
    · simp only [siteOver]
      rw [hfields.1]
      exact hperm.map _
  obtain ⟨t, rfl, hs'⟩ :=
    exists_siteOver_of_build hfields.2.2.2.2.1 hfields.2.2.2.2.2 hs
  exact ⟨_, hs', hsite t⟩

/-- Where buildings are not ground, additions with the buildings in two orders are sealed
    together. -/
theorem exists_build_of_reordered {settings : Settings α}
    (hground : settings.buildingGround = none) {calls calls' : List (Call α)}
    (hothers : calls.filter (fun c => !c.isBuilding) = calls'.filter fun c => !c.isBuilding)
    (hbuildings : (calls.filter fun c => c.isBuilding).Perm
      (calls'.filter fun c => c.isBuilding)) {strict : Bool} {s : Site α}
    (hs : (((empty settings).afterAll calls).build strict).result = .ok s) :
    ∃ s', (((empty settings).afterAll calls').build strict).result = .ok s' ∧
      s.SameSurroundings s' ∧ ∃ σ, Renumbers σ s.buildings s'.buildings := by
  have hground : (empty settings).settings.buildingGround = none := hground
  -- Only calls that add buildings give buildings.
  have hfilter : ∀ cs : List (Call α), cs.filterMap Call.building? =
      (cs.filter fun c => c.isBuilding).filterMap Call.building? := by
    intro cs
    rw [List.filterMap_filter]
    apply List.filterMap_congr
    intro c _
    cases c <;> rfl
  have hperm := hbuildings.filterMap Call.building?
  rw [← hfilter, ← hfilter] at hperm
  apply exists_build_of_perm _ _ hs
  · rw [afterAll_eq hground calls, afterAll_eq hground calls', hothers]
  · rw [afterAll_eq hground calls, afterAll_eq hground calls']
    exact hperm

end Draft

end SiteSection
