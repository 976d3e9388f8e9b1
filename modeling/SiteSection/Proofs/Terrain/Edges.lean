import Mathlib.Data.Finset.Card
import Mathlib.Data.List.Forall2
import Mathlib.Order.Bounds.Basic
import SiteSection.Proofs.Terrain.Faces
import SiteSection.Proofs.Terrain.Matching
import SiteSection.Site

/-! # The edges of a mesh

  The edges are listed face by face. A face lists a side unless the face across it has a lower
  number, so it looks at one other face only. If its corners differ and no edge has three faces,
  that is the only other face that joins the same two points, and a face lists the side exactly
  if it is the first to join them.
-/

namespace SiteSection

/-- Lists are related if the elements at each position are. -/
theorem forall₂_of_getElem? {ι κ : Type} {R : ι → κ → Prop} {l : List ι} {l' : List κ}
    (hlength : l.length = l'.length)
    (h : ∀ (i : Nat) x y, l[i]? = some x → l'[i]? = some y → R x y) : List.Forall₂ R l l' :=
  List.forall₂_iff_get.mpr ⟨hlength, fun i hi hi' =>
    h i _ _ (List.getElem?_eq_getElem hi) (List.getElem?_eq_getElem hi')⟩

/-! ## Users of two points -/

namespace Face

/-- The pairs of points that a face joins. -/
def pairs (f : Face) : List (Nat × Nat) := f.sides.map Side.key

/-- Are the corners of a face different points? -/
def IsProper (f : Face) : Prop := f.a ≠ f.b ∧ f.b ≠ f.c ∧ f.c ≠ f.a

/-- A face with different corners joins three pairs of points. -/
theorem IsProper.nodup_pairs {f : Face} (h : f.IsProper) : f.pairs.Nodup := by
  obtain ⟨hab, hbc, hca⟩ := h
  simp only [pairs, sides, List.map_cons, List.map_nil, List.nodup_cons, List.mem_cons,
    List.not_mem_nil, or_false, not_or, Side.key_eq_iff, Prod.swap_prod_mk, Prod.mk.injEq]
  grind

end Face

namespace Side

variable {faces : List Face} {k : Nat × Nat} {t p q : Nat}

/-- The numbers of the faces that join two points. -/
def users (faces : List Face) (k : Nat × Nat) : Finset Nat :=
  (Finset.range faces.length).filter fun t => (faces[t]?).any fun f => k ∈ f.pairs

theorem mem_users : t ∈ users faces k ↔ ∃ f, faces[t]? = some f ∧ k ∈ f.pairs := by
  simp only [users, Finset.mem_filter, Finset.mem_range, Option.any_eq_true, decide_eq_true_eq]
  exact ⟨fun h => h.2, fun h => ⟨(List.getElem?_eq_some_iff.mp h.choose_spec.1).1, h⟩⟩

/-- A key stands where a side of its face has it. -/
theorem getElem?_keys_eq_some_iff :
    (keys faces)[p]? = some k ↔ ∃ f, faces[p / 3]? = some f ∧ f.pairs[p % 3]? = some k := by
  have hkeys := getElem?_keys faces (p / 3) (Nat.mod_lt p (by decide : 0 < 3))
  rw [Nat.div_add_mod] at hkeys
  simp only [hkeys, Option.bind_eq_some_iff, Face.pairs, List.getElem?_map]

theorem mem_users_of_getElem?_keys (h : (keys faces)[p]? = some k) : p / 3 ∈ users faces k := by
  obtain ⟨f, hf, hk⟩ := getElem?_keys_eq_some_iff.mp h
  exact mem_users.mpr ⟨f, hf, List.mem_of_getElem? hk⟩

/-- A face that joins two points has a side that does. -/
theorem exists_getElem?_keys (h : t ∈ users faces k) :
    ∃ p, p / 3 = t ∧ (keys faces)[p]? = some k := by
  obtain ⟨f, hf, hk⟩ := mem_users.mp h
  obtain ⟨i, hi, hget⟩ := List.getElem_of_mem hk
  have hside : i < 3 := hi
  have hface : (3 * t + i) / 3 = t := by omega
  have hpos : (3 * t + i) % 3 = i := by omega
  refine ⟨3 * t + i, hface, getElem?_keys_eq_some_iff.mpr ⟨f, ?_, ?_⟩⟩
  · rw [hface, hf]
  · rw [hpos, List.getElem?_eq_getElem hi, hget]

section
variable (hproper : ∀ f ∈ faces, f.IsProper)
include hproper

/-- A face with different corners joins two points by one side only. -/
theorem position_unique (hp : (keys faces)[p]? = some k) (hq : (keys faces)[q]? = some k)
    (hface : p / 3 = q / 3) : p = q := by
  obtain ⟨f, hf, hp⟩ := getElem?_keys_eq_some_iff.mp hp
  obtain ⟨g, hg, hq⟩ := getElem?_keys_eq_some_iff.mp hq
  rw [← hface, hf] at hg
  cases hg
  have hnodup := (hproper f (List.mem_of_getElem? hf)).nodup_pairs
  have hside := (List.getElem?_inj (List.getElem?_eq_some_iff.mp hp).1 hnodup).mp (hp.trans hq.symm)
  omega

variable (hshared : (users faces k).card ≤ 2)
include hshared

/-- The face across a side is no lower one exactly if no lower face joins the same points. -/
theorem lowest_iff_partner? (hp : (keys faces)[p]? = some k) :
    ((partner? (keys faces) p).map (· / 3)).all (p / 3 < ·) = true ↔
      ∀ u ∈ users faces k, p / 3 ≤ u := by
  have hpuser := mem_users_of_getElem?_keys hp
  constructor
  · intro hacross u hu
    by_contra hlower
    obtain ⟨q, rfl, hq⟩ := exists_getElem?_keys hu
    -- There is no third face, so the two sides are all and lie across each other.
    have honly : ∀ r, (keys faces)[r]? = some k → r = p ∨ r = q := by
      intro r hr
      by_contra hother
      rw [not_or] at hother
      have hthree : 2 < (users faces k).card :=
        Finset.two_lt_card.mpr ⟨_, hpuser, _, hu, _, mem_users_of_getElem?_keys hr,
          fun h => hlower h.le,
          fun h => hother.1 (position_unique hproper hr hp h.symm),
          fun h => hother.2 (position_unique hproper hr hq h.symm)⟩
      omega
    have hpartner := partner?_of_two hp hq (fun h => hlower (congrArg (· / 3) h).le) honly
    rw [hpartner] at hacross
    simp only [Option.map_some, Option.all_some, decide_eq_true_eq] at hacross
    omega
  · intro hlowest
    cases hpartner : partner? (keys faces) p with
    | none => rfl
    | some q =>
      obtain ⟨-, hne, e, hp', hq⟩ := partner?_symm hpartner
      rw [hp] at hp'
      cases hp'
      have hle := hlowest _ (mem_users_of_getElem?_keys hq)
      have hface : p / 3 ≠ q / 3 := fun h => hne (position_unique hproper hq hp h.symm)
      simp only [Option.map_some, Option.all_some, decide_eq_true_eq]
      omega

end

/-! ## First uses -/

/-- The sides, with their faces, whose face is the first to join their points. -/
def firstUses (faces : List Face) : List ((Nat × Nat) × Nat) :=
  faces.zipIdx.flatMap fun (f, t) =>
    (f.sides.filter fun e => ∀ u ∈ users faces (key e), t ≤ u).map fun e => (e, t)

theorem mem_firstUses {e : Nat × Nat} : (e, t) ∈ firstUses faces ↔
    (∃ f, faces[t]? = some f ∧ e ∈ f.sides) ∧ ∀ u ∈ users faces (key e), t ≤ u := by
  simp only [firstUses, List.mem_flatMap, List.mem_map, List.mem_filter, decide_eq_true_eq]
  constructor
  · rintro ⟨⟨f, _⟩, hf, d, ⟨hd, hlowest⟩, heq⟩
    cases heq
    exact ⟨⟨f, List.mk_mem_zipIdx_iff_getElem?.mp hf, hd⟩, hlowest⟩
  · rintro ⟨⟨f, hf, he⟩, hlowest⟩
    exact ⟨(f, t), List.mk_mem_zipIdx_iff_getElem?.mpr hf, e, ⟨he, hlowest⟩, rfl⟩

/-- Two points are listed with the lowest face that joins them. -/
theorem exists_firstUses_iff :
    (∃ e, key e = k ∧ (e, t) ∈ firstUses faces) ↔ IsLeast (users faces k : Set Nat) t := by
  constructor
  · rintro ⟨e, rfl, he⟩
    obtain ⟨⟨f, hf, he⟩, hlowest⟩ := mem_firstUses.mp he
    exact ⟨mem_users.mpr ⟨f, hf, List.mem_map_of_mem he⟩, hlowest⟩
  · rintro ⟨huser, hlowest⟩
    obtain ⟨f, hf, hk⟩ := mem_users.mp huser
    obtain ⟨e, he, rfl⟩ := List.mem_map.mp hk
    exact ⟨e, rfl, mem_firstUses.mpr ⟨⟨f, hf, he⟩, hlowest⟩⟩

/-- No two points are listed twice. -/
theorem nodup_firstUses (hproper : ∀ f ∈ faces, f.IsProper) :
    ((firstUses faces).map fun u => key u.1).Nodup := by
  have hnumbers : faces.zipIdx.Pairwise fun a b => a.2 ≠ b.2 := by
    rw [← List.pairwise_map (f := Prod.snd), List.zipIdx_map_snd]
    exact List.nodup_range'
  rw [List.Nodup, List.pairwise_map, firstUses, List.pairwise_flatMap]
  constructor
  · rintro ⟨f, t⟩ hf
    have hproper := hproper f (List.fst_mem_of_mem_zipIdx hf)
    rw [List.pairwise_map]
    exact (List.pairwise_map.mp hproper.nodup_pairs).filter _
  · refine hnumbers.imp_of_mem fun {a b} ha hb hne x hx y hy hkey => hne ?_
    -- Both faces are the lowest that joins the same points.
    have hlowest : ∀ {c : Face × Nat} {z : (Nat × Nat) × Nat}, c ∈ faces.zipIdx →
        z ∈ (c.1.sides.filter fun e => ∀ u ∈ users faces (key e), c.2 ≤ u).map (fun e => (e, c.2)) →
        IsLeast (users faces (key z.1) : Set Nat) c.2 := by
      intro c z hc hz
      have hmem : z ∈ firstUses faces := List.mem_flatMap.mpr ⟨c, hc, hz⟩
      obtain ⟨e, -, rfl⟩ := List.mem_map.mp hz
      exact exists_firstUses_iff.mp ⟨e, rfl, hmem⟩
    have hlowest' := hlowest hb hy
    rw [← hkey] at hlowest'
    exact (hlowest ha hx).unique hlowest'

end Side

namespace Mesh

variable {α : Type} {points : List (Point3 α)} {faces : List Face}

/-! ## The list of edges -/

/-- A side of a triangle is between the points that its face names, and has no lower face across
    it exactly if its face is the first to join them. -/
theorem forall₂_sides {f : Face} {tri : Triangle α} {t : Nat}
    (hproper : ∀ f ∈ faces, f.IsProper) (hshared : ∀ k, (Side.users faces k).card ≤ 2)
    (hf : faces[t]? = some f) (htri : (ofFaces points faces).corners? f = some tri) :
    List.Forall₂ (fun x e => points[e.1]? = some x.1.1 ∧ points[e.2]? = some x.1.2 ∧
        (x.2.all (t < ·) = true ↔ ∀ u ∈ Side.users faces (Side.key e), t ≤ u))
      (tri.sides.zip ((ofFaces points faces).linksAt t).toList) f.sides := by
  refine forall₂_of_getElem? rfl fun i x d hx hd => ?_
  have hside : i < 3 := (List.getElem?_eq_some_iff.mp hd).1
  have hface : (3 * t + i) / 3 = t := by omega
  obtain ⟨e, he, hp, hq⟩ := exists_side_of_corners? htri hd
  have hlink := getElem?_linksAt points (List.getElem?_eq_some_iff.mp hf).1 hside
  rw [List.getElem?_zip_eq_some, he, hlink, Option.some.injEq, Option.some.injEq] at hx
  have hkey : (Side.keys faces)[3 * t + i]? = some (Side.key d) := by
    rw [Side.getElem?_keys faces t hside, hf, Option.bind_some, hd]
    rfl
  have hlowest := Side.lowest_iff_partner? hproper (hshared _) hkey
  rw [hface, hx.2] at hlowest
  rw [← hx.1]
  exact ⟨hp, hq, hlowest⟩

/-- The edges are the first uses, by their points. -/
theorem exists_edges? (hrange : ∀ f ∈ faces, f.InRange points.length)
    (hproper : ∀ f ∈ faces, f.IsProper) (hshared : ∀ k, (Side.users faces k).card ≤ 2) :
    ∃ edges, (ofFaces points faces).edges? = some edges ∧
      List.Forall₂ (fun x u => points[u.1.1]? = some x.1 ∧ points[u.1.2]? = some x.2.1 ∧
        x.2.2 = u.2) edges (Side.firstUses faces) := by
  obtain ⟨triangles, htriangles⟩ := exists_triangles? (m := ofFaces points faces) hrange
  refine ⟨_, by rw [edges?, htriangles]; rfl, ?_⟩
  have hfaces : List.Forall₂ (fun x y => x.2 = y.2 ∧ faces[y.2]? = some y.1 ∧
      (ofFaces points faces).corners? y.1 = some x.1) triangles.zipIdx faces.zipIdx := by
    refine forall₂_of_getElem? (by simpa using length_triangles? htriangles) ?_
    intro t x y hx hy
    rw [List.getElem?_zipIdx, Option.map_eq_some_iff] at hx hy
    obtain ⟨tri, htri, rfl⟩ := hx
    obtain ⟨f, hf, rfl⟩ := hy
    rw [getElem?_triangles? htriangles, faces_ofFaces, hf, Option.bind_some] at htri
    exact ⟨rfl, by rwa [Nat.zero_add], htri⟩
  refine List.rel_flatMap hfaces ?_
  rintro ⟨tri, t⟩ ⟨f, _⟩ ⟨rfl, hf, htri⟩
  refine List.rel_map ?_ (List.rel_filter ?_ (forall₂_sides hproper hshared hf htri))
  · rintro x e ⟨hp, hq, -⟩
    exact ⟨hp, hq, rfl⟩
  · rintro x e ⟨-, -, hlowest⟩
    exact hlowest.trans decide_eq_true_iff.symm

/-- **Every edge once.** If the corners of each face are different points that exist, and no two
    points are joined by three faces, the mesh has a list of edges. They are between points whose
    numbers are those of two points that some face joins, each two points once, together with the
    lowest face that joins them. The terrain of a site lists exactly these. -/
theorem edges_once (points : List (Point3 α)) (faces : List Face)
    (hrange : ∀ f ∈ faces, f.InRange points.length) (hproper : ∀ f ∈ faces, f.IsProper)
    (hshared : ∀ k, (Side.users faces k).card ≤ 2) :
    ∃ edges listed, (ofFaces points faces).edges? = some edges ∧
      List.Forall₂ (fun x u => points[u.1.1]? = some x.1 ∧ points[u.1.2]? = some x.2.1 ∧
        x.2.2 = u.2) edges listed ∧
      (listed.map fun u => Side.key u.1).Nodup ∧
      (∀ k t, (∃ e, Side.key e = k ∧ (e, t) ∈ listed) ↔
        IsLeast (Side.users faces k : Set Nat) t) ∧
      ∀ s : Site α, s.mesh? = some (ofFaces points faces) →
        s.terrainEdges = edges.map fun (p, q, t) => ⟨p, q, true, true, .terrain t⟩ := by
  obtain ⟨edges, hedges, hlisted⟩ := exists_edges? hrange hproper hshared
  refine ⟨edges, Side.firstUses faces, hedges, hlisted, Side.nodup_firstUses hproper,
    fun k t => Side.exists_firstUses_iff, fun s hs => ?_⟩
  rw [Site.terrainEdges, hs, Option.bind_some, hedges]
  rfl

/-- Of two faces, turned against each other, the first lists the side that they share. -/
theorem edges_once_turned : ∃ (edges : List (Point3 Float × Point3 Float × Nat))
    (listed : List ((Nat × Nat) × Nat)),
    (ofFaces [⟨0, 0, 0⟩, ⟨1, 0, 0⟩, ⟨0, 1, 0⟩, ⟨1, 1, 1⟩] [⟨0, 1, 2⟩, ⟨1, 2, 3⟩]).edges? =
      some edges ∧
    edges.map (fun x => x.2.2) = [0, 0, 0, 1, 1] ∧
    (listed.map fun u => Side.key u.1).Nodup ∧
    (∃ e, Side.key e = (1, 2) ∧ (e, 0) ∈ listed) ∧ listed.length = 5 := by
  have hshared : ∀ k, (Side.users [⟨0, 1, 2⟩, ⟨1, 2, 3⟩] k).card ≤ 2 :=
    fun k => (Finset.card_filter_le _ _).trans (Finset.card_range 2).le
  obtain ⟨edges, listed, hedges, hlisted, hnodup, hleast, -⟩ :=
    edges_once (α := Float) [⟨0, 0, 0⟩, ⟨1, 0, 0⟩, ⟨0, 1, 0⟩, ⟨1, 1, 1⟩]
      [⟨0, 1, 2⟩, ⟨1, 2, 3⟩] (by simp [Face.InRange]) (by simp [Face.IsProper]) hshared
  have hfaces : edges.map (fun x => x.2.2) = [0, 0, 0, 1, 1] := by
    have hcomputed : (ofFaces (α := Float) [⟨0, 0, 0⟩, ⟨1, 0, 0⟩, ⟨0, 1, 0⟩, ⟨1, 1, 1⟩]
        [⟨0, 1, 2⟩, ⟨1, 2, 3⟩]).edges?.map (fun l => l.map fun x => x.2.2) =
          some [0, 0, 0, 1, 1] := by
      decide +kernel
    rw [hedges] at hcomputed
    exact Option.some.inj hcomputed
  refine ⟨edges, listed, hedges, hfaces, hnodup, (hleast (1, 2) 0).mpr ⟨?_, fun t _ => t.zero_le⟩,
    ?_⟩
  · rw [Finset.mem_coe]
    decide
  · rw [← hlisted.length_eq, ← List.length_map (fun x => x.2.2), hfaces]
    rfl

end Mesh

end SiteSection
