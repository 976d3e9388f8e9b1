import Mathlib.Data.Finset.Prod
import Mathlib.Data.Nat.Bitwise
import Mathlib.Logic.Function.Basic
import SiteSection.Proofs.Terrain.Links

/-! # Matched sides

  The sides that use the same two points are paired two by two, in their order. So the pairs
  are a matching, whatever the faces are: degenerate, repeated, or more than two at an edge.
  At most one side of a key is left over, and there is one if the key has an odd number of uses.

  The pairs can be found in one pass over the sides, with a note for each key of the side that
  waits for its partner: a side that meets a waiting one is linked to it and the note is
  dropped, and a side that meets none waits itself. The links of both faces are written when
  the second side is met, so rows that were finished before are still changed.
-/

namespace SiteSection

namespace Side

variable {keys : List (Nat × Nat)} {e e' : Nat × Nat} {k k' i : Nat}

/-! ## Partners by rank -/

/-- The other of the two ranks in a pair. -/
theorem xor_one_eq (i : Nat) : i ^^^ 1 = if i % 2 = 0 then i + 1 else i - 1 := by
  split
  · next h => exact Nat.xor_one_of_even (Nat.even_iff.mpr h)
  · next h => exact Nat.xor_one_of_odd (Nat.odd_iff.mpr (by omega))

theorem nodup_uses (keys : List (Nat × Nat)) (e : Nat × Nat) : (uses keys e).Nodup :=
  (pairwise_uses keys e).imp Nat.ne_of_lt

/-- A use of rank `i` goes with the use of the other rank. -/
theorem partner?_of_rank (hi : (uses keys e)[i]? = some k) :
    partner? keys k = (uses keys e)[i ^^^ 1]? := by
  have hk : keys[k]? = some e := mem_uses.mp (List.mem_of_getElem? hi)
  obtain ⟨hlt, hget⟩ := List.getElem?_eq_some_iff.mp hi
  have hrank : (uses keys e).idxOf k = i := by
    rw [← hget]
    exact (nodup_uses keys e).idxOf_getElem i hlt
  simp [partner?, hk, hrank]

theorem exists_rank (hk : keys[k]? = some e) : ∃ i : Nat, (uses keys e)[i]? = some k :=
  List.mem_iff_getElem?.mp (mem_uses.mpr hk)

theorem partner?_of_none (hk : keys[k]? = none) : partner? keys k = none := by
  simp [partner?, hk]

/-- Partners are partners of each other, and use the same points. -/
theorem partner?_symm (h : partner? keys k = some k') :
    partner? keys k' = some k ∧ k' ≠ k ∧ ∃ e, keys[k]? = some e ∧ keys[k']? = some e := by
  cases hk : keys[k]? with
  | none =>
    rw [partner?_of_none hk] at h
    cases h
  | some e =>
    obtain ⟨i, hi⟩ := exists_rank hk
    rw [partner?_of_rank hi] at h
    have hback : partner? keys k' = some k := by
      rw [partner?_of_rank h, Nat.xor_assoc, Nat.xor_self, Nat.xor_zero, hi]
    refine ⟨hback, ?_, e, rfl, mem_uses.mp (List.mem_of_getElem? h)⟩
    rintro rfl
    have hrank := (List.getElem?_inj (List.getElem?_eq_some_iff.mp hi).1 (nodup_uses keys e)).mp
      (hi.trans h.symm)
    rw [xor_one_eq] at hrank
    split at hrank <;> omega

/-! ## The side that waits -/

/-- The use of a key that is left over, if there is one: the last of an odd number. -/
def waiting? (keys : List (Nat × Nat)) (e : Nat × Nat) : Option Nat :=
  if (uses keys e).length % 2 = 1 then (uses keys e).getLast? else none

theorem waiting?_eq_none_iff : waiting? keys e = none ↔ (uses keys e).length % 2 = 0 := by
  rw [waiting?]
  split
  · next hodd =>
    rw [List.getLast?_eq_none_iff]
    constructor
    · intro h
      rw [h]
      rfl
    · omega
  · simp only [true_iff]
    omega

theorem getElem?_of_waiting? (h : waiting? keys e = some k) : keys[k]? = some e := by
  rw [waiting?] at h
  split at h
  · exact mem_uses.mp (List.mem_of_getLast? h)
  · cases h

/-- The use that is left over is the one without a partner. -/
theorem partner?_eq_none_iff (hk : keys[k]? = some e) :
    partner? keys k = none ↔ waiting? keys e = some k := by
  obtain ⟨i, hi⟩ := exists_rank hk
  have hlt : i < (uses keys e).length := (List.getElem?_eq_some_iff.mp hi).1
  rw [partner?_of_rank hi, List.getElem?_eq_none_iff, xor_one_eq, waiting?,
    List.getLast?_eq_getElem?]
  constructor
  · intro h
    have hlast : i = (uses keys e).length - 1 ∧ (uses keys e).length % 2 = 1 := by
      split at h <;> omega
    rw [if_pos hlast.2, ← hlast.1, hi]
  · intro h
    split at h
    · next hodd =>
      have hrank := (List.getElem?_inj hlt (nodup_uses keys e)).mp (hi.trans h.symm)
      split <;> omega
    · cases h

/-- Of the uses of a key none is left over if their number is even, and one if it is odd. -/
theorem length_filter_unpaired (keys : List (Nat × Nat)) (e : Nat × Nat) :
    ((uses keys e).filter fun k => partner? keys k = none).length =
      (uses keys e).length % 2 := by
  have hfilter : ((uses keys e).filter fun k => partner? keys k = none) =
      (uses keys e).filter fun k => waiting? keys e = some k := by
    apply List.filter_congr
    intro k hk
    rw [decide_eq_decide]
    exact partner?_eq_none_iff (mem_uses.mp hk)
  rw [hfilter]
  cases hw : waiting? keys e with
  | none =>
    rw [waiting?_eq_none_iff.mp hw]
    simp
  | some k =>
    have hodd : (uses keys e).length % 2 = 1 := by
      have hsome : ¬ waiting? keys e = none := by simp [hw]
      rw [waiting?_eq_none_iff] at hsome
      omega
    have hone := List.count_eq_one_of_mem (nodup_uses keys e)
      (mem_uses.mpr (getElem?_of_waiting? hw))
    rw [hodd, ← hone, List.count_eq_length_filter]
    congr 2
    funext j
    rw [Bool.eq_iff_iff, decide_eq_true_eq, beq_iff_eq, Option.some.injEq, eq_comm]

/-! ## One more side -/

section
variable (keys e)

theorem uses_concat (e' : Nat × Nat) :
    uses (keys ++ [e]) e' = uses keys e' ++ if e' = e then [keys.length] else [] := by
  rw [uses, uses, List.zipIdx_append, List.filter_append, List.map_append, List.zipIdx_singleton,
    Nat.zero_add]
  by_cases h : e' = e
  · rw [if_pos h, List.filter_cons_of_pos (by simp [h])]
    rfl
  · rw [if_neg h, List.filter_cons_of_neg (by simpa using Ne.symm h)]
    rfl

/-- A side that comes last waits itself if none waits for it, and else leaves none waiting. -/
theorem waiting?_concat (e' : Nat × Nat) :
    waiting? (keys ++ [e]) e' =
      if e' = e then (if waiting? keys e = none then some keys.length else none)
      else waiting? keys e' := by
  rw [waiting?, uses_concat]
  by_cases h : e' = e
  · rw [if_pos h, if_pos h, h, List.getLast?_concat, List.length_append, List.length_singleton]
    simp only [waiting?_eq_none_iff]
    split_ifs <;> first | rfl | omega
  · rw [if_neg h, if_neg h, List.append_nil, waiting?]

/-- A side that comes last is the partner of the one that waits, if there is one; all other sides
    keep their partners. -/
theorem partner?_concat (j : Nat) :
    partner? (keys ++ [e]) j =
      if j = keys.length then waiting? keys e
      else if waiting? keys e = some j then some keys.length
      else partner? keys j := by
  by_cases hj : j = keys.length
  · have hrank : (uses (keys ++ [e]) e)[(uses keys e).length]? = some j := by
      rw [uses_concat, if_pos rfl, List.getElem?_concat_length, hj]
    rw [if_pos hj, partner?_of_rank hrank, uses_concat, if_pos rfl, xor_one_eq, waiting?,
      List.getLast?_eq_getElem?]
    split
    · next heven =>
      rw [if_neg (by omega)]
      simp
    · next hodd =>
      rw [if_pos (by omega), List.getElem?_append_left (by omega)]
  · rw [if_neg hj]
    cases hkey : keys[j]? with
    | none =>
      have hbeyond : (keys ++ [e])[j]? = none := by
        rw [List.getElem?_eq_none_iff] at hkey ⊢
        simp only [List.length_append, List.length_singleton]
        omega
      have hwait : waiting? keys e ≠ some j := by
        intro h
        rw [getElem?_of_waiting? h] at hkey
        cases hkey
      rw [partner?_of_none hbeyond, partner?_of_none hkey, if_neg hwait]
    | some e' =>
      obtain ⟨i, hi⟩ := exists_rank hkey
      have hlt : i < (uses keys e').length := (List.getElem?_eq_some_iff.mp hi).1
      have hrank : (uses (keys ++ [e]) e')[i]? = some j := by
        rw [uses_concat, List.getElem?_append_left hlt, hi]
      rw [partner?_of_rank hrank, uses_concat]
      by_cases hwait : waiting? keys e = some j
      · -- The rank of the other is one too high, so far.
        have hsame : e' = e := by
          rw [getElem?_of_waiting? hwait] at hkey
          exact (Option.some.inj hkey).symm
        subst hsame
        have hnone : (uses keys e')[i ^^^ 1]? = none := by
          rw [← partner?_of_rank hi]
          exact (partner?_eq_none_iff hkey).mpr hwait
        have hother : i ^^^ 1 = (uses keys e').length := by
          rw [List.getElem?_eq_none_iff, xor_one_eq] at hnone
          rw [xor_one_eq]
          split at hnone <;> split <;> omega
        rw [if_pos hwait, if_pos rfl, hother, List.getElem?_concat_length]
      · rw [if_neg hwait, partner?_of_rank hi]
        by_cases h : e' = e
        · subst h
          have hsome : ¬ (uses keys e')[i ^^^ 1]? = none := by
            rw [← partner?_of_rank hi, partner?_eq_none_iff hkey]
            exact hwait
          rw [List.getElem?_eq_none_iff, not_le] at hsome
          rw [List.getElem?_append_left hsome]
        · rw [if_neg h, List.append_nil]

end

end Side

/-! ## One pass over the sides -/

namespace Links

/-- The row with another face across side `i`. -/
def set (l : Links) (i : Nat) (face : Nat) : Links :=
  match i with
  | 0 => { l with ab := some face }
  | 1 => { l with bc := some face }
  | _ => { l with ca := some face }

theorem toList_set (l : Links) {i j : Nat} (hi : i < 3) (hj : j < 3) (face : Nat) :
    (l.set i face).toList[j]? = if j = i then some (some face) else l.toList[j]? := by
  obtain rfl | rfl | rfl : i = 0 ∨ i = 1 ∨ i = 2 := by omega
  all_goals obtain rfl | rfl | rfl : j = 0 ∨ j = 1 ∨ j = 2 := by omega
  all_goals rfl

end Links

namespace Side

/-- The face and the side that stand at a position. -/
def place (k : Nat) : Nat × Nat := (k / 3, k % 3)

/-- What some rows say of the side at a position: the face that it is linked to, if any. -/
def linked? (links : List Links) (k : Nat) : Option (Option Nat) :=
  (links[k / 3]?).bind fun l => l.toList[k % 3]?

/-- Writing an entry leaves the others as they are. -/
theorem linked?_modify (links : List Links) (k j face : Nat) :
    linked? (links.modify (k / 3) (·.set (k % 3) face)) j =
      if j = k then (linked? links j).map fun _ => some face else linked? links j := by
  rw [linked?, linked?, List.getElem?_modify]
  have hk : k % 3 < 3 := Nat.mod_lt k (by decide)
  have hj : j % 3 < 3 := Nat.mod_lt j (by decide)
  cases links[j / 3]? with
  | none => simp
  | some l =>
    by_cases hrow : k / 3 = j / 3
    · have hsame : j % 3 = k % 3 ↔ j = k := by omega
      simp only [hrow, if_true, Option.map_eq_map, Option.map_some, Option.bind_some,
        l.toList_set hk hj, hsame]
      split
      · have hentry : j % 3 < l.toList.length := hj
        rw [List.getElem?_eq_getElem hentry]
        rfl
      · rfl
    · have hne : j ≠ k := by
        rintro rfl
        exact hrow rfl
      simp [hrow, hne]

/-- Rows are known from their entries. -/
theorem eq_of_linked? {links links' : List Links} (hlength : links.length = links'.length)
    (h : ∀ k, k < 3 * links.length → linked? links k = linked? links' k) : links = links' := by
  apply List.ext_getElem hlength
  intro t ht ht'
  have hentry : ∀ i < 3, links[t].toList[i]? = links'[t].toList[i]? := by
    intro i hi
    have hk := h (3 * t + i) (by omega)
    have hrow : (3 * t + i) / 3 = t := by omega
    have hside : (3 * t + i) % 3 = i := by omega
    rw [linked?, linked?, hrow, hside, List.getElem?_eq_getElem ht, List.getElem?_eq_getElem ht']
      at hk
    exact hk
  have hab := hentry 0 (by decide)
  have hbc := hentry 1 (by decide)
  have hca := hentry 2 (by decide)
  cases hl : links[t]
  cases hl' : links'[t]
  rw [hl, hl'] at hab hbc hca
  simp only [Links.toList, List.getElem?_cons_zero, List.getElem?_cons_succ,
    Option.some.injEq] at hab hbc hca
  rw [hab, hbc, hca]

/-- The entry of a side is the face of its partner. -/
theorem linked?_linksOf {faces : List Face} {k : Nat} (hk : k < 3 * faces.length) :
    linked? (linksOf faces) k = some ((partner? (keys faces) k).map (· / 3)) := by
  have hrow : k / 3 < faces.length := by omega
  have hpos : 3 * (k / 3) + k % 3 = k := Nat.div_add_mod k 3
  have hlinks := Mesh.getElem?_linksAt (α := Unit) [] hrow (Nat.mod_lt k (by decide : 0 < 3))
  rw [hpos] at hlinks
  have hlt : k / 3 < (linksOf faces).length := by rwa [length_linksOf]
  rw [← hlinks, linked?, Mesh.linksAt, Mesh.ofFaces, List.getElem?_eq_getElem hlt]
  rfl

end Side

/-- What is known on the way through the sides of some faces. -/
structure Sweep where
  /-- The rows as far as they are written. -/
  links : List Links
  /-- The side of each key that waits for a partner, as face and side. -/
  waiting : Nat × Nat → Option (Nat × Nat)

namespace Sweep

/-- Before all sides nothing is written, and none waits. -/
def start (n : Nat) : Sweep := ⟨List.replicate n .none, fun _ => none⟩

/-- A side meets the one that waits for its key, and both are linked; if none waits, it waits
    itself. -/
def meet (w : Sweep) (e side : Nat × Nat) : Sweep :=
  match w.waiting e with
  | some other =>
    { links := (w.links.modify side.1 (·.set side.2 other.1)).modify other.1
        (·.set other.2 side.1)
      waiting := Function.update w.waiting e none }
  | none => { w with waiting := Function.update w.waiting e (some side) }

theorem meet_of_none {w : Sweep} {e side : Nat × Nat} (h : w.waiting e = none) :
    w.meet e side = { w with waiting := Function.update w.waiting e (some side) } := by
  rw [meet, h]

theorem meet_of_some {w : Sweep} {e side other : Nat × Nat} (h : w.waiting e = some other) :
    w.meet e side =
      { links := (w.links.modify side.1 (·.set side.2 other.1)).modify other.1
          (·.set other.2 side.1)
        waiting := Function.update w.waiting e none } := by
  rw [meet, h]

/-- The three sides of a face, in order. -/
def meetFace (w : Sweep) (f : Face) (t : Nat) : Sweep :=
  ((w.meet (Side.key (f.a, f.b)) (t, 0)).meet (Side.key (f.b, f.c)) (t, 1)).meet
    (Side.key (f.c, f.a)) (t, 2)

/-- The sides of all faces, in order. -/
def meetAll (faces : List Face) : Sweep :=
  faces.zipIdx.foldl (fun w (f, t) => w.meetFace f t) (start faces.length)

/-- After the sides with some keys, the rows say what the partners among these are, and for each
    key the one without a partner waits. -/
structure Reached (n : Nat) (keys : List (Nat × Nat)) (w : Sweep) : Prop where
  /-- There is a row for each face. -/
  length_eq : w.links.length = n
  /-- The entry of a side is the face of its partner so far. -/
  entry : ∀ k, k < 3 * n → Side.linked? w.links k = some ((Side.partner? keys k).map (· / 3))
  /-- The side that waits is the one that is left over so far. -/
  waiting : ∀ e, w.waiting e = (Side.waiting? keys e).map Side.place

theorem reached_start (n : Nat) : Reached n [] (start n) where
  length_eq := List.length_replicate
  entry k hk := by
    have hrow : k / 3 < n := by omega
    have hside : k % 3 = 0 ∨ k % 3 = 1 ∨ k % 3 = 2 := by omega
    rw [Side.partner?_of_none rfl, Side.linked?, start, List.getElem?_replicate, if_pos hrow]
    rcases hside with h | h | h <;> (rw [h]; rfl)
  waiting _ := rfl

variable {n : Nat} {keys : List (Nat × Nat)} {w : Sweep}

/-- Meeting one more side keeps the rows and the notes right. -/
theorem Reached.meet (h : Reached n keys w) (e : Nat × Nat) :
    Reached n (keys ++ [e]) (w.meet e (Side.place keys.length)) := by
  have hlast : Side.partner? keys keys.length = none :=
    Side.partner?_of_none (List.getElem?_eq_none_iff.mpr (Nat.le_refl _))
  have hwaiting := h.waiting e
  cases hw : Side.waiting? keys e with
  | none =>
    -- The side has no partner yet: no row changes.
    rw [hw, Option.map_none] at hwaiting
    rw [meet_of_none hwaiting]
    refine ⟨h.length_eq, fun k hk => ?_, fun e' => ?_⟩
    · rw [h.entry k hk, Side.partner?_concat, hw]
      by_cases hkey : k = keys.length
      · rw [if_pos hkey, hkey, hlast]
      · rw [if_neg hkey, if_neg (Option.some_ne_none k).symm]
    · dsimp only
      rw [Side.waiting?_concat]
      by_cases he : e' = e
      · rw [if_pos he, if_pos hw, he, Function.update_self]
        rfl
      · rw [if_neg he, Function.update_of_ne he, h.waiting]
  | some j =>
    -- The rows of both sides change, that of the earlier one too.
    have hj : j < keys.length := (List.getElem?_eq_some_iff.mp (Side.getElem?_of_waiting? hw)).1
    rw [hw, Option.map_some] at hwaiting
    rw [meet_of_some hwaiting]
    refine ⟨?_, fun k hk => ?_, fun e' => ?_⟩
    · simp only [List.length_modify, h.length_eq]
    · simp only [Side.place]
      rw [Side.linked?_modify, Side.linked?_modify, h.entry k hk, Side.partner?_concat, hw]
      by_cases hkey : k = keys.length
      · rw [if_neg (by omega), if_pos hkey, if_pos hkey]
        rfl
      · by_cases hother : k = j
        · rw [if_pos hother, if_neg hkey, if_neg hkey, if_pos (congrArg some hother.symm)]
          rfl
        · have hne : ¬ some j = some k := fun heq => hother (Option.some.inj heq).symm
          rw [if_neg hother, if_neg hkey, if_neg hkey, if_neg hne]
    · dsimp only
      rw [Side.waiting?_concat]
      by_cases he : e' = e
      · rw [if_pos he, if_neg (by simp [hw]), he, Function.update_self]
        rfl
      · rw [if_neg he, Function.update_of_ne he, h.waiting]

/-- Meeting some more sides, each at its position, keeps the rows and the notes right. -/
theorem Reached.meetMore (h : Reached n keys w) (more : List (Nat × Nat)) :
    Reached n (keys ++ more)
      ((more.zipIdx keys.length).foldl (fun w (e, k) => w.meet e (Side.place k)) w) := by
  induction more generalizing keys w with
  | nil => simpa using h
  | cons e more ih =>
    have hstep := ih (h.meet e)
    rw [List.append_assoc, List.length_append] at hstep
    exact hstep

/-- Face by face the sides are met at their positions. -/
theorem foldl_meetFace (faces : List Face) (t : Nat) (w : Sweep) :
    (faces.zipIdx t).foldl (fun w (f, t) => w.meetFace f t) w =
      ((Side.keys faces).zipIdx (3 * t)).foldl (fun w (e, k) => w.meet e (Side.place k)) w := by
  induction faces generalizing t w with
  | nil => rfl
  | cons f faces ih =>
    have hkeys : Side.keys (f :: faces) = f.sides.map Side.key ++ Side.keys faces := by
      simp [Side.keys]
    have hface : ((f.sides.map Side.key).zipIdx (3 * t)).foldl
        (fun w (e, k) => w.meet e (Side.place k)) w = w.meetFace f t := by
      have h0 : Side.place (3 * t) = (t, 0) := by simp [Side.place]
      have h1 : Side.place (3 * t + 1) = (t, 1) := by simp [Side.place]; omega
      have h2 : Side.place (3 * t + 1 + 1) = (t, 2) := by simp [Side.place]; omega
      simp [Face.sides, List.zipIdx_cons, h0, h1, h2, meetFace]
    rw [List.zipIdx_cons, List.foldl_cons, hkeys, List.zipIdx_append, List.foldl_append, hface, ih]
    rfl

end Sweep

/-- The links of a list of faces, found in one pass. -/
def linksInOnePass (faces : List Face) : List Links := (Sweep.meetAll faces).links

/-- One pass finds all links. -/
theorem linksInOnePass_eq (faces : List Face) : linksInOnePass faces = linksOf faces := by
  have hreached : Sweep.Reached faces.length (Side.keys faces) (Sweep.meetAll faces) := by
    have h := (Sweep.reached_start faces.length).meetMore (Side.keys faces)
    rw [Sweep.meetAll, Sweep.foldl_meetFace]
    exact h
  apply Side.eq_of_linked?
  · rw [linksInOnePass, hreached.length_eq, length_linksOf]
  · intro k hk
    rw [linksInOnePass, hreached.length_eq] at hk
    rw [linksInOnePass, hreached.entry k hk, Side.linked?_linksOf hk]

/-! ## Sides of faces -/

namespace Side

/-- The key of a side, given as face and side, if there is such a side. -/
def keyAt? (faces : List Face) (a : Nat × Nat) : Option (Nat × Nat) :=
  (faces[a.1]?).bind fun f => (f.sides[a.2]?).map key

/-- The side that a side is paired with. -/
def mate? (faces : List Face) (a : Nat × Nat) : Option (Nat × Nat) :=
  if a.2 < 3 then (partner? (keys faces) (3 * a.1 + a.2)).map place else none

/-- The sides of some faces. -/
def all (faces : List Face) : Finset (Nat × Nat) := Finset.range faces.length ×ˢ Finset.range 3

/-- Sides are paired with other sides that use the same two points, and none is in two pairs. -/
structure IsMatching (faces : List Face) (mate : Nat × Nat → Option (Nat × Nat)) : Prop where
  /-- The sides of a pair are paired with each other. -/
  symm : ∀ a b, mate a = some b → mate b = some a
  /-- No side is paired with itself. -/
  ne : ∀ a b, mate a = some b → b ≠ a
  /-- Both sides exist and use the same points. -/
  key_eq : ∀ a b, mate a = some b → ∃ e, keyAt? faces a = some e ∧ keyAt? faces b = some e

variable {faces : List Face}

theorem place_position {t i : Nat} (hi : i < 3) : place (3 * t + i) = (t, i) := by
  rw [place, Prod.mk.injEq]
  omega

theorem position_place (k : Nat) : 3 * (place k).1 + (place k).2 = k := Nat.div_add_mod k 3

theorem getElem?_keys_position {a : Nat × Nat} (ha : a.2 < 3) :
    (keys faces)[3 * a.1 + a.2]? = keyAt? faces a := getElem?_keys faces a.1 ha

theorem keyAt?_place (k : Nat) : keyAt? faces (place k) = (keys faces)[k]? := by
  have hside : (place k).2 < 3 := Nat.mod_lt k (by decide)
  rw [← getElem?_keys_position hside, position_place]

theorem mate?_place (k : Nat) : mate? faces (place k) = (partner? (keys faces) k).map place := by
  rw [mate?, if_pos (show (place k).2 < 3 from Nat.mod_lt k (by decide)), position_place]

theorem exists_position {a b : Nat × Nat} (h : mate? faces a = some b) :
    ∃ j k, a = place j ∧ b = place k ∧ partner? (keys faces) j = some k := by
  rw [mate?] at h
  split at h
  · next ha =>
    obtain ⟨k, hk, rfl⟩ := Option.map_eq_some_iff.mp h
    exact ⟨3 * a.1 + a.2, k, (place_position ha).symm, rfl, hk⟩
  · cases h

theorem place_inj {j k : Nat} (h : place j = place k) : j = k := by
  rw [← position_place j, h, position_place]

/-- Partners are a matching of the sides. -/
theorem isMatching_mate? (faces : List Face) : IsMatching faces (mate? faces) where
  symm a b h := by
    obtain ⟨j, k, rfl, rfl, hk⟩ := exists_position h
    rw [mate?_place, (partner?_symm hk).1]
    rfl
  ne a b h := by
    obtain ⟨j, k, rfl, rfl, hk⟩ := exists_position h
    exact fun heq => (partner?_symm hk).2.1 (place_inj heq)
  key_eq a b h := by
    obtain ⟨j, k, rfl, rfl, hk⟩ := exists_position h
    obtain ⟨e, hj, hk⟩ := (partner?_symm hk).2.2
    exact ⟨e, by rw [keyAt?_place, hj], by rw [keyAt?_place, hk]⟩

/-- Counting the sides of a key is counting its uses. -/
theorem card_filter_sides (faces : List Face) (e : Nat × Nat) (p : Nat → Prop)
    [DecidablePred p] :
    ((all faces).filter fun a => keyAt? faces a = some e ∧ p (3 * a.1 + a.2)).card =
      ((uses (keys faces) e).filter fun k => p k).length := by
  have hsides : ∀ a, a ∈ ((all faces).filter fun a => keyAt? faces a = some e ∧
      p (3 * a.1 + a.2)) ↔ (a.1 < faces.length ∧ a.2 < 3) ∧ keyAt? faces a = some e ∧
        p (3 * a.1 + a.2) := by
    simp [all]
  have huses : ∀ k, k ∈ ((uses (keys faces) e).filter fun k => p k).toFinset ↔
      (keys faces)[k]? = some e ∧ p k := by
    simp [mem_uses]
  rw [← List.toFinset_card_of_nodup ((nodup_uses (keys faces) e).filter _)]
  apply Finset.card_nbij' (fun a => 3 * a.1 + a.2) place
  · intro a ha
    obtain ⟨⟨_, hside⟩, hkey, hp⟩ := (hsides a).mp ha
    exact (huses _).mpr ⟨by rw [getElem?_keys_position hside, hkey], hp⟩
  · intro k hk
    obtain ⟨hkey, hp⟩ := (huses k).mp hk
    rw [← keyAt?_place] at hkey
    obtain ⟨f, hf, _⟩ := Option.bind_eq_some_iff.mp hkey
    have hface : (place k).1 < faces.length := (List.getElem?_eq_some_iff.mp hf).1
    refine (hsides _).mpr ⟨⟨hface, Nat.mod_lt k (by decide)⟩, hkey, ?_⟩
    rwa [position_place]
  · intro a ha
    exact place_position ((hsides a).mp ha).1.2
  · intro k _
    exact position_place k

end Side

namespace Mesh

variable {α : Type}

/-- The face across a side, given as face and side, if there is one. -/
def across? (m : Mesh α) (a : Nat × Nat) : Option Nat := ((m.linksAt a.1).toList[a.2]?).join

/-- Across a side is the face of the side that it is paired with. -/
theorem across?_ofFaces (points : List (Point3 α)) (faces : List Face) (a : Nat × Nat) :
    (Mesh.ofFaces points faces).across? a = (Side.mate? faces a).map Prod.fst := by
  rw [across?, Side.mate?]
  by_cases hside : a.2 < 3
  · rw [if_pos hside, Option.map_map]
    by_cases hface : a.1 < faces.length
    · rw [getElem?_linksAt points hface hside]
      rfl
    · -- Neither the row nor the side exists.
      have hrow : (Mesh.ofFaces points faces).links[a.1]? = none := by
        simpa [Mesh.ofFaces] using hface
      have hkey : (Side.keys faces)[3 * a.1 + a.2]? = none := by
        rw [Side.getElem?_keys_position hside, Side.keyAt?,
          List.getElem?_eq_none_iff.mpr (Nat.not_lt.mp hface)]
        rfl
      have hnone : ∀ i : Nat, (Links.none.toList[i]?).join = none := by
        rintro (_ | _ | _ | i) <;> rfl
      rw [linksAt, hrow, Side.partner?_of_none hkey]
      exact hnone a.2
  · rw [if_neg hside, List.getElem?_eq_none_iff.mpr (by simpa using hside)]
    rfl

/-- **Sides are matched.** Whatever the faces are, the links that are found in one pass are those
    of a matching of the sides that use the same points: a face lies across a side if and only if
    the side is paired with one other side, of that face, across which lies its own. Of the sides
    that use two points none is left without a face across it if their number is even, and one if
    it is odd. -/
theorem links_matched (points : List (Point3 α)) (faces : List Face) :
    (Mesh.ofFaces points faces).links = linksInOnePass faces ∧
    Side.IsMatching faces (Side.mate? faces) ∧
    (∀ t i o, (Mesh.ofFaces points faces).across? (t, i) = some o ↔
      ∃! j, Side.mate? faces (t, i) = some (o, j) ∧ (o, j) ≠ (t, i) ∧
        Side.keyAt? faces (o, j) = Side.keyAt? faces (t, i) ∧
        (Mesh.ofFaces points faces).across? (o, j) = some t) ∧
    ∀ e, ((Side.all faces).filter fun a => Side.keyAt? faces a = some e ∧
        (Mesh.ofFaces points faces).across? a = none).card =
      ((Side.all faces).filter fun a => Side.keyAt? faces a = some e).card % 2 := by
  have hmatching := Side.isMatching_mate? faces
  refine ⟨(linksInOnePass_eq faces).symm, hmatching, fun t i o => ?_, fun e => ?_⟩
  · rw [across?_ofFaces]
    constructor
    · intro h
      obtain ⟨⟨_, j⟩, hmate, rfl⟩ := Option.map_eq_some_iff.mp h
      obtain ⟨e, hkey, hkey'⟩ := hmatching.key_eq _ _ hmate
      refine ⟨j, ⟨hmate, hmatching.ne _ _ hmate, hkey'.trans hkey.symm, ?_⟩, ?_⟩
      · rw [across?_ofFaces, hmatching.symm _ _ hmate]
        rfl
      · rintro j' ⟨hmate', _⟩
        rw [hmate] at hmate'
        cases hmate'
        rfl
    · rintro ⟨j, ⟨hmate, _⟩, _⟩
      rw [hmate]
      rfl
  · have hall := Side.card_filter_sides faces e fun _ => True
    have hunpaired := Side.card_filter_sides faces e fun k =>
      Side.partner? (Side.keys faces) k = none
    rw [Side.length_filter_unpaired] at hunpaired
    simp only [and_true, decide_true, List.filter_true] at hall
    rw [hall, ← hunpaired]
    congr 1
    apply Finset.filter_congr
    intro a ha
    have hside : a.2 < 3 := by simpa [Side.all] using (Finset.mem_product.mp ha).2
    rw [across?_ofFaces, Side.mate?, if_pos hside, Option.map_eq_none_iff, Option.map_eq_none_iff]

/-- A face with one point for all corners has its first two sides across each other, and the third
    is left over. -/
example : linksInOnePass [⟨0, 0, 0⟩] = [⟨some 0, some 0, none⟩] := by decide

end Mesh

end SiteSection
