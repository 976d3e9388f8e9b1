import SiteSection.Segment

/-! # Thinning samples

  Samples that say nothing new are dropped: an inner sample within a tolerance of the segment
  from the last sample kept to the next sample. The ends stay, and so does a sample whose
  distance is undefined.
-/

namespace SiteSection

variable {α : Type} [Scalar α]

/-- What is kept of the samples after `last`, the last one kept. -/
def thinAfter (tolerance : α) (last : Point3 α) : List (Point3 α) → List (Point3 α)
  | p :: q :: rest =>
    if (⟨last, q⟩ : Segment α).distTo3 p < tolerance then thinAfter tolerance last (q :: rest)
    else p :: thinAfter tolerance p (q :: rest)
  | rest => rest

/-- The samples without those that lie within `tolerance` of the line through their
    neighbours. -/
def thin (tolerance : α) : List (Point3 α) → List (Point3 α)
  | [] => []
  | p :: rest => p :: thinAfter tolerance p rest

@[simp] theorem thin_nil (tolerance : α) : thin tolerance [] = [] := rfl

@[simp] theorem thin_singleton (tolerance : α) (p : Point3 α) : thin tolerance [p] = [p] := rfl

@[simp] theorem thin_pair (tolerance : α) (p q : Point3 α) :
    thin tolerance [p, q] = [p, q] := rfl

/-! ## What thinning keeps -/

/-- What is kept after a sample is a part of the samples after it. -/
theorem thinAfter_sublist (tolerance : α) (last : Point3 α) (l : List (Point3 α)) :
    (thinAfter tolerance last l).Sublist l := by
  fun_induction thinAfter tolerance last l with
  | case1 last p q rest _ ih => exact ih.cons p
  | case2 last p q rest _ ih => exact ih.cons_cons p
  | case3 => exact List.Sublist.refl _

/-- Thinning drops samples and changes nothing else. -/
theorem thin_sublist (tolerance : α) (l : List (Point3 α)) : (thin tolerance l).Sublist l := by
  cases l with
  | nil => exact List.Sublist.refl _
  | cons p rest => exact (thinAfter_sublist tolerance p rest).cons_cons p

end SiteSection
