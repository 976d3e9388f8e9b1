import SiteSection.Site.Sectioning
import SiteSection.Proofs.Numbers.LawfulScalar

/-! # Numerically equal locations

  The ground at a location does not depend on the signs of zeros in its coordinates. The
  index and the polygons decide by comparisons of numbers that are computed from the
  coordinates, and for like coordinates these numbers are alike.
-/

namespace SiteSection

variable {α : Type} [Scalar α] [LawfulScalar α] {p q : Point2 α}

/-! ## Rings -/

namespace Ring

theorem windingOf_alike (h : p.Alike q) (edge : Point2 α × Point2 α) :
    windingOf p edge = windingOf q edge := by
  have hside : Scalar.Alike (side edge.1 edge.2 p) (side edge.1 edge.2 q) :=
    (Point2.Alike.refl _).cross (h.sub (.refl edge.1))
  have hfrom : edge.1.y ≤ p.y ↔ edge.1.y ≤ q.y := LawfulScalar.le_iff (.refl _) h.2
  have hto : edge.2.y ≤ p.y ↔ edge.2.y ≤ q.y := LawfulScalar.le_iff (.refl _) h.2
  have hbelow : p.y < edge.2.y ↔ q.y < edge.2.y := LawfulScalar.lt_iff h.2 (.refl _)
  have hleft : 0 < side edge.1 edge.2 p ↔ 0 < side edge.1 edge.2 q :=
    LawfulScalar.lt_iff (.refl 0) hside
  have hright : side edge.1 edge.2 p < 0 ↔ side edge.1 edge.2 q < 0 :=
    LawfulScalar.lt_iff hside (.refl 0)
  simp only [windingOf, hfrom, hto, hbelow, hleft, hright]

theorem inside_alike (h : p.Alike q) (ring : List (Point2 α)) : inside ring p = inside ring q := by
  have hwinding : windingOf p = windingOf q := funext (windingOf_alike h)
  rw [inside, inside, winding, winding, hwinding]

theorem onBoundary_alike (h : p.Alike q) (ring : List (Point2 α)) :
    onBoundary ring p = onBoundary ring q := by
  have hnear : ∀ e : Point2 α × Point2 α,
      (Segment.flat e.1 e.2).distTo p ≤ boundaryTolerance ↔
        (Segment.flat e.1 e.2).distTo q ≤ boundaryTolerance := fun e =>
    LawfulScalar.le_iff ((Segment.flat e.1 e.2).distTo_alike h) (.refl _)
  simp only [onBoundary, hnear]

end Ring

theorem Polygon.covers_alike (h : p.Alike q) (g : Polygon α) : g.covers p = g.covers q := by
  rw [covers, covers, inside, inside, Ring.inside_alike h, Ring.onBoundary_alike h]

/-! ## Indexes -/

theorem Envelope.meets_ofPoint_alike (h : p.Alike q) (e : Envelope α) :
    e.meets (Envelope.ofBox (Box.ofPoint p)) = e.meets (Envelope.ofBox (Box.ofPoint q)) := by
  have hif : ∀ {a b c d : α} {u v : Prop} [Decidable u] [Decidable v], (u ↔ v) →
      Scalar.Alike a c → Scalar.Alike b d →
        Scalar.Alike (if u then a else b) (if v then c else d) := by
    intro a b c d u v _ _ huv hac hbd
    simp only [huv]
    split
    · exact hac
    · exact hbd
  have hlesser : ∀ {x y : α}, Scalar.Alike x y →
      Scalar.Alike (if x < x + 0 then x else x + 0) (if y < y + 0 then y else y + 0) :=
    fun h => hif (LawfulScalar.lt_iff h (LawfulScalar.add h (.refl 0))) h
      (LawfulScalar.add h (.refl 0))
  have hgreater : ∀ {x y : α}, Scalar.Alike x y →
      Scalar.Alike (if x + 0 < x then x else x + 0) (if y + 0 < y then y else y + 0) :=
    fun h => hif (LawfulScalar.lt_iff (LawfulScalar.add h (.refl 0)) h) h
      (LawfulScalar.add h (.refl 0))
  simp only [meets, Bool.and_eq_decide, decide_eq_true_eq, decide_eq_decide]
  exact and_congr (and_congr (and_congr
    (LawfulScalar.le_iff (.refl _) (hgreater h.1)) (LawfulScalar.le_iff (.refl _) (hgreater h.2)))
    (LawfulScalar.le_iff (hlesser h.1) (.refl _))) (LawfulScalar.le_iff (hlesser h.2) (.refl _))

theorem BoxIndex.queryPoint_alike {ι : Type} (h : p.Alike q) (x : BoxIndex α ι) :
    x.queryPoint p = x.queryPoint q := by
  simp only [queryPoint, query, Envelope.meets_ofPoint_alike h]

/-! ## The ground -/

namespace Site

variable (s : Site α)

/-- The ground at like locations is the same. -/
theorem groundAt_alike (h : p.Alike q) (g : α) : s.groundAt p g = s.groundAt q g := by
  have hcovers : s.regionCovers p = s.regionCovers q := by
    funext k
    have hpolygon : (fun g : Polygon α => g.covers p) = fun g => g.covers q :=
      funext (Polygon.covers_alike h)
    rw [regionCovers, regionCovers, hpolygon]
  rw [groundAt, groundAt, regionAt?, regionAt?, BoxIndex.queryPoint_alike h, hcovers]

/-- The ground ahead of like locations is the same. -/
theorem groundAhead_alike (h : p.Alike q) (line : Segment α) (g : α) :
    s.groundAhead line g p = s.groundAhead line g q := by
  simp only [groundAhead]
  split
  · exact s.groundAt_alike h g
  · exact s.groundAt_alike (h.add (.refl _)) g

end Site

end SiteSection
