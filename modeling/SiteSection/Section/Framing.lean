import SiteSection.Section.Point

/-! # Framing buildings

  Where a section passes through buildings, the crossings of their sides come in blocks: all
  building points of one owner up to the next building point of another. Other points may
  stand between them. Each block is framed by two more building points on the ground, one
  just before its first crossing and one just after its last.
-/

namespace SiteSection

namespace SectionPoint

variable {α : Type}

/-- Would `c` begin a new block after a building point, or after none? -/
def beginsBlock (previous : Option (SectionPoint α)) (c : SectionPoint α) : Bool :=
  previous.all fun b => b.owner != c.owner

/-- Does the block of `c` end with it, given the points that follow? -/
def endsBlock (c : SectionPoint α) (rest : List (SectionPoint α)) : Bool :=
  (rest.find? isBuilding).all fun b => b.owner != c.owner

/-- The points with their blocks framed, where `previous` is the last building point before
    them and `base c` the framing point at the foot of `c`. -/
def frameAfter (base : SectionPoint α → SectionPoint α) :
    Option (SectionPoint α) → List (SectionPoint α) → List (SectionPoint α)
  | _, [] => []
  | previous, c :: rest =>
    if c.isBuilding then
      (if c.beginsBlock previous then [base c] else []) ++ c ::
        ((if c.endsBlock rest then [base c] else []) ++ frameAfter base (some c) rest)
    else c :: frameAfter base previous rest

/-- The points with every block of building points framed. -/
def frame (base : SectionPoint α → SectionPoint α) (points : List (SectionPoint α)) :
    List (SectionPoint α) :=
  frameAfter base none points

@[simp] theorem frame_nil (base : SectionPoint α → SectionPoint α) : frame base [] = [] := rfl

end SectionPoint

end SiteSection
