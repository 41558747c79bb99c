namespace Storyline

/-- The indices are `outer`, innermost first, below `last`. -/
structure Path where
  label : String
  outer : List Nat
  last : Nat
deriving DecidableEq, Repr, Inhabited

namespace Path

/-- The entry of a label. -/
def root (label : String) : Path := ⟨label, [], 0⟩

/-- The sibling after this one. -/
def next (p : Path) : Path := { p with last := p.last + 1 }

def child (p : Path) (index : Nat) : Path := ⟨p.label, p.last :: p.outer, index⟩

def firstChild (p : Path) : Path := p.child 1

def zerothChild (p : Path) : Path := p.child 0

/-- The indices from the label down. -/
def indices (p : Path) : List Nat := p.outer.reverse ++ [p.last]

/-- Dotted indices after the label, and none for the root. -/
def name (p : Path) : String :=
  if p.indices = [0] then p.label else ".".intercalate (p.label :: p.indices.map toString)

theorem name_root (label : String) : (root label).name = label := by
  simp [root, name, indices]

theorem label_next (p : Path) : p.next.label = p.label := rfl

theorem label_child (p : Path) (index : Nat) : (p.child index).label = p.label := rfl

theorem indices_child (p : Path) (index : Nat) :
    (p.child index).indices = p.indices ++ [index] := by
  simp [child, indices]

end Path

end Storyline
