/-!
# Renderings

Text as the pieces that are written one after the other. A rendering that meets a reference to
nothing breaks off: the pieces before that place are all there is.
-/

namespace SparseProgram

structure Rendering where
  pieces : List String
  breaksOff : Bool
  deriving DecidableEq

namespace Rendering

def nothing : Rendering :=
  ⟨[], false⟩

def ofPieces (pieces : List String) : Rendering :=
  ⟨pieces, false⟩

def breakOff : Rendering :=
  ⟨[], true⟩

/-- Nothing follows where a rendering breaks off. -/
def append (a b : Rendering) : Rendering :=
  if a.breaksOff then a else ⟨a.pieces ++ b.pieces, b.breaksOff⟩

instance : Append Rendering := ⟨append⟩

theorem breaksOff_append (a b : Rendering) :
    (a ++ b).breaksOff = (a.breaksOff || b.breaksOff) := by
  show (append a b).breaksOff = _
  cases h : a.breaksOff <;> simp [append, h]

theorem append_assoc (a b c : Rendering) : a ++ b ++ c = a ++ (b ++ c) := by
  show append (append a b) c = append a (append b c)
  cases ha : a.breaksOff <;> cases hb : b.breaksOff <;> simp [append, ha, hb]

def concat (parts : List Rendering) : Rendering :=
  parts.foldr (· ++ ·) nothing

/-- Looks something up before anything that needs it is written. -/
def withFound {α : Type} (found : Option α) (render : α → Rendering) : Rendering :=
  match found with
  | some a => render a
  | none => breakOff

/-- All that is written, up to where the rendering breaks off. -/
def writtenText (r : Rendering) : String :=
  String.join r.pieces

/-- The whole text of a rendering that does not break off. -/
def text? (r : Rendering) : Option String :=
  if r.breaksOff then none else some r.writtenText

end Rendering

end SparseProgram
