import Mathlib.Data.List.Forall2
import SparseProgram.Model.Agreement
import SparseProgram.Model.Dual

/-!
# Reversed models

The same rows and bounds with the negated objective in the opposite sense, and what it is for one
model to say of negated points what another says of points.
-/

namespace SparseProgram

/-- How negated values compare to the negated right-hand side. -/
def Relation.mirror : Relation → Relation
  | lessEqual => greaterEqual
  | greaterEqual => lessEqual
  | equal => equal

/-- The bounds of negated values. -/
def Bounds.mirror (b : Bounds) : Bounds :=
  ⟨-b.upper, -b.lower⟩

/-- Only the bounds differ: they are the mirrored ones, where the signs of zeros do not count. -/
structure Variable.IsMirrorOf (w v : Variable) : Prop where
  index : w.index = v.index
  bounds : w.bounds.agrees v.bounds.mirror = true
  kind : w.kind = v.kind
  name : w.name = v.name
  value : w.value = v.value

namespace Model

variable {τ : Type}

def reversed (m : Model τ) : Model τ :=
  { m with
    objective :=
      ⟨m.objective.sense.reverse,
        m.objective.cells.map fun cell => { cell with coefficient := -cell.coefficient }⟩ }

/-- Cells of rows and of the objective stay as they are; all that values are compared to is negated,
where the signs of zeros do not count. -/
structure IsMirrorOf (n m : Model τ) : Prop where
  name : n.name = m.name
  vars : List.Forall₂ Variable.IsMirrorOf n.vars m.vars
  cells : n.constraints.cells = m.constraints.cells
  relations : n.constraints.relations = m.constraints.relations.map Relation.mirror
  rightSides : List.Forall₂ (fun a b => a.sameNumber (-b) = true)
    n.constraints.rightSides m.constraints.rightSides
  rowNames : n.constraints.names = m.constraints.names
  sense : n.objective.sense = m.objective.sense.reverse
  costs : n.objective.cells = m.objective.cells

end Model

end SparseProgram
