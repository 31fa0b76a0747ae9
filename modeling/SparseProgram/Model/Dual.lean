import SparseProgram.Model.Basic
import SparseProgram.Number.Shortest

/-!
# Linear duals

The dual of a linear model whose variables are free or bounded by zero on one side. Rows become
variables, columns become rows, right-hand sides and objective coefficients change places, and the
sense is reversed. Integrality is ignored.
-/

namespace SparseProgram

inductive DualError where
  | invalid (defect : Defect)
  | fixedAtZero (name : String)
  | notNormalized (name : String) (bounds : Bounds)
  deriving DecidableEq

namespace DualError

def message : DualError → String
  | invalid _ => "model is not a valid primal"
  | fixedAtZero name => s!"variable `{name}` is fixed at zero and has no dual row"
  | notNormalized name bounds =>
      s!"variable `{name}` has bounds [{bounds.lower.text}, {bounds.upper.text}]; "
        ++ "normalize the model before taking its dual"

end DualError

namespace Sense

/-- The relation of the dual row of a variable, by the sense of its model. -/
def dualRelation : Sense → BoundShape → Option Relation
  | _, .free => some .equal
  | minimum, .nonNegative => some .lessEqual
  | maximum, .nonPositive => some .lessEqual
  | minimum, .nonPositive => some .greaterEqual
  | maximum, .nonNegative => some .greaterEqual
  | _, .other => none

/-- The bounds of the dual variable of a row, by the sense of its model. -/
def dualBounds : Sense → Relation → Bounds
  | _, .equal => .free
  | minimum, .lessEqual => ⟨.negativeInfinity, .zero⟩
  | maximum, .greaterEqual => ⟨.negativeInfinity, .zero⟩
  | minimum, .greaterEqual => ⟨.zero, .infinity⟩
  | maximum, .lessEqual => ⟨.zero, .infinity⟩

end Sense

namespace Variable

def dualError (v : Variable) : DualError :=
  if v.bounds.lower.isZero && v.bounds.upper.isZero then .fixedAtZero v.name
  else .notNormalized v.name v.bounds

end Variable

namespace Model

/-- The cells of one column with their rows, in the order of the rows' cells. -/
def column (m : Model Nat) (j : Nat) : List (Nat × Binary64) :=
  (m.constraints.cells.filter (·.term == j)).map fun cell => (cell.row, cell.coefficient)

/-- The objective coefficients of one column, added to zero from left to right. -/
def cost (m : Model Nat) (j : Nat) : Binary64 :=
  (m.objective.cells.filter (·.term == j)).foldl (fun sum cell => sum + cell.coefficient) .zero

def dualRow (m : Model Nat) (v : Variable) (j : Nat) : Except DualError (Row Nat) :=
  match m.objective.sense.dualRelation v.shape with
  | some relation => .ok ⟨m.column j, relation, m.cost j, v.name ++ "_dual"⟩
  | none => .error v.dualError

def dualVariables (m : Model Nat) : List Variable :=
  (m.constraints.relations.zip m.constraints.names).mapIdx fun row (relation, name) =>
    ⟨row, m.objective.sense.dualBounds relation, .continuous, name ++ "_dual", none⟩

def dualObjective (m : Model Nat) : Objective Nat where
  sense := m.objective.sense.reverse
  cells := m.constraints.rightSides.mapIdx fun row rightSide => ⟨row, rightSide⟩

def dual (m : Model Nat) : Except DualError (Model Nat) :=
  match m.firstDefect with
  | some defect => .error (.invalid defect)
  | none => do
      let rows ← m.vars.zipIdx.mapM fun (v, j) => m.dualRow v j
      return {
        name := m.name ++ "-dual"
        vars := m.dualVariables
        constraints := .ofRows rows
        objective := m.dualObjective }

end Model

end SparseProgram
