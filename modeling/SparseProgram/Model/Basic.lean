import SparseProgram.RowStore.Defect
import SparseProgram.Variable.Basic

/-!
# Models

Variables, constraint rows and an objective. A model is well formed if it has no first defect:
every variable stands at its index and every cell refers to a row and to columns that exist.
-/

namespace SparseProgram

inductive Sense where
  | minimum
  | maximum
  deriving DecidableEq

namespace Sense

instance : Named Sense where
  members := [minimum, maximum]
  name
    | minimum => "Minimum"
    | maximum => "Maximum"

def reverse : Sense → Sense
  | minimum => maximum
  | maximum => minimum

@[simp] theorem reverse_reverse (sense : Sense) : sense.reverse.reverse = sense := by
  cases sense <;> rfl

end Sense

structure ObjectiveCell (τ : Type) where
  term : τ
  coefficient : Binary64
  deriving DecidableEq

structure Objective (τ : Type) where
  sense : Sense
  cells : List (ObjectiveCell τ)
  deriving DecidableEq

structure Model (τ : Type) where
  name : String
  vars : List Variable
  constraints : RowStore τ
  objective : Objective τ
  deriving DecidableEq

def firstMisplaced (position : Nat) : List Variable → Option Defect
  | [] => none
  | v :: rest =>
      if v.index = position then firstMisplaced (position + 1) rest
      else some (.variableIndex position v.index)

namespace Model

variable {τ : Type}

def empty : Model τ :=
  ⟨"", [], .empty, ⟨.minimum, []⟩⟩

def containsBinary (m : Model τ) : Bool :=
  m.vars.any (·.kind.isBinary)

def containsIntegral (m : Model τ) : Bool :=
  m.vars.any (·.kind.isIntegral)

def containsGeneral (m : Model τ) : Bool :=
  m.vars.any (·.kind.isGeneral)

/-- Every bound is either missing or zero. -/
def isNormalized (m : Model τ) : Bool :=
  m.vars.all (·.bounds.isPlain)

def pushRow (m : Model τ) (row : Row τ) : Model τ :=
  { m with constraints := m.constraints.push row }

/-- Defects of the variables come before those of the rows, and the objective's come last. -/
def firstDefect [Term τ] (m : Model τ) : Option Defect :=
  (firstMisplaced 0 m.vars).or
    ((m.constraints.firstDefect m.vars.length).or
      (m.objective.cells.findSome? fun cell => termDefect m.vars.length cell.term))

end Model

end SparseProgram
