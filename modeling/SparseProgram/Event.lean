import SparseProgram.Model.Dual
import SparseProgram.Model.Passes

/-!
# Events

What is reported about each step that succeeds.
-/

namespace SparseProgram

inductive Event where
  | compiled (vars rows nonzeros objectiveCells : Nat) (sense : Sense)
  | normalized (model : String) (rowsAdded : Nat)
  | relaxed (model : String) (count : Nat)
  | integralityIgnored (model : String)
  | dualBuilt (model : String) (vars rows : Nat)
  | exported (path : String)
  deriving DecidableEq

inductive EventField where
  | number (value : Nat)
  | text (value : String)
  deriving DecidableEq

namespace Event

def isWarning : Event → Bool
  | integralityIgnored _ => true
  | _ => false

def level (event : Event) : String :=
  if event.isWarning then "WARN" else "DEBUG"

def message : Event → String
  | compiled .. => "compiled model"
  | normalized .. => "normalized variable bounds"
  | relaxed .. => "relaxed variable types"
  | integralityIgnored _ =>
      "taking the dual of a model with integral variables; integrality is ignored"
  | dualBuilt .. => "built dual model"
  | exported _ => "exported model"

def fields : Event → List (String × EventField)
  | compiled vars rows nonzeros objectiveCells sense =>
      [("variables", .number vars), ("rows", .number rows), ("nonzeros", .number nonzeros),
        ("objective_cells", .number objectiveCells), ("category", .text (Named.name sense))]
  | normalized model rowsAdded => [("model", .text model), ("rows_added", .number rowsAdded)]
  | relaxed model count => [("model", .text model), ("relaxed", .number count)]
  | integralityIgnored model => [("model", .text model)]
  | dualBuilt model vars rows =>
      [("model", .text model), ("variables", .number vars), ("rows", .number rows)]
  | exported path => [("path", .text path)]

end Event

namespace Model

variable {τ : Type}

def compiledEvents (m : Model τ) : List Event :=
  [.compiled m.vars.length m.constraints.size m.constraints.cells.length
    m.objective.cells.length m.objective.sense]

def normalizedEvents [Term τ] (m : Model τ) : List Event :=
  [.normalized m.name (m.normalize.constraints.size - m.constraints.size)]

def relaxedEvents (m : Model τ) : List Event :=
  [.relaxed m.name m.relaxedCount]

/-- What is reported of building a dual, with a warning first if integrality is lost. -/
def dualEvents (m dual : Model Nat) : List Event :=
  (if m.containsIntegral then [.integralityIgnored m.name] else [])
    ++ [.dualBuilt m.name m.constraints.size dual.constraints.size]

end Model

end SparseProgram
