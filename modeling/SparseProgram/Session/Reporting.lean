import SparseProgram.Model.MovedBounds
import SparseProgram.Model.Placement
import SparseProgram.Session.Run

/-!
# Reporting

The operations step by step, as they work and report. An event is on record from the moment it is
reported, also if the operation that reported it comes to nothing.
-/

namespace SparseProgram

/-- An attempt that reports events. It may end in a failure, or without any outcome at all; what it
has reported by then stays reported. -/
abbrev Reporting (ε : Type) := ExceptT ε (OptionT (StateM (List Event)))

namespace Reporting

variable {ε α : Type}

/-- The outcome, if there is one, and all events that are on record then. -/
def outcome (x : Reporting ε α) (record : List Event) : Option (Except ε α) × List Event :=
  x.run.run record

def report (event : Event) : Reporting ε Unit :=
  modify (· ++ [event])

def reportIf (condition : Bool) (event : Event) : Reporting ε Unit := do
  if condition then report event

def ofOption (result : Option α) : Reporting ε α :=
  ExceptT.lift (OptionT.mk (pure result))

end Reporting

open Reporting (report reportIf ofOption)

variable {τ : Type}

namespace Snapshot

def compileReporting [Term τ] (options : CompileOptions) (s : Snapshot τ) :
    Reporting CompileError (Model τ) := do
  let model ← MonadExcept.ofExcept (s.compile options)
  report (.compiled model.vars.length model.constraints.size model.constraints.cells.length
    model.objective.cells.length model.objective.sense)
  return model

end Snapshot

namespace Variable

/-- Relaxes one variable after the other, and counts on for each kind that changes. -/
def relaxCounting : Nat → List Variable → Nat × List Variable
  | count, [] => (count, [])
  | count, v :: rest =>
      if v.kind.relaxed ≠ v.kind then
        let (count, rest) := relaxCounting (count + 1) rest
        (count, { v with kind := v.kind.relaxed } :: rest)
      else
        let (count, rest) := relaxCounting count rest
        (count, v :: rest)

end Variable

namespace Model

def normalizeReporting [Term τ] (m : Model τ) : Reporting Empty (Model τ) := do
  let before := m.constraints.size
  let normalized := m.normalizeInPlace
  report (.normalized m.name (normalized.constraints.size - before))
  return normalized

def relaxReporting (m : Model τ) : Reporting Empty (Model τ) := do
  let (relaxed, vars) := Variable.relaxCounting 0 m.vars
  report (.relaxed m.name relaxed)
  return { m with vars := vars }

def placeReporting (m : Model Nat) (relations : List Relation) :
    Reporting DualError (Model Nat) := do
  let columns ← ofOption m.placedColumns
  let costs ← ofOption m.placedCosts
  let constraints := RowStore.ofRows
    ((((m.vars.zip columns).zip relations).zip costs).map placedRow)
  report (.dualBuilt m.name m.constraints.size constraints.size)
  return {
    name := m.name ++ "-dual"
    vars := m.dualVariables
    constraints := constraints
    objective := m.dualObjective }

/-- The loss of integrality is reported as soon as every variable is known to have a dual row, and
the dual once its cells are placed. -/
def dualReporting (m : Model Nat) : Reporting DualError (Model Nat) :=
  match m.firstDefect with
  | some defect => throw (.invalid defect)
  | none => do
      let relations ← MonadExcept.ofExcept (m.vars.mapM (Variable.dualRelation m.objective.sense))
      reportIf m.containsIntegral (.integralityIgnored m.name)
      m.placeReporting relations

end Model

namespace Session

/-- What an attempt leaves behind: its result, if there is one, and its events in any case. -/
def conclude {ε α : Type} (s : Session τ) (attempt : Reporting ε α) (accept : α → Session τ) :
    Session τ :=
  match attempt.outcome s.events with
  | (some (.ok result), record) => { accept result with events := record }
  | (some (.error _), record) => { s with events := record }
  | (none, record) => { s with events := record }

def performReporting [Term τ] (s : Session τ) : Operation τ → Session τ
  | .compile options snapshot =>
      s.conclude (snapshot.compileReporting options) fun model =>
        { s with snapshot := snapshot, model := model }
  | .normalize => s.conclude s.model.normalizeReporting fun model => { s with model := model }
  | .relax => s.conclude s.model.relaxReporting fun model => { s with model := model }
  | .pushRow row => s.editModel (·.pushRow row)

def performLinearReporting (s : Session Nat) : LinearOperation → Session Nat
  | .plain operation => s.performReporting operation
  | .dual => s.conclude s.model.dualReporting fun model => { s with model := model }

end Session

/-! ## Runs -/

/-- An operation, or any change at all of the current model, of which nobody is told. -/
inductive Action (τ ω : Type) where
  | call (operation : ω)
  | edit (change : Model τ → Model τ)

namespace Session

variable {ω : Type}

def act (perform : Session τ → ω → Session τ) (s : Session τ) : Action τ ω → Session τ
  | .call operation => perform s operation
  | .edit change => s.editModel change

/-- Plays actions one after the other, where operations are performed as told. -/
def play (perform : Session τ → ω → Session τ) (s : Session τ) (actions : List (Action τ ω)) :
    Session τ :=
  actions.foldl (act perform) s

end Session

end SparseProgram
