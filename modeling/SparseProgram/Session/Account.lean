import Mathlib.Algebra.GroupWithZero.Nat
import Mathlib.Data.List.Dedup
import SparseProgram.Session.Reporting

/-!
# Accounts

What operations are due to report, said of the models and snapshots that they are given and not of
what they leave: kinds, bounds, tokens and the terms of cells are counted where they stand.
-/

namespace SparseProgram

variable {τ : Type}

section Terms

variable [Term τ] [DecidableEq τ]

/-- The terms that cells resolve to, each of them once. -/
def Registry.distinctTerms (r : Registry) (cells : List (SymbolicCell τ)) : List τ :=
  (cells.filterMap fun cell => (r.term cell.monomial).toOption).dedup

/-- What is due when the snapshot compiles. Nothing is due where its tokens cannot be numbered. -/
def Snapshot.account (s : Snapshot τ) : List Event :=
  match Registry.ofTokens s.tokens with
  | .ok registry =>
      [.compiled s.tokens.length s.constraints.length
        (s.constraints.map fun c => (registry.distinctTerms c.cells).length).sum
        (registry.distinctTerms (s.goals.flatMap fun goal => goal.cells)).length s.effectiveSense]
  | .error _ => []

/-- The events that an operation on a model is due to report. -/
def Operation.due (m : Model τ) : Operation τ → List Event
  | .compile options snapshot =>
      match snapshot.compile options with
      | .ok _ => snapshot.account
      | .error _ => []
  | .normalize => [.normalized m.name m.movedBounds.length]
  | .relax => [.relaxed m.name (m.vars.countP fun v => v.kind.isIntegral)]
  | .pushRow _ => []

end Terms

def LinearOperation.due (m : Model Nat) : LinearOperation → List Event
  | .plain operation => operation.due m
  | .dual =>
      match m.dual with
      | .ok _ =>
          if ∃ v ∈ m.vars, v.kind.isIntegral = true then
            [.integralityIgnored m.name, .dualBuilt m.name m.constraints.size m.vars.length]
          else
            [.dualBuilt m.name m.constraints.size m.vars.length]
      | .error _ => []

namespace Operation

def levels [Term τ] : Operation τ → List String
  | .compile options snapshot =>
      match snapshot.compile options with
      | .ok _ => ["DEBUG"]
      | .error _ => []
  | .normalize | .relax => ["DEBUG"]
  | .pushRow _ => []

end Operation

def LinearOperation.levels (m : Model Nat) : LinearOperation → List String
  | .plain operation => operation.levels
  | .dual =>
      match m.dual with
      | .ok _ => if m.vars.any fun v => v.kind.isIntegral then ["WARN", "DEBUG"] else ["DEBUG"]
      | .error _ => []

namespace Session

variable {ω : Type}

def dueOver (perform : Session τ → ω → Session τ) (due : Model τ → ω → List Event) :
    Session τ → List (Action τ ω) → List Event
  | _, [] => []
  | s, .call operation :: rest =>
      due s.model operation ++ dueOver perform due (perform s operation) rest
  | s, .edit change :: rest => dueOver perform due (s.editModel change) rest

end Session

end SparseProgram
