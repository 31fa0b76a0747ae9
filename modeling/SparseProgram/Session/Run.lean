import SparseProgram.Session

/-!
# Runs

Sequences of operations on a session. One that fails leaves the session as it is.
-/

namespace SparseProgram

inductive Operation (τ : Type) where
  | compile (options : CompileOptions) (snapshot : Snapshot τ)
  | normalize
  | relax
  | pushRow (row : Row τ)

inductive LinearOperation where
  | plain (operation : Operation Nat)
  | dual

namespace Session

variable {τ : Type} [Term τ]

def perform (s : Session τ) : Operation τ → Session τ
  | .compile options snapshot =>
      match ({ s with snapshot := snapshot } : Session τ).compile options with
      | .ok next => next
      | .error _ => s
  | .normalize => s.normalize
  | .relax => s.relax
  | .pushRow row => s.editModel (·.pushRow row)

def performLinear (s : Session Nat) : LinearOperation → Session Nat
  | .plain operation => s.perform operation
  | .dual =>
      match s.dual with
      | .ok next => next
      | .error _ => s

def run (s : Session τ) (operations : List (Operation τ)) : Session τ :=
  operations.foldl perform s

def runLinear (s : Session Nat) (operations : List LinearOperation) : Session Nat :=
  operations.foldl performLinear s

end Session

end SparseProgram
