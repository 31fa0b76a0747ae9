import SparseProgram.Model.Agreement
import SparseProgram.Model.Dual
import SparseProgram.Model.Passes

/-!
# Indiscernible models

What models that agree have in common, and agreement of what comes out of duality. A model agrees
with itself as long as it holds no NaN.
-/

namespace SparseProgram

namespace DualError

def agrees : DualError → DualError → Bool
  | invalid d, invalid e => d == e
  | fixedAtZero a, fixedAtZero b => a == b
  | notNormalized a b, notNormalized c d => a == c && b.agrees d
  | _, _ => false

end DualError

/-- Two failures or two results that agree. -/
def agreeAttempt {ε α : Type} (failures : ε → ε → Bool) (results : α → α → Bool) :
    Except ε α → Except ε α → Bool
  | .ok a, .ok b => results a b
  | .error d, .error e => failures d e
  | _, _ => false

variable {τ : Type}

namespace Model

structure NanFree (m : Model τ) : Prop where
  bounds : ∀ v ∈ m.vars, v.bounds.lower ≠ .nan ∧ v.bounds.upper ≠ .nan
  values : ∀ v ∈ m.vars, v.value ≠ some .nan
  coefficients : ∀ cell ∈ m.constraints.cells, cell.coefficient ≠ .nan
  rightSides : ∀ rightSide ∈ m.constraints.rightSides, rightSide ≠ .nan
  costs : ∀ cell ∈ m.objective.cells, cell.coefficient ≠ .nan

/-- Nothing that is read off or made of the one model tells it from the other. -/
structure Indiscernible [DecidableEq τ] [Term τ] (m n : Model τ) : Prop where
  firstDefect : m.firstDefect = n.firstDefect
  isNormalized : m.isNormalized = n.isNormalized
  shapes : m.vars.map Variable.shape = n.vars.map Variable.shape
  slices : agreeAll (agreeAll Cell.agrees) m.constraints.slices n.constraints.slices = true
  normalize : m.normalize.agrees n.normalize = true
  relax : m.relax.agrees n.relax = true

end Model

end SparseProgram
