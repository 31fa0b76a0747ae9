import SparseProgram.Model.Encoding

/-!
# What JSON text keeps of a model

The conditions for the JSON text of a model to be read back, and the model that is read then.
-/

namespace SparseProgram

open JsonCodec

def Term.Fits {τ : Type} [Term τ] (term : τ) : Prop :=
  ∀ column ∈ Term.columnList term, column < indexLimit

instance {τ : Type} [Term τ] (term : τ) : Decidable (Term.Fits term) :=
  inferInstanceAs (Decidable (∀ column ∈ Term.columnList term, column < indexLimit))

/-- A current value that is not finite is forgotten. -/
def Variable.withFiniteValue (v : Variable) : Variable :=
  { v with value := v.value.filter (·.isFinite) }

namespace Model

variable {τ : Type}

def withFiniteValues (m : Model τ) : Model τ :=
  { m with vars := m.vars.map Variable.withFiniteValue }

/-- All indices have 64 bits. -/
def IndicesFit [Term τ] (m : Model τ) : Prop :=
  (∀ v ∈ m.vars, v.index < indexLimit)
    ∧ (∀ cell ∈ m.constraints.cells, cell.row < indexLimit ∧ Term.Fits cell.term)
    ∧ ∀ cell ∈ m.objective.cells, Term.Fits cell.term

/-- All bounds, coefficients and right sides are finite. -/
def HasFiniteNumbers (m : Model τ) : Prop :=
  (∀ v ∈ m.vars, v.bounds.lower.isFinite = true ∧ v.bounds.upper.isFinite = true)
    ∧ (∀ cell ∈ m.constraints.cells, cell.coefficient.isFinite = true)
    ∧ (∀ rightSide ∈ m.constraints.rightSides, rightSide.isFinite = true)
    ∧ ∀ cell ∈ m.objective.cells, cell.coefficient.isFinite = true

instance [Term τ] (m : Model τ) : Decidable m.IndicesFit :=
  inferInstanceAs (Decidable (_ ∧ _ ∧ _))

instance (m : Model τ) : Decidable m.HasFiniteNumbers :=
  inferInstanceAs (Decidable (_ ∧ _ ∧ _ ∧ _))

end Model

end SparseProgram
