import SparseProgram.Model.DualFailure

/-!
# Dangling references

What keeps a model from having a text: a row without a name or a relation, or a term of a missing
column. Terms whose coefficient is a zero are not written, and cells that belong to no slice are
never come to, so neither of them counts.
-/

namespace SparseProgram

variable {τ : Type} [Term τ]

/-- A first or second column of the term does not exist. -/
def Term.Dangles (columns : Nat) (t : τ) : Prop :=
  ∃ column ∈ columnList t, columns ≤ column

instance (columns : Nat) (t : τ) : Decidable (Term.Dangles columns t) :=
  inferInstanceAs (Decidable (∃ column ∈ Term.columnList t, columns ≤ column))

/-- A reference to nothing that the text of a model comes to. NaN is no zero. -/
inductive Model.ReachesDangling (m : Model τ) : Prop
  | rowName :
      m.constraints.names.length < m.constraints.rightSides.length →
      m.ReachesDangling
  | rowRelation :
      m.constraints.relations.length < m.constraints.rightSides.length →
      m.ReachesDangling
  | objective (cell : ObjectiveCell τ) :
      cell ∈ m.objective.cells →
      ¬cell.coefficient.IsEitherZero →
      Term.Dangles m.vars.length cell.term →
      m.ReachesDangling
  | row (slice : List (Cell τ)) (cell : Cell τ) :
      slice ∈ m.constraints.slices →
      cell ∈ slice →
      ¬cell.coefficient.IsEitherZero →
      Term.Dangles m.vars.length cell.term →
      m.ReachesDangling

end SparseProgram
