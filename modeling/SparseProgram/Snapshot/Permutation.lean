import Mathlib.Data.List.Forall2
import Mathlib.Logic.Equiv.Defs
import SparseProgram.Model.Embedding
import SparseProgram.Model.Shape

/-!
# Permuting registration

The tokens of a snapshot in another order, and what this does to a model: its columns move, and
with them the order of its terms.
-/

namespace SparseProgram

variable {τ : Type}

/-- Where a permutation of positions moves a column. Columns beyond all positions stay. -/
def movedColumn {count : Nat} (p : Equiv.Perm (Fin count)) (column : Nat) : Nat :=
  if h : column < count then p ⟨column, h⟩ else column

namespace Snapshot

/-- The token at each position moves to where the permutation takes the position. -/
def permute (s : Snapshot τ) (p : Equiv.Perm (Fin s.tokens.length)) : Snapshot τ :=
  { s with tokens := List.ofFn fun i => s.tokens[p.symm i] }

end Snapshot

variable [Term τ]

/-- Moves every column of a term; the columns of a product come out in order. -/
def Term.moveColumns (move : Nat → Nat) (t : τ) : τ :=
  match (replaceColumns (fun column => .ok (move column)) t : Except Empty τ) with
  | .ok moved => moved
  | .error e => e.elim

/-- `n` is `m` with its columns moved: the same program, with every row and the objective sorted
by the terms that come out. -/
structure Model.IsRearranged (m : Model τ) (move : Nat → Nat) (n : Model τ) : Prop where
  name : n.name = m.name
  vars_length : n.vars.length = m.vars.length
  vars : ∀ i v, m.vars[i]? = some v → n.vars[move i]? = some { v with index := move i }
  relations : n.constraints.relations = m.constraints.relations
  rightSides : n.constraints.rightSides = m.constraints.rightSides
  rowNames : n.constraints.names = m.constraints.names
  /-- Row by row, the cells are those of before in some order. -/
  rows : List.Forall₂ (fun old new => new.Perm (old.map (Cell.mapTerm (Term.moveColumns move))))
    m.constraints.slices n.constraints.slices
  rows_increasing : ∀ slice ∈ n.constraints.slices, StrictlyIncreasing (slice.map (·.term))
  /-- No cell stands outside the rows. -/
  cells : n.constraints.cells = n.constraints.slices.flatten
  sense : n.objective.sense = m.objective.sense
  objective : n.objective.cells.Perm (m.objective.mapTerms (Term.moveColumns move)).cells
  objective_increasing : StrictlyIncreasing (n.objective.cells.map (·.term))

end SparseProgram
