import SparseProgram.Model.Basic
import SparseProgram.Snapshot.Basic

/-!
# Changing terms

Models and snapshots with every term replaced. With `QuadraticTerm.linear` a linear model becomes
a quadratic one.
-/

namespace SparseProgram

variable {τ σ : Type}

namespace Cell

def mapTerm (f : τ → σ) (cell : Cell τ) : Cell σ :=
  ⟨cell.row, f cell.term, cell.coefficient⟩

end Cell

namespace RowStore

def mapTerms (f : τ → σ) (s : RowStore τ) : RowStore σ :=
  ⟨s.cells.map (Cell.mapTerm f), s.relations, s.rightSides, s.names⟩

end RowStore

namespace Objective

def mapTerms (f : τ → σ) (o : Objective τ) : Objective σ :=
  ⟨o.sense, o.cells.map fun cell => ⟨f cell.term, cell.coefficient⟩⟩

end Objective

namespace Model

def mapTerms (f : τ → σ) (m : Model τ) : Model σ :=
  ⟨m.name, m.vars, m.constraints.mapTerms f, m.objective.mapTerms f⟩

end Model

namespace Snapshot

def mapCells (f : τ → σ) (cells : List (SymbolicCell τ)) : List (SymbolicCell σ) :=
  cells.map fun cell => ⟨cell.coefficient, f cell.monomial⟩

def mapMonomials (f : τ → σ) (s : Snapshot τ) : Snapshot σ where
  name := s.name
  sense := s.sense
  tokens := s.tokens
  constraints := s.constraints.map fun c => ⟨mapCells f c.cells, c.relation, c.rightSide, c.name⟩
  goals := s.goals.map fun g => ⟨mapCells f g.cells, g.sense, g.name⟩

end Snapshot

end SparseProgram
