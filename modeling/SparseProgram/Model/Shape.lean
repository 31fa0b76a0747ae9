import SparseProgram.Model.Basic

/-!
# Well-formed and canonical models

The conditions that the search for a first defect decides, said of all cells at once, and the
stronger form in which every row lists each of its terms once.
-/

namespace SparseProgram

variable {τ : Type} [Term τ]

/-- Row numbers do not decrease along the cells. -/
def RowsInOrder (cells : List (Cell τ)) : Prop :=
  cells.Pairwise fun a b => a.row ≤ b.row

def StrictlyIncreasing (terms : List τ) : Prop :=
  terms.Pairwise fun s t => Term.before s t = true

namespace Term

/-- A product names its columns in order. -/
def IsSorted (t : τ) : Prop :=
  ∀ second ∈ (columns t).2, (columns t).1 ≤ second

def InRange (bound : Nat) (t : τ) : Prop :=
  ∀ column ∈ columnList t, column < bound

end Term

namespace RowStore

/-- The arrays of a store have one length. -/
def ArraysAgree (s : RowStore τ) : Prop :=
  s.relations.length = s.size ∧ s.names.length = s.size

def WellFormed (s : RowStore τ) (columns : Nat) : Prop :=
  s.ArraysAgree ∧ RowsInOrder s.cells
    ∧ ∀ cell ∈ s.cells, cell.row < s.size ∧ Term.InRange columns cell.term

end RowStore

namespace Model

def WellFormed (m : Model τ) : Prop :=
  (∀ position, (h : position < m.vars.length) → m.vars[position].index = position)
    ∧ m.constraints.WellFormed m.vars.length
    ∧ ∀ cell ∈ m.objective.cells, Term.InRange m.vars.length cell.term

/-- Well formed, with every term once and in order, and with bounds in order. -/
def Canonical (m : Model τ) : Prop :=
  m.firstDefect = none
    ∧ (∀ slice ∈ m.constraints.slices, StrictlyIncreasing (slice.map (·.term)))
    ∧ StrictlyIncreasing (m.objective.cells.map (·.term))
    ∧ (∀ v ∈ m.vars, v.bounds.isOrdered = true)
    ∧ (∀ cell ∈ m.constraints.cells, Term.IsSorted cell.term)
    ∧ ∀ cell ∈ m.objective.cells, Term.IsSorted cell.term

end Model

end SparseProgram
