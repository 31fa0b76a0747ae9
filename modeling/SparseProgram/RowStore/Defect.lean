import SparseProgram.RowStore.Basic

/-!
# Defects

Why a row store or a model is malformed, and the scan of a row store that finds the first defect.
-/

namespace SparseProgram

inductive Defect where
  | variableIndex (position index : Nat)
  | rowArrays (relations rightSides names : Nat)
  | rowOutOfRange (row rows : Nat)
  | rowOrder (row previous : Nat)
  | columnOutOfRange (column columns : Nat)
  deriving DecidableEq

namespace Defect

def message : Defect → String
  | variableIndex position index => s!"variable at position {position} has index {index}"
  | rowArrays relations rightSides names =>
      s!"row arrays disagree: {relations} signs, {rightSides} right-hand sides, {names} names"
  | rowOutOfRange row rows => s!"cell references row {row} but the model has {rows} rows"
  | rowOrder row previous => s!"cell for row {row} follows a cell for row {previous}"
  | columnOutOfRange column columns =>
      s!"cell references column {column} but the model has {columns} variables"

end Defect

variable {τ : Type} [Term τ]

def termDefect (columns : Nat) (term : τ) : Option Defect :=
  (Term.columnList term).findSome? fun column =>
    if columns ≤ column then some (.columnOutOfRange column columns) else none

def cellDefect (rows columns previous : Nat) (cell : Cell τ) : Option Defect :=
  if rows ≤ cell.row then some (.rowOutOfRange cell.row rows)
  else if cell.row < previous then some (.rowOrder cell.row previous)
  else termDefect columns cell.term

def firstCellDefect (rows columns : Nat) : Nat → List (Cell τ) → Option Defect
  | _, [] => none
  | previous, cell :: rest =>
      (cellDefect rows columns previous cell).or (firstCellDefect rows columns cell.row rest)

namespace RowStore

def arraysDefect (s : RowStore τ) : Option Defect :=
  if s.relations.length = s.size ∧ s.names.length = s.size then none
  else some (.rowArrays s.relations.length s.size s.names.length)

/-- The first defect of a store for a model of `columns` variables. -/
def firstDefect (s : RowStore τ) (columns : Nat) : Option Defect :=
  s.arraysDefect.or (firstCellDefect s.size columns 0 s.cells)

end RowStore

end SparseProgram
