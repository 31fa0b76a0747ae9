import SparseProgram.First
import SparseProgram.Model.Shape

/-!
# First defects

Which defect a malformed model is due, whatever else is wrong with it: variables come before arrays,
these before the cells of the rows, and the objective comes last. A cell is due a defect only after
all cells before it fit.
-/

namespace SparseProgram

variable {τ : Type} [Term τ]

/-- Cells in order of their rows that refer to rows and columns that exist. -/
def CellsFit (rows columns : Nat) (cells : List (Cell τ)) : Prop :=
  RowsInOrder cells ∧ ∀ cell ∈ cells, cell.row < rows ∧ Term.InRange columns cell.term

/-- The first of the columns of a term that does not exist. -/
def IsFirstStray (columns : Nat) (t : τ) (column : Nat) : Prop :=
  IsFirst (columns ≤ ·) (Term.columnList t) column

/-- The defect of the first cell that does not fit. -/
inductive IsFirstCellDefect (rows columns : Nat) (cells : List (Cell τ)) : Defect → Prop
  | row (before after : List (Cell τ)) (cell : Cell τ) :
      cells = before ++ cell :: after →
      CellsFit rows columns before →
      rows ≤ cell.row →
      IsFirstCellDefect rows columns cells (.rowOutOfRange cell.row rows)
  | order (before after : List (Cell τ)) (previous cell : Cell τ) :
      cells = before ++ previous :: cell :: after →
      CellsFit rows columns (before ++ [previous]) →
      cell.row < rows →
      cell.row < previous.row →
      IsFirstCellDefect rows columns cells (.rowOrder cell.row previous.row)
  | column (before after : List (Cell τ)) (cell : Cell τ) (column : Nat) :
      cells = before ++ cell :: after →
      CellsFit rows columns before →
      cell.row < rows →
      RowsInOrder (before ++ [cell]) →
      IsFirstStray columns cell.term column →
      IsFirstCellDefect rows columns cells (.columnOutOfRange column columns)

namespace Model

/-- Every variable stands at its index. -/
def InPlace (m : Model τ) : Prop :=
  ∀ entry ∈ m.vars.zipIdx, entry.1.index = entry.2

inductive IsFirstDefect (m : Model τ) : Defect → Prop
  | misplaced (v : Variable) (position : Nat) :
      IsFirst (fun entry => entry.1.index ≠ entry.2) m.vars.zipIdx (v, position) →
      m.IsFirstDefect (.variableIndex position v.index)
  | arrays :
      m.InPlace →
      ¬m.constraints.ArraysAgree →
      m.IsFirstDefect
        (.rowArrays m.constraints.relations.length m.constraints.rightSides.length
          m.constraints.names.length)
  | cell (defect : Defect) :
      m.InPlace →
      m.constraints.ArraysAgree →
      IsFirstCellDefect m.constraints.size m.vars.length m.constraints.cells defect →
      m.IsFirstDefect defect
  | objective (cell : ObjectiveCell τ) (column : Nat) :
      m.InPlace →
      m.constraints.WellFormed m.vars.length →
      IsFirst (fun cell => ¬Term.InRange m.vars.length cell.term) m.objective.cells cell →
      IsFirstStray m.vars.length cell.term column →
      m.IsFirstDefect (.columnOutOfRange column m.vars.length)

end Model

end SparseProgram
