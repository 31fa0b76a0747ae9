import SparseProgram.LpText.Rendering
import SparseProgram.Model.Basic
import SparseProgram.Number.Shortest

/-!
# LP text

The layout of a model: sense and objective, rows, bounds, and lists of the integral variables.
Every term carries its sign; a magnitude of one is left out and cells of zero are skipped. Models
with products list their binary variables.
-/

namespace SparseProgram

open Rendering

/-- The names of a term's columns. They are all looked up before one is written. -/
def renderNames (vars : List Variable) (columns : List Nat) : Rendering :=
  withFound (columns.mapM fun column => vars[column]?) fun found =>
    ofPieces ((found.map (·.name)).intersperse " * ")

def renderMagnitude (magnitude : Binary64) : Rendering :=
  if magnitude.sameNumber .one then nothing else ofPieces [magnitude.text, " "]

/-- A signed term; nothing for a coefficient of zero. NaN counts as positive. -/
def renderTerm {τ : Type} [Term τ] (vars : List Variable) (term : τ)
    (coefficient : Binary64) : Rendering :=
  if coefficient.isZero then nothing
  else
    ofPieces [if coefficient.isNegative then " - " else " + "]
      ++ renderMagnitude coefficient.abs
      ++ renderNames vars (Term.columnList term)

namespace RowStore

variable {τ : Type} [Term τ]

/-- The terms of a row, or a zero if there are none. -/
def renderCells (vars : List Variable) (cells : List (Cell τ)) : Rendering :=
  concat (cells.map fun cell => renderTerm vars cell.term cell.coefficient)
    ++ (if cells.all (·.coefficient.isZero) then ofPieces [" 0"] else nothing)

/-- The line of a row. Its name is looked up first, its relation after its terms. -/
def renderRow (s : RowStore τ) (vars : List Variable) (row : Nat) (cells : List (Cell τ))
    (rightSide : Binary64) : Rendering :=
  withFound s.names[row]? fun name =>
    ofPieces [" ", name, ":"]
      ++ renderCells vars cells
      ++ withFound s.relations[row]? fun relation =>
          ofPieces [" ", relation.symbol, " ", rightSide.text, "\n"]

def renderRows (s : RowStore τ) (vars : List Variable) : Rendering :=
  concat ((s.slices.zip s.rightSides).mapIdx fun row (cells, rightSide) =>
    s.renderRow vars row cells rightSide)

end RowStore

namespace Variable

def renderBounds (v : Variable) : Rendering :=
  let lower := v.bounds.lower.text
  let upper := v.bounds.upper.text
  match v.bounds.lowerIsFree, v.bounds.upperIsFree with
  | true, true => ofPieces [" ", v.name, " free", "\n"]
  | true, false => ofPieces [" ", v.name, " <= ", upper, "\n"]
  | false, true => ofPieces [" ", v.name, " >= ", lower, "\n"]
  | false, false =>
      if v.bounds.isFixed then ofPieces [" ", v.name, " = ", lower, "\n"]
      else ofPieces [" ", lower, " <= ", v.name, " <= ", upper, "\n"]

end Variable

def renderNameList (title : String) (vars : List Variable) : Rendering :=
  ofPieces ([title, "\n"] ++ (vars.flatMap fun v => [" ", v.name]) ++ ["\n"])

namespace Model

variable {τ : Type} [Term τ]

def renderObjective (m : Model τ) : Rendering :=
  ofPieces [Named.name m.objective.sense, "\n"]
    ++ concat (m.objective.cells.map fun cell =>
        renderTerm m.vars cell.term cell.coefficient)
    ++ ofPieces ["\n\n"]

def renderBinaries (m : Model τ) : Rendering :=
  if Term.isQuadratic τ && m.containsBinary then
    renderNameList "Binaries" (m.vars.filter (·.kind.isBinary))
  else nothing

def renderGenerals (m : Model τ) : Rendering :=
  if m.containsGeneral then
    renderNameList "Generals" (m.vars.filter (·.kind.isGeneral))
  else nothing

def render (m : Model τ) : Rendering :=
  m.renderObjective
    ++ ofPieces ["Subject To\n"]
    ++ m.constraints.renderRows m.vars
    ++ ofPieces ["\n", "Bounds\n"]
    ++ concat (m.vars.map Variable.renderBounds)
    ++ ofPieces ["\n"]
    ++ m.renderBinaries
    ++ m.renderGenerals
    ++ ofPieces ["End\n"]

/-- The LP text of a model without dangling references. -/
def lpText? (m : Model τ) : Option String :=
  m.render.text?

end Model

end SparseProgram
