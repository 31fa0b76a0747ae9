import SparseProgram.Model.Dual

/-!
# Placed duals

A dual taken in place: every column has a slot from the start, and each cell goes into the slot of
its column. There is no outcome at all if a cell has no slot.
-/

namespace SparseProgram

/-- Updates slots, one item after the other at its position. Positions without a slot are fatal. -/
def place {α β : Type} (position : α → Nat) (update : β → α → β) (slots : List β)
    (items : List α) : Option (List β) :=
  items.foldlM (fun slots item => do
    let held ← slots[position item]?
    return slots.set (position item) (update held item)) slots

namespace Variable

/-- The relation of the dual row of a variable, if it has one. -/
def dualRelation (sense : Sense) (v : Variable) : Except DualError Relation :=
  match sense.dualRelation v.shape with
  | some relation => .ok relation
  | none => .error v.dualError

end Variable

namespace Model

def placedColumns (m : Model Nat) : Option (List (List (Nat × Binary64))) :=
  place (·.term) (fun column cell => column ++ [(cell.row, cell.coefficient)])
    (List.replicate m.vars.length []) m.constraints.cells

def placedCosts (m : Model Nat) : Option (List Binary64) :=
  place (·.term) (fun sum cell => sum + cell.coefficient)
    (List.replicate m.vars.length .zero) m.objective.cells

def placedRow : ((Variable × List (Nat × Binary64)) × Relation) × Binary64 → Row Nat
  | (((v, column), relation), cost) => ⟨column, relation, cost, v.name ++ "_dual"⟩

/-- The gate comes first, then the relations of all rows, and only then are cells placed. -/
def placedDual (m : Model Nat) : Option (Except DualError (Model Nat)) :=
  match m.firstDefect with
  | some defect => some (.error (.invalid defect))
  | none =>
      match m.vars.mapM (Variable.dualRelation m.objective.sense) with
      | .error e => some (.error e)
      | .ok relations => do
          let columns ← m.placedColumns
          let costs ← m.placedCosts
          return .ok {
            name := m.name ++ "-dual"
            vars := m.dualVariables
            constraints := .ofRows ((((m.vars.zip columns).zip relations).zip costs).map placedRow)
            objective := m.dualObjective }

end Model

end SparseProgram
