import SparseProgram.Semantics.Feasible

/-!
# Solutions

The points that satisfy a model together with the kinds of its variables, and when a model is a
relaxation of another one.
-/

namespace SparseProgram

/-- A variable as it was, but for its kind. -/
structure Variable.DiffersInKind (w v : Variable) : Prop where
  index : w.index = v.index
  bounds : w.bounds = v.bounds
  name : w.name = v.name
  value : w.value = v.value

variable {τ : Type} [Term τ]

namespace Model

/-- The points that satisfy every row and every bound with values of the variables' kinds. -/
def solutions (m : Model τ) : Set Point :=
  {p | m.Feasible p ∧ m.InDomain p}

/-- Nothing but kinds is changed, no solution is lost and none costs more or less, and the kinds
that remain have no gaps. -/
structure IsRelaxationOf (n m : Model τ) : Prop where
  name : n.name = m.name
  constraints : n.constraints = m.constraints
  objective : n.objective = m.objective
  vars : List.Forall₂ Variable.DiffersInKind n.vars m.vars
  solutions : m.solutions ⊆ n.solutions
  objectiveValue : ∀ p, n.objectiveValue p = m.objectiveValue p
  notIntegral : n.containsIntegral = false
  intervals : ∀ v ∈ n.vars, Convex Rat {q : Rat | v.kind.Allows q}

end Model

end SparseProgram
