import Mathlib.Data.List.Forall2
import SparseProgram.Model.DualFailure
import SparseProgram.Model.Passes

/-!
# Moved bounds

What normalization changes, said of both borders of an interval alike: which bounds move, and what
their rows keep of them. Beside it stands normalization as a loop that changes the variables and the
rows together, one bound after the other.
-/

namespace SparseProgram

inductive Border where
  | lower
  | upper
  deriving DecidableEq

namespace Border

def unbounded : Border → Binary64
  | lower => .negativeInfinity
  | upper => .infinity

def relation : Border → Relation
  | lower => .greaterEqual
  | upper => .lessEqual

def suffix : Border → String
  | lower => "_lb"
  | upper => "_ub"

end Border

namespace Bounds

def bound (b : Bounds) : Border → Binary64
  | .lower => b.lower
  | .upper => b.upper

/-- The bound is neither missing nor a zero of either sign. -/
def Moves (b : Bounds) (border : Border) : Prop :=
  b.bound border ≠ border.unbounded ∧ ¬(b.bound border).IsEitherZero

instance (b : Bounds) (border : Border) : Decidable (b.Moves border) :=
  inferInstanceAs (Decidable (_ ∧ _))

/-- The borders whose bounds move, the lower one first. -/
def movedBorders (b : Bounds) : List Border :=
  [.lower, .upper].filter fun border => decide (b.Moves border)

end Bounds

/-- A variable as it was, but for its moved bounds, which are missing. -/
structure Variable.IsFreedFrom (w v : Variable) : Prop where
  index : w.index = v.index
  kind : w.kind = v.kind
  name : w.name = v.name
  value : w.value = v.value
  moved : ∀ border, v.bounds.Moves border → w.bounds.bound border = border.unbounded
  kept : ∀ border, ¬v.bounds.Moves border → w.bounds.bound border = v.bounds.bound border

variable {τ : Type} [Term τ]

namespace Model

/-- The bounds that move, in the order of the variables. -/
def movedBounds (m : Model τ) : List (Variable × Border) :=
  m.vars.flatMap fun v => v.bounds.movedBorders.map fun border => (v, border)

/-- Nothing but the moved bounds is changed, and each of them is one more row of one cell. -/
structure IsNormalFormOf (n m : Model τ) : Prop where
  isNormalized : n.isNormalized = true
  name : n.name = m.name
  objective : n.objective = m.objective
  vars : List.Forall₂ Variable.IsFreedFrom n.vars m.vars
  cells : n.constraints.cells
    = m.constraints.cells ++ m.movedBounds.mapIdx fun i (v, _) =>
        ⟨m.constraints.rightSides.length + i, Term.linear v.index, .one⟩
  relations : n.constraints.relations
    = m.constraints.relations ++ m.movedBounds.map fun (_, border) => border.relation
  rightSides : n.constraints.rightSides
    = m.constraints.rightSides ++ m.movedBounds.map fun (v, border) => v.bounds.bound border
  names : n.constraints.names
    = m.constraints.names ++ m.movedBounds.map fun (v, border) => v.name ++ border.suffix

end Model

/-! ## Normalization in place -/

namespace RowStore

def takeLower (s : RowStore τ) (v : Variable) : RowStore τ × Variable :=
  if v.bounds.lowerIsPlain then (s, v)
  else (s.push v.lowerRow, { v with bounds := { v.bounds with lower := .negativeInfinity } })

def takeUpper (s : RowStore τ) (v : Variable) : RowStore τ × Variable :=
  if v.bounds.upperIsPlain then (s, v)
  else (s.push v.upperRow, { v with bounds := { v.bounds with upper := .infinity } })

def takeBoth (s : RowStore τ) (v : Variable) : RowStore τ × Variable :=
  let (s, v) := s.takeLower v
  s.takeUpper v

def takeBounds : RowStore τ → List Variable → RowStore τ × List Variable
  | s, [] => (s, [])
  | s, v :: rest =>
      let (s, v) := s.takeBoth v
      let (s, rest) := s.takeBounds rest
      (s, v :: rest)

end RowStore

def Model.normalizeInPlace (m : Model τ) : Model τ :=
  let (constraints, vars) := m.constraints.takeBounds m.vars
  { m with vars := vars, constraints := constraints }

end SparseProgram
