import SparseProgram.Model.Basic
import SparseProgram.Semantics.Value

/-!
# Feasible points

What a model says about a point, in exact arithmetic: the values of its rows and its objective,
and whether the point satisfies every row and every bound. Integrality is a property of its own.
-/

namespace SparseProgram

/-- A value for every column. -/
abbrev Point := Nat → Rat

namespace Term

variable {τ : Type} [Term τ]

def valueAt (p : Point) (t : τ) : Rat :=
  p (columns t).1 * (columns t).2.elim 1 p

end Term

namespace Sense

/-- One for small objectives and minus one for large ones. -/
def sign : Sense → Rat
  | minimum => 1
  | maximum => -1

end Sense

namespace Relation

def Holds (relation : Relation) (value : Rat) (rightSide : Binary64) : Prop :=
  match relation with
  | lessEqual => rightSide.AboveRat value
  | greaterEqual => rightSide.BelowRat value
  | equal => rightSide.AboveRat value ∧ rightSide.BelowRat value

instance : (relation : Relation) → (value : Rat) → (rightSide : Binary64) →
    Decidable (relation.Holds value rightSide)
  | lessEqual, value, rightSide => inferInstanceAs (Decidable (rightSide.AboveRat value))
  | greaterEqual, value, rightSide => inferInstanceAs (Decidable (rightSide.BelowRat value))
  | equal, value, rightSide =>
      inferInstanceAs (Decidable (rightSide.AboveRat value ∧ rightSide.BelowRat value))

end Relation

namespace Bounds

def Contains (b : Bounds) (q : Rat) : Prop :=
  b.lower.BelowRat q ∧ b.upper.AboveRat q

instance (b : Bounds) (q : Rat) : Decidable (b.Contains q) :=
  inferInstanceAs (Decidable (_ ∧ _))

end Bounds

namespace VariableKind

def Allows : VariableKind → Rat → Prop
  | binary, q => q = 0 ∨ q = 1
  | ternary, q => q = 0 ∨ q = 1 ∨ q = 2
  | balancedTernary, q => q = -1 ∨ q = 0 ∨ q = 1
  | unsignedInteger, q => ∃ n : Nat, q = n
  | signedInteger, q => ∃ n : Int, q = n
  | percentage, q => 0 ≤ q ∧ q ≤ 1
  | unsignedContinuous, q => 0 ≤ q
  | continuous, _ => True

end VariableKind

variable {τ : Type} [Term τ]

def rowValue (p : Point) (cells : List (Cell τ)) : Rat :=
  (cells.map fun cell => cell.coefficient.value * Term.valueAt p cell.term).sum

namespace RowStore

def lines (s : RowStore τ) : List (List (Cell τ) × Relation × Binary64) :=
  s.slices.zip (s.relations.zip s.rightSides)

def Satisfies (s : RowStore τ) (p : Point) : Prop :=
  ∀ line ∈ s.lines, line.2.1.Holds (rowValue p line.1) line.2.2

instance (s : RowStore τ) (p : Point) : Decidable (s.Satisfies p) :=
  inferInstanceAs (Decidable (∀ line ∈ s.lines, _))

end RowStore

namespace Model

/-- All rows and all bounds hold. -/
def Feasible (m : Model τ) (p : Point) : Prop :=
  m.constraints.Satisfies p ∧ ∀ v ∈ m.vars, v.bounds.Contains (p v.index)

instance (m : Model τ) (p : Point) : Decidable (m.Feasible p) :=
  inferInstanceAs (Decidable (_ ∧ _))

/-- Every coordinate is a value of its variable's kind. -/
def InDomain (m : Model τ) (p : Point) : Prop :=
  ∀ v ∈ m.vars, v.kind.Allows (p v.index)

def objectiveValue (m : Model τ) (p : Point) : Rat :=
  (m.objective.cells.map fun cell => cell.coefficient.value * Term.valueAt p cell.term).sum

def Prefers (m : Model τ) (a b : Rat) : Prop :=
  match m.objective.sense with
  | .minimum => a < b
  | .maximum => b < a

omit [Term τ] in
theorem prefers_iff {m : Model τ} {a b : Rat} :
    m.Prefers a b ↔ m.objective.sense.sign * a < m.objective.sense.sign * b := by
  unfold Prefers
  cases m.objective.sense <;> simp [Sense.sign]

/-- Feasible, and no feasible point has a better value. -/
def IsOptimal (m : Model τ) (p : Point) : Prop :=
  m.Feasible p ∧ ∀ q, m.Feasible q → ¬m.Prefers (m.objectiveValue q) (m.objectiveValue p)

end Model

end SparseProgram
