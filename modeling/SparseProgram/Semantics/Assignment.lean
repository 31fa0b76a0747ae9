import SparseProgram.Semantics.Feasible
import SparseProgram.Snapshot.Registry

/-!
# Assignments

What a snapshot says about values given to handles, before anything is compiled: the value of its
cells, and how much its goals want an assignment.
-/

namespace SparseProgram

/-- A value for every handle. -/
abbrev Assignment := Nat → Rat

variable {τ : Type} [Term τ]

/-- The sum of symbolic cells; a monomial is a term in handles. -/
def symbolicValue (a : Assignment) (cells : List (SymbolicCell τ)) : Rat :=
  (cells.map fun cell => cell.coefficient.value * Term.valueAt a cell.monomial).sum

namespace Goal

def utility (a : Assignment) (goal : Goal τ) : Rat :=
  match goal.sense with
  | .maximum => symbolicValue a goal.cells
  | .minimum => -symbolicValue a goal.cells

end Goal

namespace Snapshot

/-- Values to be large less values to be small. -/
def utility (a : Assignment) (s : Snapshot τ) : Rat :=
  (s.goals.map (Goal.utility a)).sum

/-- All token bounds and all symbolic constraints hold. -/
def Feasible (s : Snapshot τ) (a : Assignment) : Prop :=
  (∀ token ∈ s.tokens, token.bounds.Contains (a token.handle))
    ∧ ∀ c ∈ s.constraints, c.relation.Holds (symbolicValue a c.cells) c.rightSide

instance (s : Snapshot τ) (a : Assignment) : Decidable (s.Feasible a) :=
  inferInstanceAs (Decidable (_ ∧ _))

/-- The point that gives each column the value of the token registered there. -/
def pointOf (s : Snapshot τ) (a : Assignment) : Point :=
  fun column => match s.tokens[column]? with
    | some token => a token.handle
    | none => 0

end Snapshot

end SparseProgram
