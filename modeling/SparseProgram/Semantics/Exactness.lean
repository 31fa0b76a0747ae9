import SparseProgram.Semantics.Assignment

/-!
# Exactness

Conditions under which stored numbers mean exact ones: the data of a model are finite, bounds are
finite or missing, and the cells of a snapshot merge without rounding.
-/

namespace SparseProgram

namespace Binary64

/-- No sum rounds when numbers are added to a start from left to right. -/
def SumsExactly : Binary64 → List Binary64 → Prop
  | _, [] => True
  | start, x :: rest => start.AddsExactly x ∧ SumsExactly (start + x) rest

instance decidableSumsExactly : (start : Binary64) → (numbers : List Binary64) →
    Decidable (SumsExactly start numbers)
  | _, [] => .isTrue trivial
  | start, x :: rest =>
      have := decidableSumsExactly (start + x) rest
      inferInstanceAs (Decidable (_ ∧ _))

/-- Two numbers that compare equal, or NaN twice. -/
def Matches (x y : Binary64) : Prop :=
  x.sameNumber y = true ∨ x = nan ∧ y = nan

end Binary64

namespace Bounds

/-- Each bound is finite or missing. -/
def IsInterval (b : Bounds) : Prop :=
  (b.lower.isFinite = true ∨ b.lower = .negativeInfinity)
    ∧ (b.upper.isFinite = true ∨ b.upper = .infinity)

instance (b : Bounds) : Decidable b.IsInterval :=
  inferInstanceAs (Decidable ((_ ∨ _) ∧ (_ ∨ _)))

end Bounds

variable {τ : Type}

/-- Coefficients and right-hand sides are finite. -/
structure Model.FiniteData (m : Model τ) : Prop where
  coefficients : ∀ cell ∈ m.constraints.cells, cell.coefficient.isFinite = true
  rightSides : ∀ rightSide ∈ m.constraints.rightSides, rightSide.isFinite = true
  costs : ∀ cell ∈ m.objective.cells, cell.coefficient.isFinite = true

/-- The cells of a goal, negated for an objective of the other sense. -/
def Goal.foldedCells (sense : Sense) (goal : Goal τ) : List (SymbolicCell τ) :=
  if goal.sense = sense then goal.cells
  else goal.cells.map fun cell => { cell with coefficient := -cell.coefficient }

/-- The cells of all goals for the one objective. -/
def Snapshot.foldedCells (s : Snapshot τ) : List (SymbolicCell τ) :=
  s.goals.flatMap (Goal.foldedCells s.effectiveSense)

variable [Term τ]

/-- The coefficients of the cells whose monomials are like a given one. -/
def likeCoefficients (monomial : τ) (cells : List (SymbolicCell τ)) : List Binary64 :=
  (cells.filter fun cell =>
    Term.sortedColumns cell.monomial == Term.sortedColumns monomial).map (·.coefficient)

/-- All coefficients are finite, and no addition rounds when like cells are merged in their order. -/
def MergesExactly (cells : List (SymbolicCell τ)) : Prop :=
  ∀ cell ∈ cells, Binary64.SumsExactly .zero (likeCoefficients cell.monomial cells)

instance (cells : List (SymbolicCell τ)) : Decidable (MergesExactly cells) :=
  inferInstanceAs (Decidable (∀ cell ∈ cells, _))

end SparseProgram
