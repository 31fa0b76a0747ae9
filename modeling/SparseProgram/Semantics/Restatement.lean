import SparseProgram.Semantics.Exactness

/-!
# Restated snapshots

Two snapshots that say the same in other cells. Cells count by the monomials that they mention and
by the exact totals of these, where the order of two factors makes no difference. A restatement can
be told by such totals, or as a chain of small rewordings.
-/

namespace SparseProgram

variable {τ : Type}

namespace Model

/-- The model with other right-hand sides, row by row. -/
def withRightSides (m : Model τ) (rightSides : List Binary64) : Model τ :=
  { m with constraints := { m.constraints with rightSides } }

end Model

namespace Snapshot

def rightSides (s : Snapshot τ) : List Binary64 :=
  s.constraints.map (·.rightSide)

end Snapshot

variable [Term τ]

/-! ## The same totals -/

def Mentions (cells : List (SymbolicCell τ)) (monomial : τ) : Prop :=
  ∃ cell ∈ cells, Term.sortedColumns cell.monomial = Term.sortedColumns monomial

/-- What the cells of all monomials like the given one add up to. -/
def exactTotal (cells : List (SymbolicCell τ)) (monomial : τ) : Rat :=
  ((likeCoefficients monomial cells).map Binary64.value).sum

/-- A monomial whose total is zero is still mentioned. -/
structure SameTotals (cells others : List (SymbolicCell τ)) : Prop where
  mentions : ∀ monomial, Mentions cells monomial ↔ Mentions others monomial
  totals : ∀ monomial, exactTotal cells monomial = exactTotal others monomial

/-- The same constraint, but for how its cells are written and for its right-hand side. -/
structure SymbolicConstraint.Restates (d c : SymbolicConstraint τ) : Prop where
  relation : d.relation = c.relation
  name : d.name = c.name
  cells : SameTotals d.cells c.cells

namespace Snapshot

/-- The same snapshot, but for how its cells are written, how many goals these belong to, and the
right-hand sides. -/
structure Restates (t s : Snapshot τ) : Prop where
  name : t.name = s.name
  tokens : t.tokens = s.tokens
  effectiveSense : t.effectiveSense = s.effectiveSense
  constraints : List.Forall₂ SymbolicConstraint.Restates t.constraints s.constraints
  goals : SameTotals t.foldedCells s.foldedCells

/-- All coefficients are finite, and no addition rounds in any row or in the objective. -/
structure IsExact (s : Snapshot τ) : Prop where
  constraints : ∀ c ∈ s.constraints, MergesExactly c.cells
  goals : MergesExactly s.foldedCells

end Snapshot

/-! ## Rewordings -/

/-- One step of writing cells differently. -/
inductive RewordedCells : List (SymbolicCell τ) → List (SymbolicCell τ) → Prop
  | permuted {cells others : List (SymbolicCell τ)} : others.Perm cells → RewordedCells cells others
  /-- One cell becomes two that add up to it. -/
  | split {before after : List (SymbolicCell τ)} {cell : SymbolicCell τ} (x y : Binary64) :
      x.value + y.value = cell.coefficient.value →
      RewordedCells (before ++ cell :: after)
        (before ++ { cell with coefficient := x } :: { cell with coefficient := y } :: after)
  /-- The factors of a product change places. -/
  | turned {before after : List (SymbolicCell τ)} {cell : SymbolicCell τ} (monomial : τ) :
      Term.sortedColumns monomial = Term.sortedColumns cell.monomial →
      RewordedCells (before ++ cell :: after) (before ++ { cell with monomial } :: after)

/-- One step of writing a snapshot differently: in one constraint, in one goal, or by giving the
goals another order. -/
inductive Snapshot.Reworded : Snapshot τ → Snapshot τ → Prop
  | constraint {s : Snapshot τ} {before after : List (SymbolicConstraint τ)}
      {c : SymbolicConstraint τ} {cells : List (SymbolicCell τ)} :
      s.constraints = before ++ c :: after →
      RewordedCells c.cells cells →
      Reworded s { s with constraints := before ++ { c with cells } :: after }
  | goal {s : Snapshot τ} {before after : List (Goal τ)} {goal : Goal τ}
      {cells : List (SymbolicCell τ)} :
      s.goals = before ++ goal :: after →
      RewordedCells goal.cells cells →
      Reworded s { s with goals := before ++ { goal with cells } :: after }
  | goals {s : Snapshot τ} {goals : List (Goal τ)} :
      goals.Perm s.goals →
      Reworded s { s with goals }

end SparseProgram
