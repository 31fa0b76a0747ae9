import Mathlib.Data.List.Forall2
import SparseProgram.Snapshot.Compile

/-!
# Accumulation

What the cells of a constraint or of goals amount to, term by term, and the search tree in which
amounts are accumulated: a term that is new starts from zero, and a term that is there keeps what it
has and takes more.
-/

namespace SparseProgram

/-- A search tree that finds terms by their order. -/
abbrev TermMap (τ β : Type) [Term τ] := Std.TreeMap τ β Term.compare

namespace TermMap

variable {τ α β : Type} [Term τ]

/-- Lets the value of a term take an amount. A term that is new starts from `start`. -/
def enter (start : β) (take : β → α → β) (map : TermMap τ β) (term : τ) (amount : α) :
    TermMap τ β :=
  (map.insertIfNew term start).modify term fun value => take value amount

def enterAll (start : β) (take : β → α → β) (map : TermMap τ β) (entries : List (τ × α)) :
    TermMap τ β :=
  entries.foldl (fun map entry => map.enter start take entry.1 entry.2) map

def addCells (registry : Registry) (scale : Binary64) :
    TermMap τ Binary64 → List (SymbolicCell τ) → Except CompileError (TermMap τ Binary64)
  | map, [] => .ok map
  | map, cell :: rest => do
      let term ← registry.term cell.monomial
      addCells registry scale (map.enter .zero (· + ·) term (scale * cell.coefficient)) rest

end TermMap

variable {τ : Type} [Term τ]

/-- The cell resolves to a term. -/
def Registry.HasTerm (r : Registry) (cell : SymbolicCell τ) : Prop :=
  ∃ t, r.term cell.monomial = .ok t

variable [DecidableEq τ]

/-- What the cells that resolve to a term add to it, in their order. -/
def Registry.amounts (r : Registry) (scale : Binary64) (cells : List (SymbolicCell τ)) (t : τ) :
    List Binary64 :=
  (cells.filter fun cell => r.term cell.monomial = .ok t).map fun cell => scale * cell.coefficient

def Snapshot.objectiveAmounts (s : Snapshot τ) (r : Registry) (t : τ) : List Binary64 :=
  s.goals.flatMap fun goal => r.amounts (goal.scale s.effectiveSense) goal.cells t

end SparseProgram
