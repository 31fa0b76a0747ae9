import SparseProgram.Model.Embedding
import SparseProgram.Snapshot.Failure

/-!
# Renaming handles

Handles are names. Renaming gives every handle of a snapshot another one, in the tokens and in the
cells. The factors of a product stay as they stand, as the first that is unregistered is reported.
Where a token is removed the variables behind it move up by one, and their columns with them.
-/

namespace SparseProgram

/-- Terms whose columns can be renamed where they stand. -/
class RenamableTerm (τ : Type) extends Term τ where
  rename : (Nat → Nat) → τ → τ
  columns_rename (r : Nat → Nat) (t : τ) :
    columns (rename r t) = Prod.map r (Option.map r) (columns t)

instance : RenamableTerm Nat where
  rename r column := r column
  columns_rename _ _ := rfl

namespace QuadraticTerm

def rename (r : Nat → Nat) : QuadraticTerm → QuadraticTerm
  | linear column => linear (r column)
  | product first second => product (r first) (r second)

instance : RenamableTerm QuadraticTerm where
  rename := rename
  columns_rename r t := by cases t <;> rfl

end QuadraticTerm

namespace CompileError

/-- Disordered bounds are reported by name and not by handle. -/
def rename (r : Nat → Nat) : CompileError → CompileError
  | unresolvedToken handle => unresolvedToken (r handle)
  | duplicateToken handle => duplicateToken (r handle)
  | invalidBounds name bounds => invalidBounds name bounds

end CompileError

namespace Token

def rename (r : Nat → Nat) (token : Token) : Token :=
  { token with handle := r token.handle }

end Token

namespace Snapshot

variable {τ : Type}

/-- All handles that occur, registered or not. -/
def allHandles [Term τ] (s : Snapshot τ) : List Nat :=
  s.handles ++ s.references

def rename [RenamableTerm τ] (r : Nat → Nat) (s : Snapshot τ) : Snapshot τ :=
  { s.mapMonomials (RenamableTerm.rename r) with tokens := s.tokens.map (Token.rename r) }

end Snapshot

/-! ## Removing tokens -/

/-- A column after another one was removed. -/
def loweredColumn (removed column : Nat) : Nat :=
  if removed < column then column - 1 else column

namespace Model

variable {τ : Type} [RenamableTerm τ]

/-- The model without the variable at a position, for terms that do not mention it. -/
def removeVariable (m : Model τ) (position : Nat) : Model τ :=
  { m.mapTerms (RenamableTerm.rename (loweredColumn position)) with
    vars := (m.vars.eraseIdx position).map fun v =>
      { v with index := loweredColumn position v.index } }

end Model

end SparseProgram
