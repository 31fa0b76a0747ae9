import SparseProgram.First
import SparseProgram.Snapshot.Compile

/-!
# Failures of compilation

Which failure a snapshot is due, said of the lists of its tokens and of the handles that its cells
mention: repeated tokens come before invalid bounds, and these before unregistered handles.
-/

namespace SparseProgram

variable {τ : Type} [Term τ]

/-- The handles that cells mention, those of a product one after the other. -/
def mentionedHandles (cells : List (SymbolicCell τ)) : List Nat :=
  cells.flatMap fun cell => Term.columnList cell.monomial

namespace Snapshot

/-- The handles that the cells of all constraints and then those of all goals mention. -/
def references (s : Snapshot τ) : List Nat :=
  (s.constraints.flatMap fun c => mentionedHandles c.cells)
    ++ s.goals.flatMap fun goal => mentionedHandles goal.cells

def handles (s : Snapshot τ) : List Nat :=
  s.tokens.map (·.handle)

/-- Every part of the snapshot compiles. -/
structure Compiles (s : Snapshot τ) : Prop where
  distinct : s.handles.Nodup
  ordered : ∀ token ∈ s.tokens, token.bounds.isOrdered = true
  registered : ∀ handle ∈ s.references, handle ∈ s.handles

/-- The one failure to report, whatever else is wrong. -/
inductive FailsWith (s : Snapshot τ) : CompileError → Prop
  | repeated (before after : List Token) (token : Token) :
      s.tokens = before ++ token :: after →
      (before.map (·.handle)).Nodup →
      token.handle ∈ before.map (·.handle) →
      s.FailsWith (.duplicateToken token.handle)
  | disordered (token : Token) :
      s.handles.Nodup →
      IsFirst (fun token => ¬token.bounds.isOrdered = true) s.tokens token →
      s.FailsWith (.invalidBounds token.name token.bounds)
  | unregistered (handle : Nat) :
      s.handles.Nodup →
      (∀ token ∈ s.tokens, token.bounds.isOrdered = true) →
      IsFirst (· ∉ s.handles) s.references handle →
      s.FailsWith (.unresolvedToken handle)

end Snapshot

end SparseProgram
