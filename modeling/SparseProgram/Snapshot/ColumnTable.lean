import Mathlib.Data.List.Forall2
import SparseProgram.Snapshot.Registry

/-!
# Tables of columns

Registration as a table that is filled token after token, and what it is for a registry to number
tokens. The first token whose handle the table already holds ends the filling.
-/

namespace SparseProgram

/-- The handle of the token is that of an earlier one, and this is so of no token before it. -/
def IsFirstRepeated (tokens : List Token) (token : Token) : Prop :=
  ∃ before after, tokens = before ++ token :: after
    ∧ (before.map (·.handle)).Nodup ∧ token.handle ∈ before.map (·.handle)

namespace Registry

/-- Handles and the positions of their tokens belong together one to one. -/
structure Numbers (r : Registry) (tokens : List Token) : Prop where
  size : r.size = tokens.length
  column : ∀ handle column, r.column handle = .ok column
    ↔ ∃ token, tokens[column]? = some token ∧ token.handle = handle
  unregistered : ∀ handle error, r.column handle = .error error
    ↔ error = .unresolvedToken handle ∧ ∀ token ∈ tokens, token.handle ≠ handle
  below : ∀ handle column, r.column handle = .ok column → column < tokens.length
  oneHandle : ∀ column < tokens.length, ∃! handle, r.column handle = .ok column

end Registry

structure ColumnTable where
  columns : Std.HashMap Nat Nat

namespace ColumnTable

def empty : ColumnTable :=
  ⟨∅⟩

/-- Enters a handle, and says whether it was there before. -/
def enter (table : ColumnTable) (handle column : Nat) : Bool × ColumnTable :=
  let (known, columns) := table.columns.containsThenInsert handle column
  (known, ⟨columns⟩)

def fill (table : ColumnTable) (column : Nat) : List Token → Except CompileError ColumnTable
  | [] => .ok table
  | token :: rest =>
      match table.enter token.handle column with
      | (true, _) => .error (.duplicateToken token.handle)
      | (false, entered) => fill entered (column + 1) rest

def ofTokens (tokens : List Token) : Except CompileError ColumnTable :=
  fill empty 0 tokens

def size (table : ColumnTable) : Nat :=
  table.columns.size

def column (table : ColumnTable) (handle : Nat) : Except CompileError Nat :=
  match table.columns[handle]? with
  | some column => .ok column
  | none => .error (.unresolvedToken handle)

end ColumnTable

end SparseProgram
