import SparseProgram.Model.Basic

/-!
# Snapshots

The symbolic description of a model. A token is a decision variable known by its handle, an
arbitrary number; cells refer to tokens by handle. A symbolic monomial is a term whose columns are
handles, so a quadratic snapshot uses quadratic terms throughout.
-/

namespace SparseProgram

structure Token where
  handle : Nat
  name : String
  kind : VariableKind
  bounds : Bounds
  value : Option Binary64
  deriving DecidableEq

structure SymbolicCell (τ : Type) where
  coefficient : Binary64
  monomial : τ
  deriving DecidableEq

structure SymbolicConstraint (τ : Type) where
  cells : List (SymbolicCell τ)
  relation : Relation
  rightSide : Binary64
  name : String
  deriving DecidableEq

/-- One of several goals that are folded into one objective. -/
structure Goal (τ : Type) where
  cells : List (SymbolicCell τ)
  sense : Sense
  name : String
  deriving DecidableEq

structure Snapshot (τ : Type) where
  name : String
  sense : Sense
  tokens : List Token
  constraints : List (SymbolicConstraint τ)
  goals : List (Goal τ)
  deriving DecidableEq

namespace Snapshot

variable {τ : Type}

def empty : Snapshot τ :=
  ⟨"", .minimum, [], [], []⟩

def addToken (s : Snapshot τ) (token : Token) : Snapshot τ :=
  { s with tokens := s.tokens ++ [token] }

def addConstraint (s : Snapshot τ) (constraint : SymbolicConstraint τ) : Snapshot τ :=
  { s with constraints := s.constraints ++ [constraint] }

def addGoal (s : Snapshot τ) (goal : Goal τ) : Snapshot τ :=
  { s with goals := s.goals ++ [goal] }

def removeToken (s : Snapshot τ) (position : Nat) : Snapshot τ :=
  { s with tokens := s.tokens.eraseIdx position }

/-- The sense of the folded objective: a lone goal keeps its own. -/
def effectiveSense (s : Snapshot τ) : Sense :=
  match s.goals with
  | [lone] => lone.sense
  | _ => s.sense

end Snapshot

end SparseProgram
