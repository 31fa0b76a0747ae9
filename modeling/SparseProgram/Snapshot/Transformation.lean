import SparseProgram.Snapshot.Basic

/-!
# Transformations of snapshots

Relaxation and normalization said of tokens, before anything is compiled. A bound that is neither
missing nor zero becomes a constraint on its token alone, behind all constraints there are.
-/

namespace SparseProgram

variable {τ : Type}

/-! ## Relaxation -/

namespace Token

def relax (token : Token) : Token :=
  { token with kind := token.kind.relaxed }

end Token

namespace Snapshot

/-- Every token keeps its bounds and loses its integrality. -/
def relax (s : Snapshot τ) : Snapshot τ :=
  { s with tokens := s.tokens.map Token.relax }

end Snapshot

/-! ## Normalization -/

variable [Term τ]

namespace Token

def lowerConstraint (token : Token) : SymbolicConstraint τ :=
  ⟨[⟨.one, Term.linear token.handle⟩], .greaterEqual, token.bounds.lower, token.name ++ "_lb"⟩

def upperConstraint (token : Token) : SymbolicConstraint τ :=
  ⟨[⟨.one, Term.linear token.handle⟩], .lessEqual, token.bounds.upper, token.name ++ "_ub"⟩

/-- The constraints that replace the bounds of a token, the lower one first. -/
def boundConstraints (token : Token) : List (SymbolicConstraint τ) :=
  (if token.bounds.lowerIsPlain then [] else [token.lowerConstraint])
    ++ (if token.bounds.upperIsPlain then [] else [token.upperConstraint])

/-- Drops the bounds that become constraints. -/
def dropBounds (token : Token) : Token :=
  { token with
    bounds :=
      ⟨if token.bounds.lowerIsPlain then token.bounds.lower else .negativeInfinity,
        if token.bounds.upperIsPlain then token.bounds.upper else .infinity⟩ }

end Token

namespace Snapshot

def normalize (s : Snapshot τ) : Snapshot τ :=
  { s with
    tokens := s.tokens.map Token.dropBounds
    constraints := s.constraints ++ s.tokens.flatMap Token.boundConstraints }

end Snapshot

end SparseProgram
