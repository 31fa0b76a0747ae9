import SparseProgram.Model.Basic

/-!
# Passes

The transformations that change a model in place, and sequences of them. Normalizing turns each
bound that is neither missing nor zero into a row of one cell: variables are taken in order, the
lower bound before the upper one, and each new row carries the variable's name with a suffix.
Relaxing leaves every variable its bounds and takes its integrality.
-/

namespace SparseProgram

variable {τ : Type}

/-! ## Relaxation -/

namespace Model

def relax (m : Model τ) : Model τ :=
  { m with vars := m.vars.map Variable.relax }

def relaxedCount (m : Model τ) : Nat :=
  m.vars.countP (·.kind.isIntegral)

end Model

/-! ## Normalization -/

variable [Term τ]

namespace Variable

def lowerRow (v : Variable) : Row τ :=
  ⟨[(Term.linear v.index, .one)], .greaterEqual, v.bounds.lower, v.name ++ "_lb"⟩

def upperRow (v : Variable) : Row τ :=
  ⟨[(Term.linear v.index, .one)], .lessEqual, v.bounds.upper, v.name ++ "_ub"⟩

/-- The rows that replace the bounds of a variable. -/
def boundRows (v : Variable) : List (Row τ) :=
  (if v.bounds.lowerIsPlain then [] else [v.lowerRow])
    ++ (if v.bounds.upperIsPlain then [] else [v.upperRow])

/-- Drops the bounds that become rows. -/
def dropBounds (v : Variable) : Variable :=
  { v with
    bounds :=
      ⟨if v.bounds.lowerIsPlain then v.bounds.lower else .negativeInfinity,
        if v.bounds.upperIsPlain then v.bounds.upper else .infinity⟩ }

end Variable

namespace Model

def boundRows (m : Model τ) : List (Row τ) :=
  m.vars.flatMap Variable.boundRows

def normalize (m : Model τ) : Model τ :=
  { m with
    vars := m.vars.map Variable.dropBounds
    constraints := m.constraints.pushAll m.boundRows }

end Model

/-! ## Sequences -/

inductive Pass where
  | normalize
  | relax
  deriving DecidableEq

namespace Model

def apply (m : Model τ) : Pass → Model τ
  | .normalize => m.normalize
  | .relax => m.relax

def applyAll (m : Model τ) (passes : List Pass) : Model τ :=
  passes.foldl apply m

/-- Relaxed or not, and then normalized or not. -/
def settled (m : Model τ) (normalized relaxed : Bool) : Model τ :=
  let kinds := if relaxed then m.relax else m
  if normalized then kinds.normalize else kinds

end Model

end SparseProgram
