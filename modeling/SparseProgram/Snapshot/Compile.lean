import SparseProgram.Snapshot.Registry

/-!
# Compiling snapshots

Handles become columns, the cells of each constraint are merged into a row, and all goals
are folded into one objective. Repeated tokens are reported first, then invalid bounds, then
unregistered tokens in the order of constraints and, last, of goals. A term that is mentioned keeps
its entry when its total comes to zero.
-/

namespace SparseProgram

/-! ## Tallies -/

/-- Terms in strictly increasing order with their totals. -/
abbrev Tally (τ : Type) := List (τ × Binary64)

namespace Tally

variable {τ : Type} [Term τ]

/-- Adds to the total of a term, which starts from zero. -/
def add : Tally τ → τ → Binary64 → Tally τ
  | [], term, amount => [(term, .zero + amount)]
  | (head, total) :: rest, term, amount =>
      match Term.compare term head with
      | .lt => (term, .zero + amount) :: (head, total) :: rest
      | .eq => (head, total + amount) :: rest
      | .gt => (head, total) :: add rest term amount

end Tally

/-! ## Parts of a model -/

namespace Token

/-- The column of a token whose bounds are in order. -/
def toVariable (token : Token) (index : Nat) : Except CompileError Variable :=
  if token.bounds.isOrdered then
    .ok ⟨index, token.bounds, token.kind, token.name, token.value⟩
  else
    .error (.invalidBounds token.name token.bounds)

end Token

variable {τ : Type} [Term τ]

/-- Adds the cells, each times `scale`, to a tally. -/
def tallyCells (registry : Registry) (scale : Binary64) :
    Tally τ → List (SymbolicCell τ) → Except CompileError (Tally τ)
  | tally, [] => .ok tally
  | tally, cell :: rest => do
      let term ← registry.term cell.monomial
      tallyCells registry scale (tally.add term (scale * cell.coefficient)) rest

namespace SymbolicConstraint

def toRow (registry : Registry) (c : SymbolicConstraint τ) : Except CompileError (Row τ) := do
  let cells ← tallyCells registry .one [] c.cells
  return ⟨cells, c.relation, c.rightSide, c.name⟩

end SymbolicConstraint

namespace Goal

/-- What the coefficients count for in an objective of a given sense. -/
def scale (goal : Goal τ) (sense : Sense) : Binary64 :=
  if goal.sense = sense then .one else -.one

end Goal

namespace Snapshot

def compileVariables (s : Snapshot τ) : Except CompileError (List Variable) :=
  s.tokens.zipIdx.mapM fun (token, index) => token.toVariable index

def objectiveTally (s : Snapshot τ) (registry : Registry) : Except CompileError (Tally τ) :=
  s.goals.foldlM
    (fun tally goal => tallyCells registry (goal.scale s.effectiveSense) tally goal.cells) []

def compileObjective (s : Snapshot τ) (registry : Registry) :
    Except CompileError (Objective τ) := do
  let tally ← s.objectiveTally registry
  return ⟨s.effectiveSense, tally.map fun (term, total) => ⟨term, total⟩⟩

def compileRows (s : Snapshot τ) (registry : Registry) : Except CompileError (List (Row τ)) :=
  s.constraints.mapM (SymbolicConstraint.toRow registry)

end Snapshot

structure CompileOptions where
  parallel : Bool
  deriving DecidableEq

namespace CompileOptions

def default : CompileOptions :=
  ⟨true⟩

def sequential : CompileOptions :=
  ⟨false⟩

end CompileOptions

/-- The parts of a model, each compiled or failed on its own. -/
structure CompiledParts (τ : Type) where
  vars : Except CompileError (List Variable)
  rows : Except CompileError (List (Row τ))
  objective : Except CompileError (Objective τ)

namespace CompiledParts

/-- The model of the parts, or the first failure in their order. -/
def join (parts : CompiledParts τ) (name : String) : Except CompileError (Model τ) := do
  let vars ← parts.vars
  let rows ← parts.rows
  let objective ← parts.objective
  return ⟨name, vars, .ofRows rows, objective⟩

end CompiledParts

namespace Snapshot

def compileSideBySide (s : Snapshot τ) (registry : Registry) : Except CompileError (Model τ) :=
  let parts : CompiledParts τ :=
    ⟨s.compileVariables, s.compileRows registry, s.compileObjective registry⟩
  parts.join s.name

/-- Compiles part after part and stops at the first failure. -/
def compileInTurn (s : Snapshot τ) (registry : Registry) : Except CompileError (Model τ) := do
  let vars ← s.compileVariables
  let rows ← s.compileRows registry
  let objective ← s.compileObjective registry
  return ⟨s.name, vars, .ofRows rows, objective⟩

theorem compileSideBySide_eq_compileInTurn (s : Snapshot τ) (registry : Registry) :
    s.compileSideBySide registry = s.compileInTurn registry :=
  rfl

def compile (options : CompileOptions) (s : Snapshot τ) : Except CompileError (Model τ) := do
  let registry ← Registry.ofTokens s.tokens
  if options.parallel then s.compileSideBySide registry else s.compileInTurn registry

end Snapshot

end SparseProgram
