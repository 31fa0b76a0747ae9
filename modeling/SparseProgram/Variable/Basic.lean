import SparseProgram.Named
import SparseProgram.Variable.Bounds

/-!
# Variables

The columns of a model, each with bounds and with the domain that it is declared with.
-/

namespace SparseProgram

inductive VariableKind where
  /-- Zero or one. -/
  | binary
  /-- Zero, one or two. -/
  | ternary
  /-- Minus one, zero or one. -/
  | balancedTernary
  | unsignedInteger
  | signedInteger
  /-- A real number from zero to one. -/
  | percentage
  | unsignedContinuous
  | continuous
  deriving DecidableEq

namespace VariableKind

instance : Named VariableKind where
  members :=
    [binary, ternary, balancedTernary, unsignedInteger, signedInteger, percentage,
      unsignedContinuous, continuous]
  name
    | binary => "Binary"
    | ternary => "Ternary"
    | balancedTernary => "BalancedTernary"
    | unsignedInteger => "UnsignedInteger"
    | signedInteger => "SignedInteger"
    | percentage => "Percentage"
    | unsignedContinuous => "UnsignedContinuous"
    | continuous => "Continuous"

theorem ofName?_name (kind : VariableKind) : Named.ofName? (Named.name kind) = some kind := by
  cases kind <;> decide

def isBinary (kind : VariableKind) : Bool :=
  kind == binary

def isIntegral : VariableKind → Bool
  | binary | ternary | balancedTernary | unsignedInteger | signedInteger => true
  | percentage | unsignedContinuous | continuous => false

def isUnsigned : VariableKind → Bool
  | binary | ternary | unsignedInteger | percentage | unsignedContinuous => true
  | balancedTernary | signedInteger | continuous => false

def isContinuous (kind : VariableKind) : Bool :=
  !kind.isIntegral

def isGeneral (kind : VariableKind) : Bool :=
  kind.isIntegral && !kind.isBinary

def relaxed : VariableKind → VariableKind
  | binary => percentage
  | ternary | unsignedInteger => unsignedContinuous
  | balancedTernary | signedInteger => continuous
  | percentage => percentage
  | unsignedContinuous => unsignedContinuous
  | continuous => continuous

@[simp] theorem isIntegral_relaxed (kind : VariableKind) : kind.relaxed.isIntegral = false := by
  cases kind <;> rfl

@[simp] theorem relaxed_relaxed (kind : VariableKind) : kind.relaxed.relaxed = kind.relaxed := by
  cases kind <;> rfl

theorem relaxed_eq_self_iff (kind : VariableKind) :
    kind.relaxed = kind ↔ kind.isIntegral = false := by
  cases kind <;> decide

/-- The bounds of a variable that is declared without any. -/
def defaultBounds : VariableKind → Bounds
  | binary | percentage => ⟨.zero, .one⟩
  | ternary => ⟨.zero, .ofInt 2⟩
  | balancedTernary => ⟨-.one, .one⟩
  | unsignedInteger | unsignedContinuous => ⟨.zero, .infinity⟩
  | signedInteger | continuous => .free

end VariableKind

/-! ## Variables -/

/-- A column of a model. Its index is meant to be its position. -/
structure Variable where
  index : Nat
  bounds : Bounds
  kind : VariableKind
  name : String
  /-- The value that it currently holds, if any. -/
  value : Option Binary64
  deriving DecidableEq

namespace Variable

def shape (v : Variable) : BoundShape :=
  v.bounds.shape

def relax (v : Variable) : Variable :=
  { v with kind := v.kind.relaxed }

end Variable

end SparseProgram
