import SparseProgram.First
import SparseProgram.Model.Dual

/-!
# Failures of duality

Which failure a model is due when its dual is taken, said of the bounds of its variables as they
stand: both missing, or one missing and the other a zero of either sign.
-/

namespace SparseProgram

namespace Binary64

def IsEitherZero (x : Binary64) : Prop :=
  x = zero ∨ x = -zero

instance (x : Binary64) : Decidable x.IsEitherZero :=
  inferInstanceAs (Decidable (_ ∨ _))

end Binary64

namespace Bounds

/-- The line, or a half line that begins or ends at zero. -/
def IsSigned (b : Bounds) : Prop :=
  (b.lower = .negativeInfinity ∧ b.upper = .infinity)
    ∨ (b.lower.IsEitherZero ∧ b.upper = .infinity)
    ∨ (b.lower = .negativeInfinity ∧ b.upper.IsEitherZero)

instance (b : Bounds) : Decidable b.IsSigned :=
  inferInstanceAs (Decidable ((_ ∧ _) ∨ (_ ∧ _) ∨ (_ ∧ _)))

def IsFixedAtZero (b : Bounds) : Prop :=
  b.lower.IsEitherZero ∧ b.upper.IsEitherZero

instance (b : Bounds) : Decidable b.IsFixedAtZero :=
  inferInstanceAs (Decidable (_ ∧ _))

end Bounds

/-- The one failure to report. -/
inductive Model.DualFailsWith (m : Model Nat) : DualError → Prop
  | invalid (defect : Defect) :
      m.firstDefect = some defect →
      m.DualFailsWith (.invalid defect)
  | fixedAtZero (v : Variable) :
      m.firstDefect = none →
      IsFirst (fun v => ¬v.bounds.IsSigned) m.vars v →
      v.bounds.IsFixedAtZero →
      m.DualFailsWith (.fixedAtZero v.name)
  | notNormalized (v : Variable) :
      m.firstDefect = none →
      IsFirst (fun v => ¬v.bounds.IsSigned) m.vars v →
      ¬v.bounds.IsFixedAtZero →
      m.DualFailsWith (.notNormalized v.name v.bounds)

end SparseProgram
