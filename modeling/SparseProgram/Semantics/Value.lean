import Mathlib
import SparseProgram.Number.Binary64

/-!
# Exact values

Finite numbers as rationals, and rationals compared with all numbers: infinities lie beyond every
rational, and nothing holds of NaN.
-/

namespace SparseProgram

namespace Binary64

/-- The exact value of a finite number. -/
def value? : Binary64 → Option Rat
  | finite negative m => some ((signed negative m.val : Rat) / (unitsPerOne : Rat))
  | _ => none

def value (x : Binary64) : Rat :=
  x.value?.getD 0

def BelowRat : Binary64 → Rat → Prop
  | nan, _ => False
  | infinite negative, _ => negative = true
  | finite negative m, q => (finite negative m).value ≤ q

def AboveRat : Binary64 → Rat → Prop
  | nan, _ => False
  | infinite negative, _ => negative = false
  | finite negative m, q => q ≤ (finite negative m).value

instance : (x : Binary64) → (q : Rat) → Decidable (BelowRat x q)
  | nan, _ => .isFalse id
  | infinite negative, _ => inferInstanceAs (Decidable (negative = true))
  | finite negative m, q => inferInstanceAs (Decidable ((finite negative m).value ≤ q))

instance : (x : Binary64) → (q : Rat) → Decidable (AboveRat x q)
  | nan, _ => .isFalse id
  | infinite negative, _ => inferInstanceAs (Decidable (negative = false))
  | finite negative m, q => inferInstanceAs (Decidable (q ≤ (finite negative m).value))

/-- A sum of finite numbers that needs no rounding. -/
def AddsExactly (x y : Binary64) : Prop :=
  x.isFinite = true ∧ y.isFinite = true ∧ (x + y).value? = some (x.value + y.value)

instance (x y : Binary64) : Decidable (AddsExactly x y) :=
  inferInstanceAs (Decidable (_ ∧ _ ∧ _))

end Binary64

end SparseProgram
