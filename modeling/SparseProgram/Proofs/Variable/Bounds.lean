import SparseProgram.Proofs.Number.Comparison
import SparseProgram.Proofs.Number.ExactValue
import SparseProgram.Variable.Bounds

/-!
# Shapes of bounds

What the shape of an interval says about its points.
-/

namespace SparseProgram

namespace Bounds

variable {b : Bounds}

theorem lowerIsFree_iff : b.lowerIsFree = true ↔ b.lower = .negativeInfinity :=
  Binary64.sameNumber_infinite_iff

theorem upperIsFree_iff : b.upperIsFree = true ↔ b.upper = .infinity :=
  Binary64.sameNumber_infinite_iff

theorem lowerIsPlain_of_missing (h : b.lower = .negativeInfinity) : b.lowerIsPlain = true := by
  rw [lowerIsPlain, lowerIsFree_iff.2 h, Bool.true_or]

theorem upperIsPlain_of_missing (h : b.upper = .infinity) : b.upperIsPlain = true := by
  rw [upperIsPlain, upperIsFree_iff.2 h, Bool.true_or]

theorem isZero_lower_of_missing (h : b.lower = .negativeInfinity) : b.lower.isZero = false :=
  h ▸ Binary64.isZero_infinite true

theorem isZero_upper_of_missing (h : b.upper = .infinity) : b.upper.isZero = false :=
  h ▸ Binary64.isZero_infinite false

theorem isZero_lower_of_lowerIsFree (h : b.lowerIsFree = true) : b.lower.isZero = false :=
  isZero_lower_of_missing (lowerIsFree_iff.1 h)

theorem isZero_upper_of_upperIsFree (h : b.upperIsFree = true) : b.upper.isZero = false :=
  isZero_upper_of_missing (upperIsFree_iff.1 h)

theorem shape_eq_free_iff :
    b.shape = .free ↔ b.lower = .negativeInfinity ∧ b.upper = .infinity := by
  rw [← lowerIsFree_iff, ← upperIsFree_iff]
  unfold shape
  cases b.lowerIsFree <;> cases b.upperIsFree <;> cases b.lower.isZero <;>
    cases b.upper.isZero <;> simp

theorem shape_eq_nonNegative_iff :
    b.shape = .nonNegative ↔ b.lower.isZero = true ∧ b.upper = .infinity := by
  have hlower := isZero_lower_of_lowerIsFree (b := b)
  rw [← upperIsFree_iff]
  unfold shape
  revert hlower
  cases b.lowerIsFree <;> cases b.upperIsFree <;> cases b.lower.isZero <;>
    cases b.upper.isZero <;> simp

theorem shape_eq_nonPositive_iff :
    b.shape = .nonPositive ↔ b.lower = .negativeInfinity ∧ b.upper.isZero = true := by
  have hupper := isZero_upper_of_upperIsFree (b := b)
  rw [← lowerIsFree_iff]
  unfold shape
  revert hupper
  cases b.lowerIsFree <;> cases b.upperIsFree <;> cases b.lower.isZero <;>
    cases b.upper.isZero <;> simp

theorem contains_of_free (h : b.shape = .free) (q : Rat) : b.Contains q := by
  obtain ⟨hlower, hupper⟩ := shape_eq_free_iff.1 h
  rw [Contains, hlower, hupper]
  exact ⟨Binary64.belowRat_negativeInfinity q, Binary64.aboveRat_infinity q⟩

theorem contains_iff_nonneg (h : b.shape = .nonNegative) {q : Rat} : b.Contains q ↔ 0 ≤ q := by
  obtain ⟨hzero, hupper⟩ := shape_eq_nonNegative_iff.1 h
  obtain ⟨hfinite, hvalue⟩ := Binary64.isFinite_of_isZero hzero
  rw [Contains, hupper, Binary64.belowRat_iff hfinite, hvalue]
  exact and_iff_left (Binary64.aboveRat_infinity q)

theorem contains_iff_nonpos (h : b.shape = .nonPositive) {q : Rat} : b.Contains q ↔ q ≤ 0 := by
  obtain ⟨hlower, hzero⟩ := shape_eq_nonPositive_iff.1 h
  obtain ⟨hfinite, hvalue⟩ := Binary64.isFinite_of_isZero hzero
  rw [Contains, hlower, Binary64.aboveRat_iff hfinite, hvalue]
  exact and_iff_right (Binary64.belowRat_negativeInfinity q)

end Bounds

end SparseProgram
