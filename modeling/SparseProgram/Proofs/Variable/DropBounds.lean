import SparseProgram.Model.Passes
import SparseProgram.Proofs.Variable.Bounds

/-!
# Dropping bounds

What normalization leaves of the bounds of one variable: those that are missing or zero.
-/

namespace SparseProgram

namespace Variable

theorem lower_dropBounds (v : Variable) :
    (v.bounds.lowerIsPlain = true ∧ v.dropBounds.bounds.lower = v.bounds.lower)
      ∨ (v.bounds.lowerIsPlain = false ∧ v.dropBounds.bounds.lower = .negativeInfinity) := by
  cases h : v.bounds.lowerIsPlain with
  | true => exact .inl ⟨rfl, if_pos h⟩
  | false => exact .inr ⟨rfl, if_neg (by simp [h])⟩

theorem upper_dropBounds (v : Variable) :
    (v.bounds.upperIsPlain = true ∧ v.dropBounds.bounds.upper = v.bounds.upper)
      ∨ (v.bounds.upperIsPlain = false ∧ v.dropBounds.bounds.upper = .infinity) := by
  cases h : v.bounds.upperIsPlain with
  | true => exact .inl ⟨rfl, if_pos h⟩
  | false => exact .inr ⟨rfl, if_neg (by simp [h])⟩

theorem isPlain_dropBounds (v : Variable) : v.dropBounds.bounds.isPlain = true := by
  have hlower : v.dropBounds.bounds.lowerIsPlain = true := by
    rcases v.lower_dropBounds with ⟨hplain, hkept⟩ | ⟨-, hmissing⟩
    · rwa [Bounds.lowerIsPlain, Bounds.lowerIsFree, hkept]
    · exact Bounds.lowerIsPlain_of_missing hmissing
  have hupper : v.dropBounds.bounds.upperIsPlain = true := by
    rcases v.upper_dropBounds with ⟨hplain, hkept⟩ | ⟨-, hmissing⟩
    · rwa [Bounds.upperIsPlain, Bounds.upperIsFree, hkept]
    · exact Bounds.upperIsPlain_of_missing hmissing
  rw [Bounds.isPlain, hlower, hupper, Bool.and_self]

theorem dropBounds_of_isPlain {v : Variable} (h : v.bounds.isPlain = true) : v.dropBounds = v := by
  obtain ⟨hlower, hupper⟩ := Bool.and_eq_true_iff.1 h
  simp [dropBounds, hlower, hupper]

theorem boundRows_of_isPlain {τ : Type} [Term τ] {v : Variable} (h : v.bounds.isPlain = true) :
    (v.boundRows : List (Row τ)) = [] := by
  obtain ⟨hlower, hupper⟩ := Bool.and_eq_true_iff.1 h
  simp [boundRows, hlower, hupper]

end Variable

end SparseProgram
