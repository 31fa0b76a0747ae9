import SparseProgram.Model.DualFailure
import SparseProgram.Proofs.Duality.Placement
import SparseProgram.Proofs.Model.Canonical
import SparseProgram.Proofs.Variable.DropBounds

/-!
# The precondition of duality

Models have duals exactly if they pass the gate and all their bounds are signed, and otherwise it is
the first variable with other bounds that is reported. Normalizing moves all other bounds into rows,
so that only variables fixed at zero are left to report.
-/

namespace SparseProgram

namespace Bounds

variable {b : Bounds}

theorem isFixedAtZero_iff :
    b.IsFixedAtZero ↔ (b.lower.isZero && b.upper.isZero) = true := by
  rw [Bool.and_eq_true, Binary64.isZero_iff_eq, Binary64.isZero_iff_eq]
  rfl

theorem isSigned_iff : b.IsSigned ↔ b.shape ≠ .other := by
  rw [IsSigned, Binary64.IsEitherZero, Binary64.IsEitherZero, ← Binary64.isZero_iff_eq,
    ← Binary64.isZero_iff_eq, ← shape_eq_free_iff, ← shape_eq_nonNegative_iff,
    ← shape_eq_nonPositive_iff]
  cases b.shape <;> simp

theorem isSigned_iff_of_isPlain (h : b.isPlain = true) : b.IsSigned ↔ ¬b.IsFixedAtZero := by
  have hlower := isZero_lower_of_lowerIsFree (b := b)
  have hupper := isZero_upper_of_upperIsFree (b := b)
  rw [isSigned_iff, isFixedAtZero_iff]
  unfold isPlain lowerIsPlain upperIsPlain at h
  unfold shape
  revert h hlower hupper
  cases b.lowerIsFree <;> cases b.upperIsFree <;> cases b.lower.isZero <;>
    cases b.upper.isZero <;> simp

end Bounds

namespace Variable

theorem dualError_of_isFixedAtZero {v : Variable} (h : v.bounds.IsFixedAtZero) :
    v.dualError = .fixedAtZero v.name :=
  if_pos (Bounds.isFixedAtZero_iff.1 h)

theorem dualError_of_not_isFixedAtZero {v : Variable} (h : ¬v.bounds.IsFixedAtZero) :
    v.dualError = .notNormalized v.name v.bounds :=
  if_neg (mt Bounds.isFixedAtZero_iff.2 h)

/-- Normalization leaves zeros where they are and makes none. -/
theorem isFixedAtZero_dropBounds (v : Variable) :
    v.dropBounds.bounds.IsFixedAtZero ↔ v.bounds.IsFixedAtZero := by
  have hlower : v.dropBounds.bounds.lower.isZero = v.bounds.lower.isZero := by
    rcases v.lower_dropBounds with ⟨-, hkept⟩ | ⟨hplain, hmissing⟩
    · rw [hkept]
    · rw [Bounds.isZero_lower_of_missing hmissing, (Bool.or_eq_false_iff.1 hplain).2]
  have hupper : v.dropBounds.bounds.upper.isZero = v.bounds.upper.isZero := by
    rcases v.upper_dropBounds with ⟨-, hkept⟩ | ⟨hplain, hmissing⟩
    · rw [hkept]
    · rw [Bounds.isZero_upper_of_missing hmissing, (Bool.or_eq_false_iff.1 hplain).2]
  rw [Bounds.isFixedAtZero_iff, Bounds.isFixedAtZero_iff, hlower, hupper]

theorem isSigned_dropBounds (v : Variable) :
    v.dropBounds.bounds.IsSigned ↔ ¬v.bounds.IsFixedAtZero := by
  rw [Bounds.isSigned_iff_of_isPlain v.isPlain_dropBounds, isFixedAtZero_dropBounds]

end Variable

namespace Model

variable {m : Model Nat} {e : DualError}

/-! ## Failures -/

theorem dual_eq_error_of_failsWith (h : m.DualFailsWith e) : m.dual = .error e := by
  have hother (v : Variable) : ¬v.bounds.IsSigned ↔ v.shape = .other := by
    rw [Bounds.isSigned_iff, not_not]
    rfl
  cases h with
  | invalid defect hdefect => rw [dual, hdefect]
  | fixedAtZero v hvalid hv hfixed =>
      rw [dual_eq_error_of_isFirst hvalid (hv.congr hother),
        Variable.dualError_of_isFixedAtZero hfixed]
  | notNormalized v hvalid hv hfixed =>
      rw [dual_eq_error_of_isFirst hvalid (hv.congr hother),
        Variable.dualError_of_not_isFixedAtZero hfixed]

theorem exists_dual_iff :
    (∃ d, m.dual = .ok d) ↔ m.firstDefect = none ∧ ∀ v ∈ m.vars, v.bounds.IsSigned := by
  simp only [dual_eq_ok_iff, exists_and_left, exists_eq, and_true, HasDual,
    ← firstDefect_eq_none_iff, Bounds.isSigned_iff]
  rfl

/-- A model without a dual has a failure to report. -/
theorem exists_dual_or_failsWith (m : Model Nat) :
    (∃ d, m.dual = .ok d) ∨ ∃ e, m.DualFailsWith e := by
  cases hvalid : m.firstDefect with
  | some defect => exact .inr ⟨_, .invalid defect hvalid⟩
  | none =>
      rcases forall_or_exists_isFirst (fun v : Variable => ¬v.bounds.IsSigned) m.vars with
        hall | ⟨v, hv⟩
      · exact .inl (exists_dual_iff.2 ⟨hvalid, fun v hv => not_not.1 (hall v hv)⟩)
      · by_cases hfixed : v.bounds.IsFixedAtZero
        · exact .inr ⟨_, .fixedAtZero v hvalid hv hfixed⟩
        · exact .inr ⟨_, .notNormalized v hvalid hv hfixed⟩

theorem dual_eq_error_iff : m.dual = .error e ↔ m.DualFailsWith e := by
  refine ⟨?_, dual_eq_error_of_failsWith⟩
  intro h
  rcases m.exists_dual_or_failsWith with ⟨d, hd⟩ | ⟨e', he'⟩
  · rw [h] at hd
    cases hd
  · have heq := dual_eq_error_of_failsWith he'
    rw [h, Except.error.injEq] at heq
    rwa [heq]

/-! ## Normalized models -/

theorem exists_dual_normalize_iff (hvalid : m.firstDefect = none) :
    (∃ d, m.normalize.dual = .ok d) ↔ ∀ v ∈ m.vars, ¬v.bounds.IsFixedAtZero := by
  have hnormal : m.normalize.firstDefect = none :=
    firstDefect_eq_none_iff.2 (firstDefect_eq_none_iff.1 hvalid).normalize
  rw [exists_dual_iff, and_iff_right hnormal]
  show (∀ v ∈ m.vars.map Variable.dropBounds, v.bounds.IsSigned) ↔ _
  rw [List.forall_mem_map]
  simp only [Variable.isSigned_dropBounds]

theorem dual_normalize_eq_error_of_isFirst (hvalid : m.firstDefect = none) {v : Variable}
    (hv : IsFirst (fun v => v.bounds.IsFixedAtZero) m.vars v) :
    m.normalize.dual = .error (.fixedAtZero v.name) := by
  have hnormal : m.normalize.firstDefect = none :=
    firstDefect_eq_none_iff.2 (firstDefect_eq_none_iff.1 hvalid).normalize
  have hunsigned (v : Variable) :
      v.bounds.IsFixedAtZero ↔ ¬v.dropBounds.bounds.IsSigned := by
    rw [v.isSigned_dropBounds, not_not]
  have hfirst : IsFirst (fun v => ¬v.bounds.IsSigned) m.normalize.vars v.dropBounds :=
    IsFirst.map (Q := fun v : Variable => ¬v.bounds.IsSigned) (hv.congr hunsigned)
  exact dual_eq_error_of_failsWith
    (.fixedAtZero v.dropBounds hnormal hfirst (v.isFixedAtZero_dropBounds.2 hv.holds))

theorem dual_normalize_eq_error_iff (hvalid : m.firstDefect = none) :
    m.normalize.dual = .error e
      ↔ ∃ v, IsFirst (fun v => v.bounds.IsFixedAtZero) m.vars v ∧ e = .fixedAtZero v.name := by
  constructor
  · intro h
    rcases forall_or_exists_isFirst (fun v : Variable => v.bounds.IsFixedAtZero) m.vars with
      hnone | ⟨v, hv⟩
    · obtain ⟨d, hd⟩ := (exists_dual_normalize_iff hvalid).2 hnone
      rw [h] at hd
      cases hd
    · have heq := dual_normalize_eq_error_of_isFirst hvalid hv
      rw [h, Except.error.injEq] at heq
      exact ⟨v, hv, heq⟩
  · rintro ⟨v, hv, rfl⟩
    exact dual_normalize_eq_error_of_isFirst hvalid hv

/-- Taking a dual is never fatal and fails exactly as it should; of a model that passes the gate and
is normalized, only variables fixed at zero make it fail. -/
theorem dual_precondition (m : Model Nat) :
    m.placedDual = some m.dual
      ∧ (∀ e, m.dual = .error e ↔ m.DualFailsWith e)
      ∧ ((∃ d, m.dual = .ok d) ↔ m.firstDefect = none ∧ ∀ v ∈ m.vars, v.bounds.IsSigned)
      ∧ (m.firstDefect = none →
          ((∃ d, m.normalize.dual = .ok d) ↔ ∀ v ∈ m.vars, ¬v.bounds.IsFixedAtZero)
          ∧ ∀ e, m.normalize.dual = .error e
              ↔ ∃ v, IsFirst (fun v => v.bounds.IsFixedAtZero) m.vars v
                ∧ e = .fixedAtZero v.name) :=
  ⟨m.placedDual_eq, fun _ => dual_eq_error_iff, exists_dual_iff,
    fun hvalid => ⟨exists_dual_normalize_iff hvalid, fun _ => dual_normalize_eq_error_iff hvalid⟩⟩

def assorted (last : Bounds) : Model Nat where
  name := "assorted"
  vars :=
    [⟨0, ⟨.nan, .negativeInfinity⟩, .continuous, "a", none⟩,
      ⟨1, ⟨.infinity, .ofInt 5⟩, .signedInteger, "b", none⟩,
      ⟨2, last, .continuous, "c", none⟩]
  constraints := .ofRows [⟨[(2, .one), (0, -.one)], .equal, .one, "tie"⟩]
  objective := ⟨.maximum, [⟨1, .one⟩]⟩

theorem dual_precondition_assorted :
    (assorted ⟨.zero, .one⟩).dual = .error (.notNormalized "a" ⟨.nan, .negativeInfinity⟩)
      ∧ (∃ d, (assorted ⟨.zero, .one⟩).normalize.dual = .ok d)
      ∧ (assorted ⟨-.zero, .zero⟩).normalize.dual = .error (.fixedAtZero "c") := by
  have hunit := dual_precondition (assorted ⟨.zero, .one⟩)
  have hzero := dual_precondition (assorted ⟨-.zero, .zero⟩)
  have hvalid : (assorted ⟨.zero, .one⟩).firstDefect = none := by decide +kernel
  have hfirst : IsFirst (fun v => ¬v.bounds.IsSigned) (assorted ⟨.zero, .one⟩).vars
      ⟨0, ⟨.nan, .negativeInfinity⟩, .continuous, "a", none⟩ :=
    ⟨[], _, rfl, by decide +kernel, by simp⟩
  have hlast : IsFirst (fun v => v.bounds.IsFixedAtZero) (assorted ⟨-.zero, .zero⟩).vars
      ⟨2, ⟨-.zero, .zero⟩, .continuous, "c", none⟩ :=
    ⟨[_, _], [], rfl, by decide +kernel, by decide +kernel⟩
  refine ⟨?_, ?_, ?_⟩
  · exact (hunit.2.1 _).2 (.notNormalized _ hvalid hfirst (by decide +kernel))
  · exact (hunit.2.2.2 hvalid).1.2 (by decide +kernel)
  · exact ((hzero.2.2.2 (by decide +kernel)).2 _).2 ⟨_, hlast, rfl⟩

end Model

end SparseProgram
