import SparseProgram.Model.Passes
import SparseProgram.Proofs.Model.MovedBounds

/-!
# Sequences of passes

Each pass finds nothing to do after itself, and neither reads what the other one writes. Of a
sequence only which passes it contains can be told from its result.
-/

namespace SparseProgram

variable {τ : Type}

namespace Variable

theorem relax_relax (v : Variable) : v.relax.relax = v.relax := by
  simp [relax]

theorem dropBounds_relax (v : Variable) : v.relax.dropBounds = v.dropBounds.relax :=
  rfl

theorem boundRows_relax [Term τ] (v : Variable) :
    (v.relax.boundRows : List (Row τ)) = v.boundRows :=
  rfl

end Variable

namespace Model

theorem relax_relax (m : Model τ) : m.relax.relax = m.relax := by
  simp [relax, Function.comp_def, Variable.relax_relax]

variable [Term τ]

theorem normalize_normalize (m : Model τ) : m.normalize.normalize = m.normalize :=
  normalize_of_isNormalized m.isNormalized_normalize

theorem normalize_relax (m : Model τ) : m.relax.normalize = m.normalize.relax := by
  have hrows : m.relax.boundRows = m.boundRows := by
    simp only [boundRows, relax, List.flatMap_map, Variable.boundRows_relax]
  rw [normalize, hrows]
  simp only [normalize, relax, List.map_map, Function.comp_def, Variable.dropBounds_relax]

/-! ## Settled models -/

theorem normalize_settled (m : Model τ) (normalized relaxed : Bool) :
    (m.settled normalized relaxed).normalize = m.settled true relaxed := by
  cases normalized with
  | false => rfl
  | true => exact normalize_normalize _

theorem relax_settled (m : Model τ) (normalized relaxed : Bool) :
    (m.settled normalized relaxed).relax = m.settled normalized true := by
  cases normalized <;> cases relaxed <;>
    simp [settled, ← normalize_relax, relax_relax]

/-- A pass more settles what that pass settles. -/
theorem apply_settled (m : Model τ) (passes : List Pass) (pass : Pass) :
    (m.settled (decide (.normalize ∈ passes)) (decide (.relax ∈ passes))).apply pass
      = m.settled (decide (.normalize ∈ passes ++ [pass]))
          (decide (.relax ∈ passes ++ [pass])) := by
  cases pass with
  | normalize => simp [apply, normalize_settled]
  | relax => simp [apply, relax_settled]

theorem applyAll_eq_settled (m : Model τ) (passes : List Pass) :
    m.applyAll passes
      = m.settled (decide (.normalize ∈ passes)) (decide (.relax ∈ passes)) := by
  induction passes using List.reverseRecOn with
  | nil => rfl
  | append_singleton passes pass ih =>
      rw [applyAll, List.foldl_append, List.foldl_cons, List.foldl_nil, ← apply_settled, ← ih]
      rfl

/-- Sequences of the same passes give the same model, in any order and however often each occurs:
the model relaxed if they relax, and normalized if they normalize. -/
theorem passes_confluent (m : Model τ) (passes : List Pass) :
    m.applyAll passes = m.settled (decide (.normalize ∈ passes)) (decide (.relax ∈ passes))
      ∧ ∀ others : List Pass, (∀ pass, pass ∈ others ↔ pass ∈ passes) →
        m.applyAll others = m.applyAll passes := by
  refine ⟨m.applyAll_eq_settled passes, ?_⟩
  intro others hsame
  simp only [applyAll_eq_settled, hsame]

def crooked : Model QuadraticTerm where
  name := "crooked"
  vars :=
    [⟨4, ⟨.nan, -.zero⟩, .binary, "a", some .nan⟩,
      ⟨4, ⟨.infinity, .negativeInfinity⟩, .balancedTernary, "b", none⟩]
  constraints := ⟨[⟨7, .product 3 1, .one⟩], [.equal], [.zero, .one], []⟩
  objective := ⟨.minimum, [⟨.linear 9, .nan⟩]⟩

theorem passes_confluent_crooked :
    crooked.applyAll [.relax, .normalize, .relax] = crooked.applyAll [.normalize, .normalize, .relax]
      ∧ crooked.applyAll [.relax, .normalize, .relax] = crooked.relax.normalize
      ∧ (crooked.applyAll [.relax, .normalize, .relax]).constraints.names
        = ["a_lb", "b_lb", "b_ub"] := by
  obtain ⟨hsettled, hsame⟩ := passes_confluent crooked [.relax, .normalize, .relax]
  refine ⟨(hsame _ ?_).symm, hsettled, ?_⟩
  · intro pass
    cases pass <;> simp
  · rw [hsettled]
    decide +kernel

end Model

end SparseProgram
