import SparseProgram.Model.Passes
import SparseProgram.Proofs.Model.WellFormed
import SparseProgram.Proofs.Variable.Bounds

/-!
# Normalization and points

A bound that becomes a row says of a point what it said before, so a well-formed model and its
normalized form admit the same points.
-/

namespace SparseProgram

variable {τ : Type} [Term τ]

namespace Row

theorem valueAt_single (p : Point) (column : Nat) (relation : Relation) (rightSide : Binary64)
    (name : String) :
    (⟨[(Term.linear column, .one)], relation, rightSide, name⟩ : Row τ).valueAt p = p column := by
  simp [valueAt, Term.valueAt, Term.columns_linear]

end Row

namespace Variable

theorem contains_iff_boundRows (v : Variable) (p : Point) :
    v.bounds.Contains (p v.index)
      ↔ (∀ row ∈ (v.boundRows : List (Row τ)), row.HoldsAt p)
        ∧ v.dropBounds.bounds.Contains (p v.index) := by
  have hlower : (v.lowerRow : Row τ).HoldsAt p ↔ v.bounds.lower.BelowRat (p v.index) := by
    rw [lowerRow, Row.HoldsAt, Row.valueAt_single]
    rfl
  have hupper : (v.upperRow : Row τ).HoldsAt p ↔ v.bounds.upper.AboveRat (p v.index) := by
    rw [upperRow, Row.HoldsAt, Row.valueAt_single]
    rfl
  have hfree := Binary64.belowRat_negativeInfinity (p v.index)
  have hfree' := Binary64.aboveRat_infinity (p v.index)
  unfold boundRows dropBounds Bounds.Contains
  by_cases hl : v.bounds.lowerIsPlain = true
  · by_cases hu : v.bounds.upperIsPlain = true
    · simp [hl, hu]
    · simp [hl, hu, hupper, hfree']
      exact and_comm
  · by_cases hu : v.bounds.upperIsPlain = true
    · simp [hl, hu, hlower, hfree]
    · simp [hl, hu, hlower, hupper, hfree, hfree']

end Variable

namespace RowStore

/-- Rows pushed onto a well-formed store are further conditions. -/
theorem WellFormed.satisfies_pushAll {s : RowStore τ} {columns : Nat} (h : s.WellFormed columns)
    {rows : List (Row τ)} {p : Point} :
    (s.pushAll rows).Satisfies p ↔ s.Satisfies p ∧ ∀ row ∈ rows, row.HoldsAt p := by
  have hs := h.ofRows_toRows
  calc
    (s.pushAll rows).Satisfies p ↔ (ofRows (s.toRows ++ rows)).Satisfies p := by
      rw [← pushAll_ofRows, hs]
    _ ↔ (∀ row ∈ s.toRows, row.HoldsAt p) ∧ ∀ row ∈ rows, row.HoldsAt p := by
      rw [satisfies_ofRows, List.forall_mem_append]
    _ ↔ s.Satisfies p ∧ ∀ row ∈ rows, row.HoldsAt p := by
      rw [← satisfies_ofRows, hs]

end RowStore

namespace Model

@[simp] theorem objective_normalize (m : Model τ) : m.normalize.objective = m.objective :=
  rfl

@[simp] theorem objectiveValue_normalize (m : Model τ) (p : Point) :
    m.normalize.objectiveValue p = m.objectiveValue p :=
  rfl

theorem WellFormed.feasible_normalize {m : Model τ} (h : m.WellFormed) {p : Point} :
    m.normalize.Feasible p ↔ m.Feasible p := by
  have hvars : (∀ v ∈ m.normalize.vars, v.bounds.Contains (p v.index))
      ↔ ∀ v ∈ m.vars, v.dropBounds.bounds.Contains (p v.index) := List.forall_mem_map
  have hrows : (∀ row ∈ m.boundRows, row.HoldsAt p)
      ↔ ∀ v ∈ m.vars, ∀ row ∈ (v.boundRows : List (Row τ)), row.HoldsAt p := by
    simp only [boundRows, List.mem_flatMap]
    constructor
    · intro hall v hv row hrow
      exact hall row ⟨v, hv, hrow⟩
    · rintro hall row ⟨v, hv, hrow⟩
      exact hall v hv row hrow
  unfold Feasible
  rw [hvars]
  show (m.constraints.pushAll m.boundRows).Satisfies p ∧ _ ↔ _
  rw [h.2.1.satisfies_pushAll, hrows]
  constructor
  · intro h
    rcases h with ⟨⟨hold, hnew⟩, hkept⟩
    refine ⟨hold, ?_⟩
    intro v hv
    exact (v.contains_iff_boundRows p).2 ⟨hnew v hv, hkept v hv⟩
  · intro h
    rcases h with ⟨hold, hbounds⟩
    refine ⟨⟨hold, ?_⟩, ?_⟩
    · intro v hv
      exact ((v.contains_iff_boundRows p).1 (hbounds v hv)).1
    · intro v hv
      exact ((v.contains_iff_boundRows (τ := τ) p).1 (hbounds v hv)).2

theorem isFinite_rightSides_normalize {m : Model τ}
    (hsides : ∀ rightSide ∈ m.constraints.rightSides, rightSide.isFinite = true)
    (hbounds : ∀ v ∈ m.vars, v.bounds.IsInterval) :
    ∀ rightSide ∈ m.normalize.constraints.rightSides, rightSide.isFinite = true := by
  intro rightSide hmem
  simp only [normalize, RowStore.rightSides_pushAll, List.mem_append, List.mem_map, boundRows,
    List.mem_flatMap] at hmem
  rcases hmem with hold | ⟨row, ⟨v, hv, hrow⟩, rfl⟩
  · exact hsides rightSide hold
  · obtain ⟨hlower, hupper⟩ := hbounds v hv
    rw [Variable.boundRows, List.mem_append] at hrow
    rcases hrow with hrow | hrow
    · by_cases hplain : v.bounds.lowerIsPlain = true
      · simp [hplain] at hrow
      · have hrow_eq : row = v.lowerRow := by simpa [hplain] using hrow
        rcases hlower with hfinite | hfree
        · rw [hrow_eq]
          exact hfinite
        · exact absurd (Bounds.lowerIsPlain_of_missing hfree) hplain
    · by_cases hplain : v.bounds.upperIsPlain = true
      · simp [hplain] at hrow
      · have hrow_eq : row = v.upperRow := by simpa [hplain] using hrow
        rcases hupper with hfinite | hfree
        · rw [hrow_eq]
          exact hfinite
        · exact absurd (Bounds.upperIsPlain_of_missing hfree) hplain

/-- A point is feasible for a normalized model exactly if it is for the model, and costs the same,
whatever the bounds are. A NaN or an infinity on the wrong side admits no point in either place. -/
theorem feasible_normalize_iff {m : Model τ} (hvalid : m.firstDefect = none) (p : Point) :
    (m.normalize.Feasible p ↔ m.Feasible p)
      ∧ m.normalize.objectiveValue p = m.objectiveValue p := by
  have hwell : m.WellFormed := firstDefect_eq_none_iff.1 hvalid
  exact ⟨hwell.feasible_normalize, m.objectiveValue_normalize p⟩

def boxed (upper : Binary64) : Model QuadraticTerm where
  name := "boxed"
  vars :=
    [⟨0, ⟨.one, upper⟩, .signedInteger, "a", none⟩,
      ⟨1, ⟨-.zero, .ofInt 4⟩, .continuous, "b", none⟩]
  constraints := .ofRows [⟨[(.product 0 1, .one)], .lessEqual, .ofInt 5, "area"⟩]
  objective := ⟨.maximum, [⟨.linear 0, .one⟩, ⟨.linear 1, .ofInt 2⟩]⟩

def boxedPoint : Point :=
  fun column => [2, 5 / 2].getD column 0

theorem feasible_normalize_boxed :
    (boxed (.ofInt 3)).normalize.constraints.size = 4
      ∧ (boxed (.ofInt 3)).normalize.Feasible boxedPoint
      ∧ (boxed (.ofInt 3)).normalize.objectiveValue boxedPoint = 7
      ∧ ¬(boxed .nan).normalize.Feasible boxedPoint
      ∧ ¬(boxed .negativeInfinity).normalize.Feasible boxedPoint := by
  have hinside := feasible_normalize_iff (m := boxed (.ofInt 3)) (by decide +kernel) boxedPoint
  have hnan := feasible_normalize_iff (m := boxed .nan) (by decide +kernel) boxedPoint
  have hbeyond :=
    feasible_normalize_iff (m := boxed .negativeInfinity) (by decide +kernel) boxedPoint
  refine ⟨by decide +kernel, hinside.1.2 (by decide +kernel), ?_, ?_, ?_⟩
  · rw [hinside.2]
    decide +kernel
  · rw [hnan.1]
    decide +kernel
  · rw [hbeyond.1]
    decide +kernel

end Model

end SparseProgram
