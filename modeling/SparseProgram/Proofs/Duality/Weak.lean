import SparseProgram.Proofs.Duality.Gap
import SparseProgram.Proofs.Model.Normalization

/-!
# Weak duality

No feasible point of a dual has a better value than a feasible point of its model, also when the
model was normalized first.
-/

namespace SparseProgram

namespace Sense

theorem sign_reverse (sense : Sense) : sense.reverse.sign = -sense.sign := by
  cases sense <;> simp [reverse, sign]

/-- Equalities leave their multipliers free, and inequalities give them the sign of the sense. -/
theorem contains_dualBounds_iff {sense : Sense} {relation : Relation} {q : Rat} :
    (sense.dualBounds relation).Contains q
      ↔ (relation = .lessEqual → sense.sign * q ≤ 0)
        ∧ (relation = .greaterEqual → 0 ≤ sense.sign * q) := by
  have hbelow := Binary64.belowRat_iff Binary64.isFinite_zero (q := q)
  have habove := Binary64.aboveRat_iff Binary64.isFinite_zero (q := q)
  have hfree := Binary64.belowRat_negativeInfinity q
  have hfree' := Binary64.aboveRat_infinity q
  rw [Binary64.value_zero] at hbelow habove
  cases sense <;> cases relation <;>
    simp [dualBounds, Bounds.free, Bounds.Contains, sign, hbelow, habove, hfree, hfree']

end Sense

/-- A bound by zero is the bound of the multipliers of the dual row, seen from the dual. -/
theorem Bounds.contains_iff_of_dualRelation {sense : Sense} {b : Bounds} {relation : Relation}
    {q : Rat} (h : sense.dualRelation b.shape = some relation) :
    b.Contains q ↔ (sense.reverse.dualBounds relation).Contains q := by
  rw [Sense.contains_dualBounds_iff, Sense.sign_reverse]
  cases hshape : b.shape with
  | free =>
      have hequal : relation = .equal := by
        cases sense <;> simpa [Sense.dualRelation, hshape] using h.symm
      simp [hequal, contains_of_free hshape]
  | nonNegative =>
      rw [contains_iff_nonneg hshape]
      cases sense <;> simp [Sense.dualRelation, hshape] at h <;> subst h <;> simp [Sense.sign]
  | nonPositive =>
      rw [contains_iff_nonpos hshape]
      cases sense <;> simp [Sense.dualRelation, hshape] at h <;> subst h <;> simp [Sense.sign]
  | other => cases sense <;> simp [Sense.dualRelation, hshape] at h

/-- A row and its multiplier pull the gap in the direction of the sense. -/
theorem sign_mul_gap_nonneg {sense : Sense} {relation : Relation} {rightSide : Binary64}
    {a q : Rat} (hfinite : rightSide.isFinite = true) (hrow : relation.Holds a rightSide)
    (hq : (sense.dualBounds relation).Contains q) :
    0 ≤ sense.sign * (q * (a - rightSide.value)) := by
  obtain ⟨hless, hgreater⟩ := Sense.contains_dualBounds_iff.1 hq
  have habove := Binary64.aboveRat_iff hfinite (q := a)
  have hbelow := Binary64.belowRat_iff hfinite (q := a)
  rw [← mul_assoc]
  cases relation with
  | equal =>
      have heq : a = rightSide.value := le_antisymm (habove.1 hrow.1) (hbelow.1 hrow.2)
      simp [heq]
  | lessEqual =>
      have hle : a - rightSide.value ≤ 0 := sub_nonpos.2 (habove.1 hrow)
      exact mul_nonneg_of_nonpos_of_nonpos (hless rfl) hle
  | greaterEqual =>
      have hle : 0 ≤ a - rightSide.value := sub_nonneg.2 (hbelow.1 hrow)
      exact mul_nonneg (hgreater rfl) hle

namespace Model

variable {m : Model Nat} {x y : Point}

theorem sign_mul_rowGap_nonneg (hm : m.WellFormed)
    (hfinite : ∀ rightSide ∈ m.constraints.rightSides, rightSide.isFinite = true)
    (hx : m.Feasible x) (hy : m.transpose.Feasible y) (i : Nat) (row : Row Nat)
    (hrow : m.constraints.toRows[i]? = some row) :
    0 ≤ m.objective.sense.sign * (y i * (row.valueAt x - row.rightSide.value)) := by
  have hrows := hm.2.1.ofRows_toRows
  have hmem : row ∈ m.constraints.toRows := List.mem_of_getElem? hrow
  have hside : row.rightSide.isFinite = true := by
    apply hfinite
    rw [← hrows, RowStore.rightSides_ofRows]
    exact List.mem_map_of_mem hmem
  have hholds : row.HoldsAt x := by
    have hsatisfies := hx.1
    rw [← hrows, RowStore.satisfies_ofRows] at hsatisfies
    exact hsatisfies row hmem
  have hmultiplier : (m.objective.sense.dualBounds row.relation).Contains (y i) := by
    obtain ⟨hi, rfl⟩ := List.getElem?_eq_some_iff.1 hrow
    have hvars := hy.2
    rw [vars_transpose, dualVariables_eq hrows.symm] at hvars
    exact hvars _ (List.mem_mapIdx.2 ⟨i, hi, rfl⟩)
  exact sign_mul_gap_nonneg hside hholds hmultiplier

theorem sign_mul_columnGap_nonneg (hm : m.HasDual)
    (hcells : (m.objective.cells.map (·.term)).Nodup)
    (hfinite : ∀ cell ∈ m.objective.cells, cell.coefficient.isFinite = true)
    (hx : m.Feasible x) (hy : m.transpose.Feasible y) (j : Nat) (v : Variable)
    (hv : m.vars[j]? = some v) :
    0 ≤ m.objective.sense.sign * (x j * ((m.cost j).value - m.columnValue y j)) := by
  have hmem : v ∈ m.vars := List.mem_of_getElem? hv
  have hcontains : v.bounds.Contains (x j) := by
    have hbound := hx.2 v hmem
    rwa [hm.1.index_eq hv] at hbound
  obtain ⟨relation, hrelation⟩ : ∃ relation,
      m.objective.sense.dualRelation v.shape = some relation := by
    apply Option.ne_none_iff_exists'.1
    rw [Ne, Sense.dualRelation_eq_none_iff]
    exact hm.2 v hmem
  have hholds : relation.Holds (m.columnValue y j) (m.cost j) := by
    obtain ⟨hj, rfl⟩ := List.getElem?_eq_some_iff.1 hv
    have hsatisfies := RowStore.satisfies_ofRows.1 hy.1 _ (List.mem_mapIdx.2 ⟨j, hj, rfl⟩)
    simp only [Row.HoldsAt, hrelation, Option.getD_some] at hsatisfies
    simpa [Row.valueAt, columnValue, Term.valueAt, Term.columns] using hsatisfies
  -- A column of the model is a row of its dual, where the variable is the multiplier.
  have hgap := sign_mul_gap_nonneg (isFinite_cost hcells hfinite j) hholds
    ((Bounds.contains_iff_of_dualRelation hrelation).1 hcontains)
  rw [Sense.sign_reverse] at hgap
  linarith

/-- The sign of the gap between the objectives of a model and its dual. -/
theorem sign_mul_gap_transpose_nonneg (hm : m.HasDual)
    (hcells : (m.objective.cells.map (·.term)).Nodup)
    (hsides : ∀ rightSide ∈ m.constraints.rightSides, rightSide.isFinite = true)
    (hcosts : ∀ cell ∈ m.objective.cells, cell.coefficient.isFinite = true)
    (hx : m.Feasible x) (hy : m.transpose.Feasible y) :
    0 ≤ m.objective.sense.sign * (m.objectiveValue x - m.transpose.objectiveValue y) := by
  have hcolumns : 0 ≤ m.objective.sense.sign * (m.columnGaps x y).sum :=
    sum_mapIdx_nonneg (sign_mul_columnGap_nonneg hm hcells hcosts hx hy)
  have hrows : 0 ≤ m.objective.sense.sign * (m.rowGaps x y).sum :=
    sum_mapIdx_nonneg (sign_mul_rowGap_nonneg hm.1 hsides hx hy)
  rw [gap_eq hm.1 hcells, mul_add]
  exact add_nonneg hcolumns hrows

/-- Bounds moved into rows, and rows and columns exchanged: the objective of the dual stays on its
side of the objective of the model, whatever feasible points they are taken at. -/
theorem weak_duality_normalize {d : Model Nat} (hvalid : m.firstDefect = none)
    (hfinite : m.FiniteData) (hbounds : ∀ v ∈ m.vars, v.bounds.IsInterval)
    (hcells : (m.objective.cells.map (·.term)).Nodup) (hdual : m.normalize.dual = .ok d)
    (hx : m.Feasible x) (hy : d.Feasible y) :
    (m.objective.sense = .minimum → d.objectiveValue y ≤ m.objectiveValue x)
      ∧ (m.objective.sense = .maximum → m.objectiveValue x ≤ d.objectiveValue y) := by
  obtain ⟨hnormal, rfl⟩ := dual_eq_ok_iff.1 hdual
  have hwell := firstDefect_eq_none_iff.1 hvalid
  have hgap := sign_mul_gap_transpose_nonneg hnormal hcells
    (isFinite_rightSides_normalize hfinite.rightSides hbounds) hfinite.costs
    (hwell.feasible_normalize.2 hx) hy
  rw [objectiveValue_normalize, objective_normalize] at hgap
  constructor
  · intro hsense
    rw [hsense, Sense.sign] at hgap
    linarith
  · intro hsense
    rw [hsense, Sense.sign] at hgap
    linarith

def boundedPair : Model Nat where
  name := "pair"
  vars :=
    [⟨0, ⟨.one, .ofInt 8⟩, .continuous, "a", none⟩,
      ⟨1, ⟨.zero, .infinity⟩, .continuous, "b", none⟩]
  constraints :=
    .ofRows
      [⟨[(0, .one), (1, .one)], .greaterEqual, .ofInt 2, "cover"⟩,
        ⟨[(0, .one), (1, -.one)], .lessEqual, .one, "spread"⟩]
  objective := ⟨.minimum, [⟨0, .one⟩, ⟨1, .ofInt 2⟩]⟩

def boundedPairPoint : Point :=
  fun column => [3 / 2, 1 / 2].getD column 0

def boundedPairMultipliers : Point :=
  fun row => [1 / 2, 0, 1 / 2, 0].getD row 0

theorem weak_duality_boundedPair :
    ∃ d, boundedPair.normalize.dual = .ok d ∧ boundedPair.Feasible boundedPairPoint
      ∧ d.Feasible boundedPairMultipliers
      ∧ (boundedPair.objective.sense = .minimum →
          d.objectiveValue boundedPairMultipliers
            ≤ boundedPair.objectiveValue boundedPairPoint)
      ∧ (boundedPair.objective.sense = .maximum →
          boundedPair.objectiveValue boundedPairPoint
            ≤ d.objectiveValue boundedPairMultipliers) := by
  have hdual : boundedPair.normalize.dual = .ok boundedPair.normalize.transpose := by
    decide +kernel
  have hfinite : boundedPair.FiniteData :=
    ⟨by decide +kernel, by decide +kernel, by decide +kernel⟩
  have hx : boundedPair.Feasible boundedPairPoint := by decide +kernel
  have hy : boundedPair.normalize.transpose.Feasible boundedPairMultipliers := by decide +kernel
  exact ⟨_, hdual, hx, hy,
    weak_duality_normalize (by decide +kernel) hfinite (by decide +kernel) (by decide +kernel)
      hdual hx hy⟩

end Model

end SparseProgram
