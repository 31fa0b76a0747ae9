import SparseProgram.Proofs.Duality.Weak

/-!
# Complementary slackness

Between feasible points of a model and its dual there is no gap exactly if every variable times the
slack of its dual row is zero, and every multiplier times the slack of its row. Both points are
optimal then.
-/

namespace SparseProgram

def RowStore.rowValueAt {τ : Type} [Term τ] (s : RowStore τ) (p : Point) (number : Nat) : Rat :=
  rowValue p (s.slices.getD number [])

theorem RowStore.rowValueAt_ofRows {τ : Type} [Term τ] {rows : List (Row τ)} {number : Nat}
    {row : Row τ} (h : rows[number]? = some row) (p : Point) :
    (ofRows rows).rowValueAt p number = row.valueAt p := by
  rw [rowValueAt, slices_ofRows, List.getD_eq_getElem?_getD, List.getElem?_mapIdx, h]
  exact row.rowValue_cellsAt p number

namespace Model

variable {m d : Model Nat} {x y : Point}

/-- What the objective counts one unit of a column for. -/
def objectiveCoefficient (m : Model Nat) (j : Nat) : Rat :=
  ((m.objective.cells.filter (·.term == j)).map (·.coefficient.value)).sum

/-- A column at a value other than zero has no slack in its dual row, and a row with slack has the
multiplier zero. -/
structure IsComplementary (m d : Model Nat) (x y : Point) : Prop where
  columns : ∀ j < m.vars.length,
    x j * (m.objectiveCoefficient j - d.constraints.rowValueAt y j) = 0
  rows : ∀ i rightSide, m.constraints.rightSides[i]? = some rightSide →
    y i * (m.constraints.rowValueAt x i - rightSide.value) = 0

theorem rowValueAt_transpose {j : Nat} {v : Variable} (hv : m.vars[j]? = some v) (y : Point) :
    m.transpose.constraints.rowValueAt y j = m.columnValue y j := by
  have hrow : m.dualRows[j]? = some
      ⟨m.column j, (m.objective.sense.dualRelation v.shape).getD .equal, m.cost j,
        v.name ++ "_dual"⟩ := by
    rw [dualRows, List.getElem?_mapIdx, hv]
    rfl
  rw [constraints_transpose, RowStore.rowValueAt_ofRows hrow]
  simp [Row.valueAt, columnValue, Term.valueAt, Term.columns]

/-- Complementary slackness says that no gap between the two objectives is left anywhere. -/
theorem isComplementary_transpose_iff (hm : m.WellFormed)
    (hcells : (m.objective.cells.map (·.term)).Nodup) :
    m.IsComplementary m.transpose x y
      ↔ (∀ j v, m.vars[j]? = some v → x j * ((m.cost j).value - m.columnValue y j) = 0)
        ∧ ∀ i row, m.constraints.toRows[i]? = some row →
          y i * (row.valueAt x - row.rightSide.value) = 0 := by
  have hrows := hm.2.1.ofRows_toRows
  have hcolumn : ∀ j v, m.vars[j]? = some v →
      m.objectiveCoefficient j - m.transpose.constraints.rowValueAt y j
        = (m.cost j).value - m.columnValue y j := by
    intro j v hv
    rw [rowValueAt_transpose hv, value_cost hcells, objectiveCoefficient]
  have hrow : ∀ i row, m.constraints.toRows[i]? = some row →
      m.constraints.rowValueAt x i = row.valueAt x
        ∧ m.constraints.rightSides[i]? = some row.rightSide := by
    intro i row hrow
    rw [← hrows]
    constructor
    · exact RowStore.rowValueAt_ofRows hrow x
    · rw [RowStore.rightSides_ofRows, List.getElem?_map, hrow]
      rfl
  constructor
  · intro h
    constructor
    · intro j v hv
      rw [← hcolumn j v hv]
      exact h.columns j (List.getElem?_eq_some_iff.1 hv).1
    · intro i row hi
      obtain ⟨hvalue, hside⟩ := hrow i row hi
      rw [← hvalue]
      exact h.rows i row.rightSide hside
  · intro h
    constructor
    case columns =>
      intro j hj
      have hv := List.getElem?_eq_getElem hj
      rw [hcolumn j _ hv]
      exact h.1 j _ hv
    case rows =>
      intro i rightSide hside
      rw [← hrows, RowStore.rightSides_ofRows, List.getElem?_map] at hside
      obtain ⟨row, hi, rfl⟩ := Option.map_eq_some_iff.1 hside
      rw [(hrow i row hi).1]
      exact h.2 i row hi

/-- The gap is a sum of gaps of one sign, so it vanishes only where all of them do. -/
theorem objectiveValue_eq_transpose_iff (hm : m.HasDual) (hfinite : m.FiniteData)
    (hcells : (m.objective.cells.map (·.term)).Nodup) (hx : m.Feasible x)
    (hy : m.transpose.Feasible y) :
    m.objectiveValue x = m.transpose.objectiveValue y ↔ m.IsComplementary m.transpose x y := by
  have hcolumn := sign_mul_columnGap_nonneg hm hcells hfinite.costs hx hy
  have hrow := sign_mul_rowGap_nonneg hm.1 hfinite.rightSides hx hy
  have hcolumns : 0 ≤ m.objective.sense.sign * (m.columnGaps x y).sum := sum_mapIdx_nonneg hcolumn
  have hrows : 0 ≤ m.objective.sense.sign * (m.rowGaps x y).sum := sum_mapIdx_nonneg hrow
  have hgap := gap_eq hm.1 hcells x y
  have hsign : m.objective.sense.sign ≠ 0 := by
    cases m.objective.sense <;> simp [Sense.sign]
  rw [isComplementary_transpose_iff hm.1 hcells, ← sum_mapIdx_eq_zero_iff hsign hcolumn,
    ← sum_mapIdx_eq_zero_iff hsign hrow]
  change _ ↔ (m.columnGaps x y).sum = 0 ∧ (m.rowGaps x y).sum = 0
  constructor
  · intro heq
    rw [heq, sub_self] at hgap
    cases hsense : m.objective.sense <;> rw [hsense, Sense.sign] at hcolumns hrows <;>
      constructor <;> linarith
  · intro hzero
    linarith [hzero.1, hzero.2]

theorem isOptimal_of_objectiveValue_eq (hm : m.HasDual) (hfinite : m.FiniteData)
    (hcells : (m.objective.cells.map (·.term)).Nodup) (hx : m.Feasible x)
    (hy : m.transpose.Feasible y) (heq : m.objectiveValue x = m.transpose.objectiveValue y) :
    m.IsOptimal x ∧ m.transpose.IsOptimal y := by
  have hsense : m.transpose.objective.sense.sign = -m.objective.sense.sign :=
    Sense.sign_reverse m.objective.sense
  constructor
  · refine ⟨hx, ?_⟩
    intro q hq
    have hgap := sign_mul_gap_transpose_nonneg hm hcells hfinite.rightSides hfinite.costs hq hy
    rw [← heq, mul_sub, sub_nonneg] at hgap
    rw [prefers_iff]
    exact not_lt.2 hgap
  · refine ⟨hy, ?_⟩
    intro q hq
    have hgap := sign_mul_gap_transpose_nonneg hm hcells hfinite.rightSides hfinite.costs hx hq
    rw [heq, mul_sub, sub_nonneg] at hgap
    rw [prefers_iff, hsense, neg_mul, neg_mul, neg_lt_neg_iff]
    exact not_lt.2 hgap

/-- Feasible points of a model and its dual have the same value exactly if they are complementary,
and then no other feasible points have better values. -/
theorem complementary_slackness (hdual : m.dual = .ok d) (hfinite : m.FiniteData)
    (hcells : (m.objective.cells.map (·.term)).Nodup) (hx : m.Feasible x) (hy : d.Feasible y) :
    (m.objectiveValue x = d.objectiveValue y ↔ m.IsComplementary d x y)
      ∧ (m.objectiveValue x = d.objectiveValue y → m.IsOptimal x ∧ d.IsOptimal y) := by
  obtain ⟨hm, rfl⟩ := dual_eq_ok_iff.1 hdual
  exact ⟨objectiveValue_eq_transpose_iff hm hfinite hcells hx hy,
    isOptimal_of_objectiveValue_eq hm hfinite hcells hx hy⟩

def mixture : Model Nat where
  name := "mixture"
  vars :=
    [⟨0, .free, .continuous, "a", none⟩,
      ⟨1, ⟨.negativeInfinity, -.zero⟩, .signedInteger, "b", none⟩,
      ⟨2, ⟨.zero, .infinity⟩, .continuous, "c", some .one⟩]
  constraints :=
    .ofRows
      [⟨[(0, .one), (2, .one)], .lessEqual, .ofInt 4, "cap"⟩,
        ⟨[(1, .ofInt 2), (0, .one)], .greaterEqual, .one, "floor"⟩,
        ⟨[(0, .one), (1, -.one), (0, .one)], .equal, .ofInt 6, "blend"⟩]
  objective := ⟨.maximum, [⟨2, .ofInt 3⟩, ⟨0, .ofInt 5⟩]⟩

def mixturePoint : Point :=
  fun column => [3, 0, 1].getD column 0

def mixtureMultipliers : Point :=
  fun row => [3, 0, 1].getD row 0

def looseMultipliers : Point :=
  fun row => [4, -1, 1].getD row 0

theorem complementary_slackness_mixture :
    ∃ d, mixture.dual = .ok d
      ∧ mixture.IsComplementary d mixturePoint mixtureMultipliers
      ∧ mixture.IsOptimal mixturePoint ∧ d.IsOptimal mixtureMultipliers
      ∧ d.Feasible looseMultipliers
      ∧ ¬mixture.IsComplementary d mixturePoint looseMultipliers := by
  have hdual : mixture.dual = .ok mixture.transpose := by decide +kernel
  have hfinite : mixture.FiniteData := ⟨by decide +kernel, by decide +kernel, by decide +kernel⟩
  have hx : mixture.Feasible mixturePoint := by decide +kernel
  have hy : mixture.transpose.Feasible mixtureMultipliers := by decide +kernel
  have hloose : mixture.transpose.Feasible looseMultipliers := by decide +kernel
  have htight := complementary_slackness hdual hfinite (by decide +kernel) hx hy
  have hslack := complementary_slackness hdual hfinite (by decide +kernel) hx hloose
  have heq : mixture.objectiveValue mixturePoint
      = mixture.transpose.objectiveValue mixtureMultipliers := by decide +kernel
  have hne : mixture.objectiveValue mixturePoint
      ≠ mixture.transpose.objectiveValue looseMultipliers := by decide +kernel
  obtain ⟨hpoint, hmultipliers⟩ := htight.2 heq
  exact ⟨_, hdual, htight.1.1 heq, hpoint, hmultipliers, hloose, fun h => hne (hslack.1.2 h)⟩

end Model

end SparseProgram
