import SparseProgram.Proofs.Duality.Homogeneous

/-!
# Strong duality

If a model and its dual both have feasible points, they have feasible points of the same value. If
no admitted pair closed the gap, the conditions would combine to a bound of the scale; read as a
pair, the multipliers of that combination are admitted and widen the gap in the wrong direction
without end, against weak duality.
-/

namespace SparseProgram

open ScaledPair

theorem Sense.sign_mul_sign (sense : Sense) : sense.sign * sense.sign = 1 := by
  cases sense <;> simp [sign]

/-- The sign of a sense cancels itself, also in a multiplier of one position. -/
theorem Sense.sign_mul_single (sense : Sense) (k i : Nat) (p : Rat) :
    sense.sign * (Pi.single k (sense.sign * p) : Point) i = (Pi.single k p : Point) i := by
  rw [Pi.single_apply, Pi.single_apply]
  split
  · rw [← mul_assoc, sign_mul_sign, one_mul]
  · exact mul_zero _

/-- Multipliers that vanish at all rows but one are on the sides of all rows. -/
theorem contains_polar_single {rows : List (Row Nat)} {k : Nat} {row : Row Nat} {p : Rat}
    (hrow : rows[k]? = some row) (hp : row.relation.side.polar.Contains p) (i : Nat)
    (row' : Row Nat) (hrow' : rows[i]? = some row') :
    row'.relation.side.polar.Contains ((Pi.single k p : Point) i) := by
  by_cases hik : i = k
  · subst hik
    obtain rfl : row = row' := Option.some.inj (hrow.symm.trans hrow')
    rwa [Pi.single_eq_same]
  · rw [Pi.single_eq_of_ne hik]
    exact Side.contains_zero _

theorem Row.valueAt_smul (row : Row Nat) (c : Rat) (p : Point) :
    row.valueAt (c • p) = c * row.valueAt p :=
  (linearForm row.cells (·.2.value) (·.1)).map_smul c p

namespace Model

variable {m d : Model Nat}

theorem objectiveValue_smul (m : Model Nat) (c : Rat) (p : Point) :
    m.objectiveValue (c • p) = c * m.objectiveValue p :=
  (linearForm m.objective.cells (·.coefficient.value) (·.term)).map_smul c p

theorem objectiveValue_zero (m : Model Nat) : m.objectiveValue 0 = 0 :=
  (linearForm m.objective.cells (·.coefficient.value) (·.term)).map_zero

/-! ## Sums over rows and columns -/

theorem pairing_zero_left (m : Model Nat) (y : Point) : m.pairing 0 y = 0 := by
  simp [pairing]

theorem pairing_zero_right (m : Model Nat) (x : Point) : m.pairing x 0 = 0 := by
  simp [pairing]

theorem sum_dualRows_eq_pairing (hm : m.WellFormed) (x y : Point) :
    (m.dualRows.mapIdx fun j row => x j * row.valueAt y).sum = m.pairing x y := by
  rw [← sum_columns_eq_pairing hm, dualRows, List.mapIdx_mapIdx]
  simp [Function.comp_def, Row.valueAt, columnValue, Term.valueAt, Term.columns]

theorem objectiveValue_eq_sum_dualRows (hm : m.WellFormed)
    (hcells : (m.objective.cells.map (·.term)).Nodup) (x : Point) :
    m.objectiveValue x = (m.dualRows.mapIdx fun j row => x j * row.rightSide.value).sum := by
  rw [objectiveValue_eq_sum_costs hm hcells, dualRows, List.mapIdx_mapIdx]
  rfl

theorem sum_excess_rows (hm : m.WellFormed) (u : Point) (v : ScaledPair) :
    (m.constraints.toRows.mapIdx fun i row => u i * row.excess point v).sum
      = m.pairing v.1 u - v.2.2 * m.transpose.objectiveValue u := by
  rw [← sum_rows_eq_pairing hm, objectiveValue_transpose hm, mul_sum_mapIdx, ← sum_mapIdx_sub]
  congr 2
  funext i row
  rw [Row.excess_apply, point_apply]
  ring

theorem sum_excess_dualRows (hm : m.WellFormed)
    (hcells : (m.objective.cells.map (·.term)).Nodup) (z : Point) (v : ScaledPair) :
    (m.dualRows.mapIdx fun j row => z j * row.excess multipliers v).sum
      = m.pairing z v.2.1 - v.2.2 * m.objectiveValue z := by
  rw [← sum_dualRows_eq_pairing hm, objectiveValue_eq_sum_dualRows hm hcells, mul_sum_mapIdx,
    ← sum_mapIdx_sub]
  congr 2
  funext j row
  rw [Row.excess_apply, multipliers_apply]
  ring

section Single

variable {k : Nat} {row : Row Nat}

theorem pairing_single_row (hm : m.WellFormed) (hrow : m.constraints.toRows[k]? = some row)
    (x : Point) (q : Rat) : m.pairing x (Pi.single k q) = q * row.valueAt x := by
  rw [← sum_rows_eq_pairing hm, sum_mapIdx_single hrow]

theorem objectiveValue_transpose_single (hm : m.WellFormed)
    (hrow : m.constraints.toRows[k]? = some row) (q : Rat) :
    m.transpose.objectiveValue (Pi.single k q) = q * row.rightSide.value := by
  rw [objectiveValue_transpose hm, sum_mapIdx_single hrow]

theorem pairing_single_column (hm : m.WellFormed) (hrow : m.dualRows[k]? = some row)
    (y : Point) (q : Rat) : m.pairing (Pi.single k q) y = q * row.valueAt y := by
  rw [← sum_dualRows_eq_pairing hm, sum_mapIdx_single hrow]

theorem objectiveValue_single (hm : m.WellFormed)
    (hcells : (m.objective.cells.map (·.term)).Nodup) (hrow : m.dualRows[k]? = some row)
    (q : Rat) : m.objectiveValue (Pi.single k q) = q * row.rightSide.value := by
  rw [objectiveValue_eq_sum_dualRows hm hcells, sum_mapIdx_single hrow]

end Single

/-! ## Combinations -/

/-- Multipliers of the rows, of the columns and of the gap whose combination bounds the scale. -/
structure BoundsScale (m : Model Nat) (u z : Point) (k : Rat) : Prop where
  nonneg : 0 ≤ k
  rows : ∀ (i : Nat) (row : Row Nat), m.constraints.toRows[i]? = some row →
    row.relation.side.polar.Contains (u i)
  columns : ∀ (j : Nat) (row : Row Nat), m.dualRows[j]? = some row →
    row.relation.side.polar.Contains (z j)
  scale_le : ∀ v : ScaledPair, (∀ c ∈ m.signConditions, c.Holds v) →
    v.2.2 ≤ (m.pairing v.1 u - v.2.2 * m.transpose.objectiveValue u)
      + (m.pairing z v.2.1 - v.2.2 * m.objectiveValue z) + k * m.gapForm v

/-- Either some pair closes the gap at a positive scale, or a combination forbids positive scales. -/
theorem exists_boundsScale (hm : m.WellFormed)
    (hcells : (m.objective.cells.map (·.term)).Nodup)
    (h : ¬∃ v, m.Admits v ∧ 0 < v.2.2 ∧ m.gapForm v ≤ 0) : ∃ u z k, m.BoundsScale u z k := by
  have hscale : ∀ v : ScaledPair, (∀ c ∈ m.signConditions, c.Holds v) →
      (∀ c ∈ m.rowConditions ++ (m.columnConditions ++ [⟨.below, m.gapForm⟩]), c.Holds v) →
      scale v ≤ 0 := by
    intro v hsigns hv
    obtain ⟨hrows, hv⟩ := List.forall_mem_append.1 hv
    obtain ⟨hcolumns, hgap⟩ := List.forall_mem_append.1 hv
    by_contra hpos
    exact h ⟨v, ⟨hsigns, hrows, hcolumns⟩, not_le.1 hpos, hgap _ (List.mem_singleton_self _)⟩
  obtain ⟨b, hb, hle⟩ := exists_combines hscale
  obtain ⟨rowPart, rest, hrowPart, hrest, rfl⟩ := hb.of_append
  obtain ⟨columnPart, gapPart, hcolumnPart, hgapPart, rfl⟩ := hrest.of_append
  obtain ⟨u, hu, hrowSum⟩ := hrowPart.of_mapIdx
  obtain ⟨z, hz, hcolumnSum⟩ := hcolumnPart.of_mapIdx
  cases hgapPart with
  | cons k hk hnil =>
      cases hnil
      refine ⟨u, z, k, hk, hu, hz, ?_⟩
      intro v hv
      have hv := hle v hv
      simp only [LinearMap.add_apply, LinearMap.smul_apply, LinearMap.zero_apply, smul_eq_mul,
        hrowSum, hcolumnSum, sum_excess_rows hm, sum_excess_dualRows hm hcells] at hv
      rw [add_zero, ← add_assoc] at hv
      exact hv

namespace BoundsScale

variable {u z : Point} {k : Rat}

/-- The multipliers as a pair: those of the columns are a point, and those of the rows multipliers. -/
def pair (m : Model Nat) (u z : Point) (k : Rat) : ScaledPair :=
  (m.objective.sense.sign • z, -m.objective.sense.sign • u, k)

theorem signs (h : m.BoundsScale u z k) : ∀ c ∈ m.signConditions, c.Holds (pair m u z k) := by
  have hsign (p : Rat) : m.objective.sense.sign * (m.objective.sense.sign * p) = p := by
    rw [← mul_assoc, Sense.sign_mul_sign, one_mul]
  rw [forall_signConditions_iff]
  constructor
  · intro j row hrow
    simpa [pair, hsign] using h.columns j row hrow
  · intro i row hrow
    simpa [pair, hsign] using h.rows i row hrow

/-- The bound of the scale, at the multipliers of one row, puts the row on its side. -/
theorem rowConditions (hm : m.WellFormed) (h : m.BoundsScale u z k) :
    ∀ c ∈ m.rowConditions, c.Holds (pair m u z k) := by
  rw [forall_rowConditions_iff]
  intro row hmem
  obtain ⟨i, hrow⟩ := List.mem_iff_getElem?.1 hmem
  apply Side.contains_of_polar
  intro p hp
  have hsigns : ∀ c ∈ m.signConditions,
      c.Holds ((0, Pi.single i (m.objective.sense.sign * -p), 0) : ScaledPair) := by
    rw [forall_signConditions_iff]
    constructor
    · simp [Side.contains_zero]
    · intro i' row' hrow'
      rw [Sense.sign_mul_single, Pi.single_neg, Pi.neg_apply, neg_neg]
      exact contains_polar_single hrow hp i' row' hrow'
  have hle := h.scale_le _ hsigns
  rw [gapForm_apply, pairing_zero_left, pairing_single_row hm hrow, objectiveValue_zero,
    objectiveValue_transpose_single hm hrow] at hle
  rw [pair, Row.valueAt_smul]
  linear_combination hle + k * p * row.rightSide.value * m.objective.sense.sign_mul_sign

theorem columnConditions (hm : m.WellFormed) (hcells : (m.objective.cells.map (·.term)).Nodup)
    (h : m.BoundsScale u z k) : ∀ c ∈ m.columnConditions, c.Holds (pair m u z k) := by
  rw [forall_columnConditions_iff]
  intro row hmem
  obtain ⟨j, hrow⟩ := List.mem_iff_getElem?.1 hmem
  apply Side.contains_of_polar
  intro p hp
  have hsigns : ∀ c ∈ m.signConditions,
      c.Holds ((Pi.single j (m.objective.sense.sign * p), 0, 0) : ScaledPair) := by
    rw [forall_signConditions_iff]
    constructor
    · intro j' row' hrow'
      rw [Sense.sign_mul_single]
      exact contains_polar_single hrow hp j' row' hrow'
    · simp [Side.contains_zero]
  have hle := h.scale_le _ hsigns
  rw [gapForm_apply, pairing_zero_right, pairing_single_column hm hrow, objectiveValue_zero,
    objectiveValue_single hm hcells hrow] at hle
  rw [pair, Row.valueAt_smul]
  linear_combination hle + k * p * row.rightSide.value * m.objective.sense.sign_mul_sign

theorem admits (hm : m.WellFormed) (hcells : (m.objective.cells.map (·.term)).Nodup)
    (h : m.BoundsScale u z k) : m.Admits (pair m u z k) :=
  ⟨h.signs, h.rowConditions hm, h.columnConditions hm hcells⟩

/-- The bound of the scale, at scale one, puts the gap of the multipliers below minus one. -/
theorem gapForm_pair_le (h : m.BoundsScale u z k) : m.gapForm (pair m u z k) ≤ -1 := by
  have hsigns : ∀ c ∈ m.signConditions, c.Holds ((0, 0, 1) : ScaledPair) := by
    rw [forall_signConditions_iff]
    simp [Side.contains_zero]
  have hle := h.scale_le _ hsigns
  rw [gapForm_apply, pairing_zero_left, pairing_zero_right, objectiveValue_zero,
    objectiveValue_zero] at hle
  rw [gapForm_apply, pair, objectiveValue_smul, objectiveValue_smul]
  linear_combination hle + (m.objectiveValue z + m.transpose.objectiveValue u)
    * m.objective.sense.sign_mul_sign

end BoundsScale

/-! ## Duality -/

section Duality

variable {x y : Point} {v : ScaledPair} (hm : m.HasDual) (hfinite : m.FiniteData)
  (hcells : (m.objective.cells.map (·.term)).Nodup)

include hm hfinite hcells

/-- Admitted at a positive scale, a pair divided by its scale is feasible. -/
theorem Admits.feasible (hv : m.Admits v) (hpos : 0 < v.2.2) :
    m.Feasible (v.2.2⁻¹ • v.1) ∧ m.transpose.Feasible (v.2.2⁻¹ • v.2.1) := by
  have hscaled := hv.smul (inv_nonneg.2 hpos.le)
  rw [← admits_one_iff hm hcells hfinite]
  rwa [Prod.smul_def, Prod.smul_def, smul_eq_mul, inv_mul_cancel₀ hpos.ne'] at hscaled

/-- No pair admitted at a positive scale has a gap below zero. -/
theorem gapForm_nonneg (hv : m.Admits v) (hpos : 0 < v.2.2) : 0 ≤ m.gapForm v := by
  obtain ⟨hx, hy⟩ := hv.feasible hm hfinite hcells hpos
  have hgap : 0 ≤ m.gapForm (v.2.2⁻¹ • v) :=
    sign_mul_gap_transpose_nonneg hm hcells hfinite.rightSides hfinite.costs hx hy
  rw [map_smul, smul_eq_mul] at hgap
  exact nonneg_of_mul_nonneg_right hgap (inv_pos.2 hpos)

/-- Far enough along the multipliers of a combination, the gap of a feasible pair falls below zero
at a positive scale. -/
theorem exists_admits_of_feasible (hx : m.Feasible x) (hy : m.transpose.Feasible y) :
    ∃ v, m.Admits v ∧ 0 < v.2.2 ∧ m.gapForm v ≤ 0 := by
  by_contra hnone
  obtain ⟨u, z, k, hbounds⟩ := exists_boundsScale hm.1 hcells hnone
  have hstart : m.Admits (x, y, 1) := (admits_one_iff hm hcells hfinite).2 ⟨hx, hy⟩
  have hgap := gapForm_nonneg hm hfinite hcells hstart one_pos
  have hpair := hbounds.gapForm_pair_le
  have hfactor : 0 ≤ m.gapForm (x, y, 1) + 1 := by linarith
  have hmoved := hstart.add ((hbounds.admits hm.1 hcells).smul hfactor)
  have hscale : 0 < 1 + (m.gapForm (x, y, 1) + 1) * k :=
    add_pos_of_pos_of_nonneg one_pos (mul_nonneg hfactor hbounds.nonneg)
  have hnonneg := gapForm_nonneg hm hfinite hcells hmoved hscale
  have hless := mul_le_mul_of_nonneg_left hpair hfactor
  rw [map_add, map_smul, smul_eq_mul] at hnonneg
  linarith

end Duality

/-- The dual is tight: where both models have feasible points, some feasible points have one value. -/
theorem strong_duality (hdual : m.dual = .ok d) (hfinite : m.FiniteData)
    (hcells : (m.objective.cells.map (·.term)).Nodup) (hx : ∃ x, m.Feasible x)
    (hy : ∃ y, d.Feasible y) :
    ∃ x y, m.Feasible x ∧ d.Feasible y ∧ m.objectiveValue x = d.objectiveValue y := by
  obtain ⟨hm, rfl⟩ := dual_eq_ok_iff.1 hdual
  obtain ⟨x, hx⟩ := hx
  obtain ⟨y, hy⟩ := hy
  obtain ⟨v, hv, hpos, hgap⟩ := exists_admits_of_feasible hm hfinite hcells hx hy
  obtain ⟨hx, hy⟩ := hv.feasible hm hfinite hcells hpos
  refine ⟨_, _, hx, hy, ?_⟩
  have hzero : m.gapForm v = 0 := le_antisymm hgap (gapForm_nonneg hm hfinite hcells hv hpos)
  have hsign : m.objective.sense.sign ≠ 0 := left_ne_zero_of_mul_eq_one
    m.objective.sense.sign_mul_sign
  rw [gapForm_apply] at hzero
  rw [objectiveValue_smul, objectiveValue_smul,
    sub_eq_zero.1 ((mul_eq_zero.1 hzero).resolve_left hsign)]

def signedTriple : Model Nat where
  name := "triple"
  vars :=
    [⟨0, .free, .signedInteger, "a", none⟩,
      ⟨1, ⟨-.zero, .infinity⟩, .continuous, "b", none⟩,
      ⟨2, ⟨.negativeInfinity, .zero⟩, .continuous, "c", none⟩]
  constraints :=
    .ofRows
      [⟨[(1, .one), (0, .one)], .greaterEqual, .ofInt 2, "floor"⟩,
        ⟨[(0, .one), (2, -.one)], .lessEqual, .ofInt 4, "cap"⟩]
  objective := ⟨.minimum, [⟨2, -.one⟩, ⟨0, .one⟩, ⟨1, .ofInt 3⟩]⟩

def signedTriplePoint : Point :=
  fun column => [3, 1, 0].getD column 0

def signedTripleMultipliers : Point :=
  fun row => [2, -1].getD row 0

theorem strong_duality_signedTriple :
    ∃ d, signedTriple.dual = .ok d
      ∧ signedTriple.Feasible signedTriplePoint ∧ signedTriple.objectiveValue signedTriplePoint = 6
      ∧ d.Feasible signedTripleMultipliers ∧ d.objectiveValue signedTripleMultipliers = 0
      ∧ ∃ x y, signedTriple.Feasible x ∧ d.Feasible y
        ∧ signedTriple.objectiveValue x = d.objectiveValue y := by
  have hdual : signedTriple.dual = .ok signedTriple.transpose := by decide +kernel
  have hfinite : signedTriple.FiniteData :=
    ⟨by decide +kernel, by decide +kernel, by decide +kernel⟩
  have hx : signedTriple.Feasible signedTriplePoint := by decide +kernel
  have hy : signedTriple.transpose.Feasible signedTripleMultipliers := by decide +kernel
  exact ⟨_, hdual, hx, by decide +kernel, hy, by decide +kernel,
    strong_duality hdual hfinite (by decide +kernel) ⟨_, hx⟩ ⟨_, hy⟩⟩

end Model

end SparseProgram
