import SparseProgram.Proofs.Duality.Alternative
import SparseProgram.Proofs.Duality.Weak

/-!
# Homogeneous conditions

The rows and bounds of a model and of its dual as conditions on one vector: a point, multipliers, and
a scale for all right-hand sides. At scale one they say that both are feasible, and they survive sums
and nonnegative multiples.
-/

namespace SparseProgram

namespace Relation

/-- Where a value less its right-hand side is to be. -/
def side : Relation → Side
  | lessEqual => .below
  | greaterEqual => .above
  | equal => .zero

theorem holds_iff_side {relation : Relation} {q : Rat} {rightSide : Binary64}
    (hfinite : rightSide.isFinite = true) :
    relation.Holds q rightSide ↔ relation.side.Contains (q - rightSide.value) := by
  have habove := Binary64.aboveRat_iff hfinite (q := q)
  have hbelow := Binary64.belowRat_iff hfinite (q := q)
  cases relation with
  | lessEqual => exact habove.trans sub_nonpos.symm
  | greaterEqual => exact hbelow.trans sub_nonneg.symm
  | equal => exact (and_congr habove hbelow).trans (antisymm_iff.trans sub_eq_zero.symm)

/-- The multipliers of a row are on the polar side, up to the sign of the sense. -/
theorem contains_dualBounds_iff_polar {relation : Relation} {sense : Sense} {q : Rat} :
    (sense.dualBounds relation).Contains q
      ↔ relation.side.polar.Contains (-(sense.sign * q)) := by
  rw [Sense.contains_dualBounds_iff]
  cases relation <;> simp [side, Side.polar, Side.Contains]

end Relation

theorem Bounds.contains_iff_polar {b : Bounds} {sense : Sense} {relation : Relation} {q : Rat}
    (h : sense.dualRelation b.shape = some relation) :
    b.Contains q ↔ relation.side.polar.Contains (sense.sign * q) := by
  rw [contains_iff_of_dualRelation h, Relation.contains_dualBounds_iff_polar, Sense.sign_reverse,
    neg_mul, neg_neg]

theorem Row.holdsAt_iff_side {row : Row Nat} (hfinite : row.rightSide.isFinite = true)
    (p : Point) :
    row.HoldsAt p ↔ row.relation.side.Contains (row.valueAt p - row.rightSide.value * 1) := by
  rw [Row.HoldsAt, Relation.holds_iff_side hfinite, mul_one]

/-! ## Linear forms -/

def linearForm {α : Type} (l : List α) (coefficient : α → Rat) (column : α → Nat) :
    Point →ₗ[Rat] Rat where
  toFun p := (l.map fun a => coefficient a * Term.valueAt p (column a)).sum
  map_add' p q := by
    simp only [Term.valueAt, Term.columns, Option.elim_none, Pi.add_apply, mul_one, mul_add,
      List.sum_map_add]
  map_smul' c p := by
    simp only [Term.valueAt, Term.columns, Option.elim_none, Pi.smul_apply, smul_eq_mul, mul_one,
      mul_left_comm _ c, List.sum_map_mul_left, RingHom.id_apply]

/-- A point, multipliers, and a scale. -/
abbrev ScaledPair :=
  Point × Point × Rat

namespace ScaledPair

def point : ScaledPair →ₗ[Rat] Point :=
  LinearMap.fst Rat Point (Point × Rat)

def multipliers : ScaledPair →ₗ[Rat] Point :=
  LinearMap.fst Rat Point Rat ∘ₗ LinearMap.snd Rat Point (Point × Rat)

def scale : ScaledPair →ₗ[Rat] Rat :=
  LinearMap.snd Rat Point Rat ∘ₗ LinearMap.snd Rat Point (Point × Rat)

theorem point_apply (v : ScaledPair) : point v = v.1 :=
  rfl

theorem multipliers_apply (v : ScaledPair) : multipliers v = v.2.1 :=
  rfl

end ScaledPair

open ScaledPair

/-- How far a row is beyond its right-hand side at a scale, at one of the two points. -/
def Row.excess (row : Row Nat) (half : ScaledPair →ₗ[Rat] Point) : ScaledPair →ₗ[Rat] Rat :=
  linearForm row.cells (·.2.value) (·.1) ∘ₗ half - row.rightSide.value • scale

theorem Row.excess_apply (row : Row Nat) (half : ScaledPair →ₗ[Rat] Point) (v : ScaledPair) :
    row.excess half v = row.valueAt (half v) - row.rightSide.value * v.2.2 :=
  rfl

namespace Model

variable {m : Model Nat}

/-- How far the objectives are apart, in the direction of the sense. -/
def gapForm (m : Model Nat) : ScaledPair →ₗ[Rat] Rat :=
  m.objective.sense.sign •
    (linearForm m.objective.cells (·.coefficient.value) (·.term) ∘ₗ point
      - linearForm m.transpose.objective.cells (·.coefficient.value) (·.term) ∘ₗ multipliers)

theorem gapForm_apply (m : Model Nat) (v : ScaledPair) :
    m.gapForm v
      = m.objective.sense.sign * (m.objectiveValue v.1 - m.transpose.objectiveValue v.2.1) :=
  rfl

/-! ## Conditions -/

def rowConditions (m : Model Nat) : List (Condition ScaledPair) :=
  m.constraints.toRows.mapIdx fun _ row => ⟨row.relation.side, row.excess point⟩

def columnConditions (m : Model Nat) : List (Condition ScaledPair) :=
  m.dualRows.mapIdx fun _ row => ⟨row.relation.side, row.excess multipliers⟩

/-- The bounds of both models: the columns of each are the rows of the other. -/
def signConditions (m : Model Nat) : List (Condition ScaledPair) :=
  (m.dualRows.mapIdx fun j row =>
      ⟨row.relation.side.polar, m.objective.sense.sign • (LinearMap.proj j ∘ₗ point)⟩)
    ++ m.constraints.toRows.mapIdx fun i row =>
      ⟨row.relation.side.polar, -(m.objective.sense.sign • (LinearMap.proj i ∘ₗ multipliers))⟩

/-- The conditions on a pair at a scale. -/
structure Admits (m : Model Nat) (v : ScaledPair) : Prop where
  signs : ∀ c ∈ m.signConditions, c.Holds v
  rows : ∀ c ∈ m.rowConditions, c.Holds v
  columns : ∀ c ∈ m.columnConditions, c.Holds v

namespace Admits

variable {v w : ScaledPair} {q : Rat}

theorem add (hv : m.Admits v) (hw : m.Admits w) : m.Admits (v + w) where
  signs c hc := (hv.signs c hc).add (hw.signs c hc)
  rows c hc := (hv.rows c hc).add (hw.rows c hc)
  columns c hc := (hv.columns c hc).add (hw.columns c hc)

theorem smul (hv : m.Admits v) (hq : 0 ≤ q) : m.Admits (q • v) where
  signs c hc := (hv.signs c hc).smul hq
  rows c hc := (hv.rows c hc).smul hq
  columns c hc := (hv.columns c hc).smul hq

end Admits

theorem forall_signConditions_iff {v : ScaledPair} :
    (∀ c ∈ m.signConditions, c.Holds v)
      ↔ (∀ (j : Nat) (row : Row Nat), m.dualRows[j]? = some row →
          row.relation.side.polar.Contains (m.objective.sense.sign * v.1 j))
        ∧ ∀ (i : Nat) (row : Row Nat), m.constraints.toRows[i]? = some row →
          row.relation.side.polar.Contains (-(m.objective.sense.sign * v.2.1 i)) := by
  rw [signConditions, List.forall_mem_append]
  exact and_congr forall_mem_mapIdx forall_mem_mapIdx

theorem forall_rowConditions_iff {v : ScaledPair} :
    (∀ c ∈ m.rowConditions, c.Holds v)
      ↔ ∀ row ∈ m.constraints.toRows,
        row.relation.side.Contains (row.valueAt v.1 - row.rightSide.value * v.2.2) := by
  rw [rowConditions, mapIdx_ignore, List.forall_mem_map]
  exact Iff.rfl

theorem forall_columnConditions_iff {v : ScaledPair} :
    (∀ c ∈ m.columnConditions, c.Holds v)
      ↔ ∀ row ∈ m.dualRows,
        row.relation.side.Contains (row.valueAt v.2.1 - row.rightSide.value * v.2.2) := by
  rw [columnConditions, mapIdx_ignore, List.forall_mem_map]
  exact Iff.rfl

/-! ## Scale one -/

section ScaleOne

variable {x y : Point}

/-- Bounds of variables are sides of dual rows. -/
theorem forall_contains_iff (hm : m.HasDual) :
    (∀ v ∈ m.vars, v.bounds.Contains (x v.index))
      ↔ ∀ (j : Nat) (row : Row Nat), m.dualRows[j]? = some row →
        row.relation.side.polar.Contains (m.objective.sense.sign * x j) := by
  have hcontains (j : Nat) (v : Variable) (hv : m.vars[j]? = some v) :
      v.bounds.Contains (x v.index)
        ↔ ((m.objective.sense.dualRelation v.shape).getD .equal).side.polar.Contains
          (m.objective.sense.sign * x j) := by
    obtain ⟨relation, hrelation⟩ : ∃ relation,
        m.objective.sense.dualRelation v.shape = some relation := by
      apply Option.ne_none_iff_exists'.1
      rw [Ne, Sense.dualRelation_eq_none_iff]
      exact hm.2 v (List.mem_of_getElem? hv)
    rw [hm.1.index_eq hv, hrelation]
    exact Bounds.contains_iff_polar hrelation
  simp only [dualRows, List.getElem?_mapIdx, Option.map_eq_some_iff, forall_exists_index, and_imp,
    forall_apply_eq_imp_iff₂]
  constructor
  · intro h j v hv
    exact (hcontains j v hv).1 (h v (List.mem_of_getElem? hv))
  · intro h v hmem
    obtain ⟨j, hv⟩ := List.mem_iff_getElem?.1 hmem
    exact (hcontains j v hv).2 (h j v hv)

/-- Bounds of dual variables are sides of rows. -/
theorem forall_contains_transpose_iff (hm : m.WellFormed) :
    (∀ v ∈ m.transpose.vars, v.bounds.Contains (y v.index))
      ↔ ∀ (i : Nat) (row : Row Nat), m.constraints.toRows[i]? = some row →
        row.relation.side.polar.Contains (-(m.objective.sense.sign * y i)) := by
  rw [vars_transpose, dualVariables_eq hm.2.1.ofRows_toRows.symm, forall_mem_mapIdx]
  simp only [Relation.contains_dualBounds_iff_polar]

theorem admits_one_iff (hm : m.HasDual)
    (hcells : (m.objective.cells.map (·.term)).Nodup) (hfinite : m.FiniteData) :
    m.Admits (x, y, 1) ↔ m.Feasible x ∧ m.transpose.Feasible y := by
  have hrows := hm.1.2.1.ofRows_toRows
  have hsides : ∀ row ∈ m.constraints.toRows, row.rightSide.isFinite = true := by
    have h := hfinite.rightSides
    rwa [← hrows, RowStore.rightSides_ofRows, List.forall_mem_map] at h
  have hcosts : ∀ row ∈ m.dualRows, row.rightSide.isFinite = true :=
    forall_mem_mapIdx.2 fun j v hv => isFinite_cost hcells hfinite.costs j
  have hsatisfies : m.constraints.Satisfies x ↔ ∀ c ∈ m.rowConditions, c.Holds (x, y, 1) := by
    rw [forall_rowConditions_iff]
    conv_lhs => rw [← hrows, RowStore.satisfies_ofRows]
    exact forall₂_congr fun row hrow => row.holdsAt_iff_side (hsides row hrow) x
  have hsatisfies' : m.transpose.constraints.Satisfies y
      ↔ ∀ c ∈ m.columnConditions, c.Holds (x, y, 1) := by
    rw [forall_columnConditions_iff, constraints_transpose, RowStore.satisfies_ofRows]
    exact forall₂_congr fun row hrow => row.holdsAt_iff_side (hcosts row hrow) y
  unfold Feasible
  rw [forall_contains_iff hm, forall_contains_transpose_iff hm.1, hsatisfies, hsatisfies']
  constructor
  · intro h
    obtain ⟨hx, hy⟩ := forall_signConditions_iff.1 h.signs
    exact ⟨⟨h.rows, hx⟩, h.columns, hy⟩
  · intro h
    exact ⟨forall_signConditions_iff.2 ⟨h.1.2, h.2.2⟩, h.1.1, h.2.1⟩

end ScaleOne

end Model

end SparseProgram
