import Mathlib.Tactic.Linarith
import SparseProgram.Proofs.Duality.Transpose
import SparseProgram.Proofs.Number.ExactValue

/-!
# Duality gaps

The difference between the objectives of a model and of its dual, taken apart into one gap for each
column and one for each row. Feasible points give every gap the sign of the model's sense.
-/

namespace SparseProgram

/-- A factor goes into the sum over a bucket, where the key may be used. -/
theorem mul_sum_bucket {α : Type} {key : α → Nat} {f g : α → Rat} {q : Rat} {l : List α} {k : Nat}
    (h : ∀ a, key a = k → q * g a = f a) :
    q * ((l.filter (key · == k)).map g).sum = ((l.filter (key · == k)).map f).sum := by
  rw [← List.sum_map_mul_left]
  congr 1
  apply List.map_congr_left
  intro a ha
  exact h a (key_of_mem_bucket ha)

namespace Row

theorem valueAt_eq_sum_cellsAt (p : Point) (row : Row Nat) (number : Nat) :
    row.valueAt p
      = ((row.cellsAt number).map fun cell => cell.coefficient.value * p cell.term).sum := by
  rw [← rowValue_cellsAt p row number, rowValue]
  simp [Term.valueAt, Term.columns]

end Row

namespace Model

def columnValue (m : Model Nat) (y : Point) (j : Nat) : Rat :=
  ((m.column j).map fun (row, coefficient) => coefficient.value * y row).sum

/-- How far each row is from its right-hand side, weighted by the dual point. -/
def rowGaps (m : Model Nat) (x y : Point) : List Rat :=
  m.constraints.toRows.mapIdx fun i row => y i * (row.valueAt x - row.rightSide.value)

/-- How far each column is from its cost, weighted by the point. -/
def columnGaps (m : Model Nat) (x y : Point) : List Rat :=
  m.vars.mapIdx fun j _ => x j * ((m.cost j).value - m.columnValue y j)

/-- The bilinear form of the cells. -/
def pairing (m : Model Nat) (x y : Point) : Rat :=
  (m.constraints.cells.map fun cell => cell.coefficient.value * x cell.term * y cell.row).sum

/-- Rows first: each row's value weighted by the dual point. -/
theorem sum_rows_eq_pairing {m : Model Nat} (h : m.WellFormed) (x y : Point) :
    (m.constraints.toRows.mapIdx fun i row => y i * row.valueAt x).sum = m.pairing x y := by
  have hrow (i : Nat) (row : Row Nat) :
      y i * row.valueAt x
        = ((row.cellsAt i).map fun cell =>
            cell.coefficient.value * x cell.term * y cell.row).sum := by
    rw [row.valueAt_eq_sum_cellsAt x i, ← List.sum_map_mul_left]
    congr 1
    apply List.map_congr_left
    intro cell hcell
    rw [Row.row_of_mem_cellsAt hcell]
    ring
  have hcells : m.constraints.cells
      = (m.constraints.toRows.mapIdx fun i row => row.cellsAt i).flatten := by
    rw [← RowStore.cells_ofRows, h.2.1.ofRows_toRows]
  rw [pairing, hcells, List.map_flatten, List.sum_flatten, List.map_map, map_mapIdx]
  simp only [Function.comp_apply, hrow]

/-- Columns first: each column's value weighted by the point. -/
theorem sum_columns_eq_pairing {m : Model Nat} (h : m.WellFormed) (x y : Point) :
    (m.vars.mapIdx fun j _ => x j * m.columnValue y j).sum = m.pairing x y := by
  have hcolumn (j : Nat) :
      x j * m.columnValue y j
        = ((m.constraints.cells.filter (·.term == j)).map fun cell =>
            cell.coefficient.value * x cell.term * y cell.row).sum := by
    rw [columnValue, column, List.map_map, mul_sum_bucket]
    intro cell hterm
    simp only [Function.comp_apply, hterm]
    ring
  rw [pairing, ← sum_buckets _ h.cell_term_lt, mapIdx_const]
  simp only [hcolumn]

/-! ## Costs -/

/-- Where no column has two objective cells, costs round nothing. -/
theorem value_cost {m : Model Nat} (h : (m.objective.cells.map (·.term)).Nodup) (j : Nat) :
    (m.cost j).value
      = ((m.objective.cells.filter (·.term == j)).map (·.coefficient.value)).sum := by
  rw [cost]
  rcases filter_key_of_nodup h j with hnone | ⟨cell, hone⟩
  · simp [hnone]
  · simp [hone]

theorem isFinite_cost {m : Model Nat} (h : (m.objective.cells.map (·.term)).Nodup)
    (hfinite : ∀ cell ∈ m.objective.cells, cell.coefficient.isFinite = true) (j : Nat) :
    (m.cost j).isFinite = true := by
  rw [cost]
  rcases filter_key_of_nodup h j with hnone | ⟨cell, hone⟩
  · simp [hnone]
  · have hmem : cell ∈ m.objective.cells.filter (·.term == j) := by simp [hone]
    simpa [hone] using hfinite cell (List.mem_filter.1 hmem).1

theorem objectiveValue_eq_sum_costs {m : Model Nat} (hm : m.WellFormed)
    (h : (m.objective.cells.map (·.term)).Nodup) (x : Point) :
    m.objectiveValue x = (m.vars.mapIdx fun j _ => x j * (m.cost j).value).sum := by
  have hcost (j : Nat) :
      x j * (m.cost j).value
        = ((m.objective.cells.filter (·.term == j)).map fun cell =>
            cell.coefficient.value * Term.valueAt x cell.term).sum := by
    rw [value_cost h, mul_sum_bucket]
    intro cell hterm
    simp only [Term.valueAt, Term.columns, Option.elim_none, hterm]
    ring
  rw [objectiveValue, ← sum_buckets _ hm.objective_term_lt, mapIdx_const]
  simp only [hcost]

theorem objectiveValue_transpose {m : Model Nat} (h : m.WellFormed) (y : Point) :
    m.transpose.objectiveValue y
      = (m.constraints.toRows.mapIdx fun i row => y i * row.rightSide.value).sum := by
  have hsides : m.constraints.rightSides = m.constraints.toRows.map (·.rightSide) := by
    rw [← RowStore.rightSides_ofRows, h.2.1.ofRows_toRows]
  rw [objectiveValue, objectiveCells_transpose, hsides]
  simp only [map_mapIdx, mapIdx_map, Term.valueAt, Term.columns, Option.elim_none, mul_one,
    mul_comm]

/-! ## The gap -/

/-- The objectives of a model and its dual differ by the gaps of all columns and rows. -/
theorem gap_eq {m : Model Nat} (hm : m.WellFormed)
    (h : (m.objective.cells.map (·.term)).Nodup) (x y : Point) :
    m.objectiveValue x - m.transpose.objectiveValue y
      = (m.columnGaps x y).sum + (m.rowGaps x y).sum := by
  have hcolumns : (m.columnGaps x y).sum = m.objectiveValue x - m.pairing x y := by
    rw [objectiveValue_eq_sum_costs hm h, ← sum_columns_eq_pairing hm, ← sum_mapIdx_sub]
    simp only [columnGaps, mul_sub]
  have hrows : (m.rowGaps x y).sum = m.pairing x y - m.transpose.objectiveValue y := by
    rw [objectiveValue_transpose hm, ← sum_rows_eq_pairing hm, ← sum_mapIdx_sub]
    simp only [rowGaps, mul_sub]
  rw [hcolumns, hrows]
  ring

end Model

end SparseProgram
