import SparseProgram.Proofs.RowStore.Slices
import SparseProgram.Semantics.Feasible

/-!
# Stores of rows

What a store holds after rows were pushed onto the empty one, and what it says about a point. Every
store with agreeing arrays and grouped cells is the store of its rows, so these laws hold of it too.
-/

namespace SparseProgram

variable {τ : Type}

namespace RowStore

theorem ofRows_concat (rows : List (Row τ)) (row : Row τ) :
    ofRows (rows ++ [row]) = (ofRows rows).push row := by
  simp [ofRows, pushAll]

theorem pushAll_ofRows (rows more : List (Row τ)) :
    (ofRows rows).pushAll more = ofRows (rows ++ more) := by
  simp [ofRows, pushAll]

private theorem arrays_pushAll (s : RowStore τ) (rows : List (Row τ)) :
    (s.pushAll rows).relations = s.relations ++ rows.map (·.relation)
      ∧ (s.pushAll rows).rightSides = s.rightSides ++ rows.map (·.rightSide)
      ∧ (s.pushAll rows).names = s.names ++ rows.map (·.name) := by
  induction rows generalizing s with
  | nil => simp [pushAll]
  | cons row rest ih =>
      have hrest := ih (s.push row)
      have hstep : s.pushAll (row :: rest) = (s.push row).pushAll rest := rfl
      rw [hstep, hrest.1, hrest.2.1, hrest.2.2]
      simp [push]

@[simp] theorem relations_pushAll (s : RowStore τ) (rows : List (Row τ)) :
    (s.pushAll rows).relations = s.relations ++ rows.map (·.relation) :=
  (arrays_pushAll s rows).1

@[simp] theorem rightSides_pushAll (s : RowStore τ) (rows : List (Row τ)) :
    (s.pushAll rows).rightSides = s.rightSides ++ rows.map (·.rightSide) :=
  (arrays_pushAll s rows).2.1

@[simp] theorem names_pushAll (s : RowStore τ) (rows : List (Row τ)) :
    (s.pushAll rows).names = s.names ++ rows.map (·.name) :=
  (arrays_pushAll s rows).2.2

@[simp] theorem size_ofRows (rows : List (Row τ)) : (ofRows rows).size = rows.length := by
  rw [ofRows, size_pushAll]
  exact Nat.zero_add rows.length

@[simp] theorem relations_ofRows (rows : List (Row τ)) :
    (ofRows rows).relations = rows.map (·.relation) := by
  simp [ofRows, empty]

@[simp] theorem rightSides_ofRows (rows : List (Row τ)) :
    (ofRows rows).rightSides = rows.map (·.rightSide) := by
  simp [ofRows, empty]

@[simp] theorem names_ofRows (rows : List (Row τ)) :
    (ofRows rows).names = rows.map (·.name) := by
  simp [ofRows, empty]

theorem arraysAgree_ofRows (rows : List (Row τ)) : (ofRows rows).ArraysAgree := by
  simp [ArraysAgree]

theorem isGrouped_ofRows (rows : List (Row τ)) : (ofRows rows).IsGrouped := by
  induction rows using List.reverseRecOn with
  | nil => exact isGrouped_empty
  | append_singleton rows row ih =>
      rw [ofRows_concat]
      exact ih.push row

theorem slices_ofRows (rows : List (Row τ)) :
    (ofRows rows).slices = rows.mapIdx fun i row => row.cellsAt i := by
  induction rows using List.reverseRecOn with
  | nil => rfl
  | append_singleton rows row ih =>
      rw [ofRows_concat, slices_push (isGrouped_ofRows rows), ih, size_ofRows, List.mapIdx_concat]

theorem cells_ofRows (rows : List (Row τ)) :
    (ofRows rows).cells = (rows.mapIdx fun i row => row.cellsAt i).flatten := by
  rw [← slices_ofRows, flatten_slices (isGrouped_ofRows rows)]

theorem lines_ofRows (rows : List (Row τ)) :
    (ofRows rows).lines
      = rows.mapIdx fun i row => (row.cellsAt i, row.relation, row.rightSide) := by
  rw [lines, slices_ofRows, relations_ofRows, rightSides_ofRows]
  apply List.ext_getElem
  · simp
  · intro i hi hi'
    simp

theorem mem_cells_ofRows {rows : List (Row τ)} {cell : Cell τ} :
    cell ∈ (ofRows rows).cells
      ↔ ∃ row, rows[cell.row]? = some row ∧ (cell.term, cell.coefficient) ∈ row.cells := by
  rw [cells_ofRows, List.mem_flatten]
  constructor
  · intro h
    rcases h with ⟨slice, hslice, hcell⟩
    obtain ⟨i, hi, rfl⟩ := List.mem_mapIdx.1 hslice
    rw [Row.row_of_mem_cellsAt hcell]
    obtain ⟨entry, hentry, rfl⟩ := List.mem_map.1 hcell
    exact ⟨rows[i], List.getElem?_eq_getElem hi, hentry⟩
  · intro h
    rcases h with ⟨row, hrow, hmem⟩
    obtain ⟨hlt, rfl⟩ := List.getElem?_eq_some_iff.1 hrow
    refine ⟨rows[cell.row].cellsAt cell.row, List.mem_mapIdx.2 ⟨cell.row, hlt, rfl⟩, ?_⟩
    exact List.mem_map.2 ⟨(cell.term, cell.coefficient), hmem, rfl⟩

/-! ## The rows of a store -/

/-- The rows of a store, as far as all its arrays reach. -/
def toRows (s : RowStore τ) : List (Row τ) :=
  (s.lines.zip s.names).map fun ((slice, relation, rightSide), name) =>
    ⟨slice.map fun cell => (cell.term, cell.coefficient), relation, rightSide, name⟩

theorem length_toRows {s : RowStore τ} (h : s.ArraysAgree) : s.toRows.length = s.size := by
  have hright : s.rightSides.length = s.size := rfl
  simp [toRows, lines, h.1, h.2, hright]

theorem cellsAt_toRows {s : RowStore τ} (h : s.IsGrouped) (ha : s.ArraysAgree) :
    (s.toRows.mapIdx fun i row => row.cellsAt i) = s.slices := by
  apply List.ext_getElem
  · rw [List.length_mapIdx, length_toRows ha, length_slices]
  · intro i hi hslice
    have hslice_eq : s.slices[i] = s.cells.filter (·.row == i) := by
      simp [slices_eq_map_filter h.1]
    have hrow : ∀ cell ∈ s.slices[i], cell.row = i := by
      intro cell hcell
      rw [hslice_eq] at hcell
      simpa using (List.mem_filter.1 hcell).2
    calc
      (s.toRows.mapIdx fun i row => row.cellsAt i)[i]
          = s.slices[i].map fun cell => ⟨i, cell.term, cell.coefficient⟩ := by
        simp [toRows, lines, Row.cellsAt]
      _ = s.slices[i].map id := by
        apply List.map_congr_left
        intro cell hcell
        rw [← hrow cell hcell]
        rfl
      _ = s.slices[i] := List.map_id _

/-- A store with agreeing arrays and grouped cells is what pushing its rows gives. -/
theorem ofRows_toRows {s : RowStore τ} (h : s.IsGrouped) (ha : s.ArraysAgree) :
    ofRows s.toRows = s := by
  have hlength := length_toRows ha
  ext1
  · rw [cells_ofRows, cellsAt_toRows h ha, flatten_slices h]
  · rw [relations_ofRows]
    apply List.ext_getElem
    · rw [List.length_map, hlength, ha.1]
    · intro i hi hi'
      simp [toRows, lines]
  · rw [rightSides_ofRows]
    apply List.ext_getElem
    · rw [List.length_map, hlength, size]
    · intro i hi hi'
      simp [toRows, lines]
  · rw [names_ofRows]
    apply List.ext_getElem
    · rw [List.length_map, hlength, ha.2]
    · intro i hi hi'
      simp [toRows, lines]

end RowStore

/-! ## What rows say about a point -/

variable [Term τ]

namespace Row

/-- The value of the cells of a row at a point. -/
def valueAt (p : Point) (row : Row τ) : Rat :=
  (row.cells.map fun (term, coefficient) => coefficient.value * Term.valueAt p term).sum

def HoldsAt (p : Point) (row : Row τ) : Prop :=
  row.relation.Holds (row.valueAt p) row.rightSide

theorem rowValue_cellsAt (p : Point) (row : Row τ) (number : Nat) :
    rowValue p (row.cellsAt number) = row.valueAt p := by
  simp only [rowValue, cellsAt, valueAt, List.map_map]
  rfl

end Row

namespace RowStore

theorem satisfies_ofRows {rows : List (Row τ)} {p : Point} :
    (ofRows rows).Satisfies p ↔ ∀ row ∈ rows, row.HoldsAt p := by
  rw [Satisfies, lines_ofRows]
  constructor
  · intro h row hrow
    obtain ⟨i, hi, rfl⟩ := List.getElem_of_mem hrow
    have hline := h _ (List.mem_mapIdx.2 ⟨i, hi, rfl⟩)
    rw [Row.rowValue_cellsAt] at hline
    exact hline
  · intro h line hline
    obtain ⟨i, hi, rfl⟩ := List.mem_mapIdx.1 hline
    have hrow := h rows[i] (List.getElem_mem hi)
    rw [Row.rowValue_cellsAt]
    exact hrow

end RowStore

end SparseProgram
