import SparseProgram.Model.Shape
import SparseProgram.Proofs.Buckets

/-!
# Slices

A store is grouped if its row numbers exist and do not decrease along the cells. Its slices are
then the cells of each row number, and pushing a row appends one slice.
-/

namespace SparseProgram

variable {τ : Type}

theorem takeWhile_eq_filter_of_rowsInOrder {cells : List (Cell τ)} {row : Nat}
    (h : RowsInOrder cells) (hlow : ∀ cell ∈ cells, row ≤ cell.row) :
    cells.takeWhile (·.row == row) = cells.filter (·.row == row) := by
  induction cells with
  | nil => rfl
  | cons cell rest ih =>
      obtain ⟨hhead, htail⟩ := List.pairwise_cons.1 h
      by_cases hrow : cell.row = row
      · have hrest := ih htail fun c hc => hlow c (List.mem_cons_of_mem cell hc)
        simp [hrow, hrest]
      · have hnone : rest.filter (·.row == row) = [] := by
          apply List.filter_eq_nil_iff.2
          intro c hc
          have hfirst := hlow cell List.mem_cons_self
          have hlater := hhead c hc
          simp only [beq_iff_eq]
          omega
        simp [hrow, hnone]

theorem dropWhile_eq_filter_of_rowsInOrder {cells : List (Cell τ)} {row : Nat}
    (h : RowsInOrder cells) (hlow : ∀ cell ∈ cells, row ≤ cell.row) :
    cells.dropWhile (·.row == row) = cells.filter fun cell => decide (row < cell.row) := by
  induction cells with
  | nil => rfl
  | cons cell rest ih =>
      obtain ⟨hhead, htail⟩ := List.pairwise_cons.1 h
      by_cases hrow : cell.row = row
      · have hrest := ih htail fun c hc => hlow c (List.mem_cons_of_mem cell hc)
        simp [hrow, hrest]
      · have hfirst := hlow cell List.mem_cons_self
        have hlt : row < cell.row := by omega
        have hall : (rest.filter fun c => decide (row < c.row)) = rest := by
          apply List.filter_eq_self.2
          intro c hc
          have hlater := hhead c hc
          simp only [decide_eq_true_eq]
          omega
        simp [hrow, hlt, hall]

/-- Rows in order are read off as the cells of each row number. Cells beyond the last row are
left over. -/
theorem slicesFrom_eq_map_filter {cells : List (Cell τ)} {row : Nat} (h : RowsInOrder cells)
    (hlow : ∀ cell ∈ cells, row ≤ cell.row) (count : Nat) :
    slicesFrom cells row count
      = (List.range' row count).map fun r => cells.filter (·.row == r) := by
  induction count generalizing cells row with
  | zero => rfl
  | succ count ih =>
      rw [slicesFrom, List.range'_succ, List.map_cons,
        takeWhile_eq_filter_of_rowsInOrder h hlow, dropWhile_eq_filter_of_rowsInOrder h hlow]
      -- The later slices are read from the later rows, where this row has no cell.
      have hrest := ih (h.filter fun cell => decide (row < cell.row)) fun cell hcell =>
        Nat.succ_le_of_lt (of_decide_eq_true (List.mem_filter.1 hcell).2)
      rw [hrest]
      congr 1
      apply List.map_congr_left
      intro r hr
      have hlt : row < r := (List.mem_range'_1.1 hr).1
      rw [List.filter_filter]
      apply List.filter_congr
      intro cell _
      by_cases hcell : cell.row = r
      · simp [hcell, hlt]
      · simp [hcell]

theorem slicesFrom_map {σ : Type} (g : Cell τ → Cell σ) (hg : ∀ cell, (g cell).row = cell.row)
    (cells : List (Cell τ)) (row count : Nat) :
    slicesFrom (cells.map g) row count = (slicesFrom cells row count).map (List.map g) := by
  induction count generalizing cells row with
  | zero => rfl
  | succ count ih =>
      have hrow : (fun cell : Cell σ => cell.row == row) ∘ g = fun cell => cell.row == row := by
        funext cell
        exact congrArg (· == row) (hg cell)
      rw [slicesFrom, slicesFrom, List.takeWhile_map, List.dropWhile_map, hrow, ih, List.map_cons]

namespace Row

def cellsAt (row : Row τ) (number : Nat) : List (Cell τ) :=
  row.cells.map fun (term, coefficient) => ⟨number, term, coefficient⟩

theorem row_of_mem_cellsAt {row : Row τ} {number : Nat} {cell : Cell τ}
    (h : cell ∈ row.cellsAt number) : cell.row = number := by
  obtain ⟨entry, _, rfl⟩ := List.mem_map.1 h
  rfl

theorem rowsInOrder_cellsAt (row : Row τ) (number : Nat) : RowsInOrder (row.cellsAt number) := by
  apply List.pairwise_of_forall_mem_list
  intro a ha b hb
  have harow := row_of_mem_cellsAt ha
  have hbrow := row_of_mem_cellsAt hb
  omega

theorem filter_cellsAt_self (row : Row τ) (number : Nat) :
    (row.cellsAt number).filter (·.row == number) = row.cellsAt number := by
  apply List.filter_eq_self.2
  intro cell hcell
  simp [row_of_mem_cellsAt hcell]

theorem filter_cellsAt_of_ne (row : Row τ) {number r : Nat} (h : number ≠ r) :
    (row.cellsAt number).filter (·.row == r) = [] := by
  apply List.filter_eq_nil_iff.2
  intro cell hcell
  simp [row_of_mem_cellsAt hcell, h]

end Row

namespace RowStore

theorem slices_eq_map_filter {s : RowStore τ} (h : RowsInOrder s.cells) :
    s.slices = (List.range s.size).map fun r => s.cells.filter (·.row == r) := by
  rw [slices, slicesFrom_eq_map_filter h fun cell _ => Nat.zero_le _, List.range_eq_range']

def IsGrouped (s : RowStore τ) : Prop :=
  RowsInOrder s.cells ∧ ∀ cell ∈ s.cells, cell.row < s.size

theorem isGrouped_empty : (empty : RowStore τ).IsGrouped :=
  ⟨List.Pairwise.nil, fun _ hcell => absurd hcell List.not_mem_nil⟩

/-- The slices of a grouped store hold its cells in their order. -/
theorem flatten_slices {s : RowStore τ} (h : s.IsGrouped) : s.slices.flatten = s.cells := by
  rw [slices_eq_map_filter h.1, ← List.flatMap_def]
  exact bucketsBelow_of_orderedBy h.1 h.2

theorem cells_push (s : RowStore τ) (row : Row τ) :
    (s.push row).cells = s.cells ++ row.cellsAt s.size :=
  rfl

theorem IsGrouped.push {s : RowStore τ} (h : s.IsGrouped) (row : Row τ) :
    (s.push row).IsGrouped := by
  constructor
  · rw [cells_push]
    refine List.pairwise_append.2 ⟨h.1, row.rowsInOrder_cellsAt s.size, ?_⟩
    intro a ha b hb
    rw [Row.row_of_mem_cellsAt hb]
    exact Nat.le_of_lt (h.2 a ha)
  · intro cell hcell
    rw [cells_push, List.mem_append] at hcell
    rw [size_push]
    rcases hcell with hold | hnew
    · exact Nat.lt_succ_of_lt (h.2 cell hold)
    · rw [Row.row_of_mem_cellsAt hnew]
      exact Nat.lt_succ_self _

/-- A row pushed onto a grouped store is one more slice, and the others stay. -/
theorem slices_push {s : RowStore τ} (h : s.IsGrouped) (row : Row τ) :
    (s.push row).slices = s.slices ++ [row.cellsAt s.size] := by
  rw [slices_eq_map_filter (h.push row).1, slices_eq_map_filter h.1, size_push,
    List.range_succ, List.map_append, List.map_singleton]
  congr 1
  · apply List.map_congr_left
    intro r hr
    have hne : s.size ≠ r := (Nat.ne_of_lt (List.mem_range.1 hr)).symm
    rw [cells_push, List.filter_append, row.filter_cellsAt_of_ne hne, List.append_nil]
  · have hold : s.cells.filter (·.row == s.size) = [] := by
      apply List.filter_eq_nil_iff.2
      intro cell hcell
      simpa using Nat.ne_of_lt (h.2 cell hcell)
    rw [cells_push, List.filter_append, hold, row.filter_cellsAt_self, List.nil_append]

end RowStore

end SparseProgram
