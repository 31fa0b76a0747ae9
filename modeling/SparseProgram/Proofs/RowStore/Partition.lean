import Mathlib.Data.List.TakeWhile
import SparseProgram.Proofs.RowStore.Slices
import SparseProgram.RowStore.Basic

/-!
# Partition into slices

The slices of a store, of one with cells out of order or of rows that do not exist too, are cut out
one behind the other. Together they hold the cells up to the first one that does not fit, so they
hold all cells exactly in grouped stores.
-/

namespace SparseProgram

variable {τ : Type}

/-! ## Cuts -/

theorem cut_append {α : Type} (front middle back : List α) :
    cut (front ++ (middle ++ back)) front.length (front.length + middle.length) = some middle := by
  have hinside : front.length ≤ front.length + middle.length
      ∧ front.length + middle.length ≤ (front ++ (middle ++ back)).length := by
    simp only [List.length_append]
    omega
  rw [cut, if_pos hinside, List.drop_left, Nat.add_sub_cancel_left, List.take_left]

theorem readRow_append (front rest : List (Cell τ)) (row : Nat) :
    readRow (front ++ rest) front.length row
      = some (rest.takeWhile (·.row == row),
          front.length + (rest.takeWhile (·.row == row)).length) := by
  have hrest : cut (front ++ rest) front.length (front.length + rest.length) = some rest := by
    simpa using cut_append front rest []
  have hslice := cut_append front (rest.takeWhile (·.row == row)) (rest.dropWhile (·.row == row))
  rw [List.takeWhile_append_dropWhile] at hslice
  simp [readRow, hrest, hslice]

/-- No cut is ever outside: what has been read is a front of the cells, and the position is its
length. -/
theorem readRows_append (front rest : List (Cell τ)) (row count : Nat) :
    readRows (front ++ rest) front.length row count = some (slicesFrom rest row count) := by
  induction count generalizing front rest row with
  | zero => rfl
  | succ count ih =>
      have hlater := ih (front ++ rest.takeWhile (·.row == row))
        (rest.dropWhile (·.row == row)) (row + 1)
      rw [List.append_assoc, List.takeWhile_append_dropWhile, List.length_append] at hlater
      simp [readRows, slicesFrom, readRow_append, hlater]

theorem RowStore.readSlices_eq (s : RowStore τ) : s.readSlices = some s.slices :=
  readRows_append [] s.cells 0 s.size

/-! ## Rows within limits -/

def RowsWithin (low high : Nat) (cells : List (Cell τ)) : Prop :=
  RowsInOrder cells ∧ ∀ cell ∈ cells, low ≤ cell.row ∧ cell.row < high

namespace RowsWithin

variable {run more cells : List (Cell τ)} {row high : Nat}

theorem run_append (hrun : ∀ cell ∈ run, cell.row = row) (hrow : row < high)
    (h : RowsWithin (row + 1) high more) : RowsWithin row high (run ++ more) := by
  obtain ⟨horder, hwithin⟩ := h
  refine ⟨List.pairwise_append.2 ⟨?_, horder, ?_⟩, List.forall_mem_append.2 ⟨?_, ?_⟩⟩
  · apply List.pairwise_of_forall_mem_list
    intro a ha b hb
    rw [hrun a ha, hrun b hb]
  · intro a ha b hb
    rw [hrun a ha]
    exact Nat.le_of_succ_le (hwithin b hb).1
  · intro cell hcell
    rw [hrun cell hcell]
    exact ⟨Nat.le_refl row, hrow⟩
  · intro cell hcell
    exact ⟨Nat.le_of_succ_le (hwithin cell hcell).1, (hwithin cell hcell).2⟩

theorem of_append (h : RowsWithin row high (run ++ more)) : RowsWithin row high more :=
  ⟨(List.pairwise_append.1 h.1).2.1, (List.forall_mem_append.1 h.2).2⟩

theorem of_prefix_dropWhile (h : RowsWithin row high more)
    (hfront : more <+: cells.dropWhile (·.row == row)) : RowsWithin (row + 1) high more := by
  refine ⟨h.1, ?_⟩
  cases more with
  | nil => simp
  | cons first rest =>
      obtain ⟨back, hback⟩ := hfront
      have hne : first.row ≠ row := by
        have hhead := List.head?_dropWhile_not (fun cell : Cell τ => cell.row == row) cells
        rw [← hback] at hhead
        simpa using hhead
      have hfirst := h.2 first List.mem_cons_self
      intro cell hcell
      have hrow := h.2 cell hcell
      rcases List.mem_cons.1 hcell with rfl | hrest
      · omega
      · have hlater := (List.pairwise_cons.1 h.1).1 cell hrest
        omega

end RowsWithin

/-! ## What the slices hold -/

theorem row_of_mem_slicesFrom {cells : List (Cell τ)} {row count i : Nat} {slice : List (Cell τ)}
    (h : (slicesFrom cells row count)[i]? = some slice) {cell : Cell τ} (hcell : cell ∈ slice) :
    cell.row = row + i := by
  induction count generalizing cells row i with
  | zero => simp [slicesFrom] at h
  | succ count ih =>
      cases i with
      | zero =>
          obtain rfl : cells.takeWhile (·.row == row) = slice := by simpa [slicesFrom] using h
          simpa using List.mem_takeWhile_imp hcell
      | succ i =>
          have hlater := ih (by simpa [slicesFrom] using h)
          omega

theorem prefix_append_iff {α : Type} {front a b : List α} :
    front <+: a ++ b ↔ front <+: a ∨ ∃ more, front = a ++ more ∧ more <+: b := by
  constructor
  · intro h
    rcases List.prefix_or_prefix_of_prefix h (List.prefix_append a b) with hshort | ⟨more, rfl⟩
    · exact .inl hshort
    · exact .inr ⟨more, rfl, (List.prefix_append_right_inj a).1 h⟩
  · rintro (h | ⟨more, rfl, h⟩)
    · exact h.trans (List.prefix_append a b)
    · exact (List.prefix_append_right_inj a).2 h

/-- Consecutive slices hold the longest front of the cells that lies in order within their rows. -/
theorem prefix_flatten_slicesFrom_iff {cells front : List (Cell τ)} {row count : Nat} :
    front <+: (slicesFrom cells row count).flatten
      ↔ front <+: cells ∧ RowsWithin row (row + count) front := by
  induction count generalizing cells front row with
  | zero =>
      rw [slicesFrom, List.flatten_nil, List.prefix_nil]
      constructor
      · rintro rfl
        exact ⟨List.nil_prefix, List.Pairwise.nil, by simp⟩
      · rintro ⟨-, -, hwithin⟩
        apply List.eq_nil_iff_forall_not_mem.2
        intro cell hcell
        have hrow := hwithin cell hcell
        omega
  | succ count ih =>
      have hcells := List.takeWhile_append_dropWhile (p := fun cell : Cell τ => cell.row == row)
        (l := cells)
      have hrun : ∀ cell ∈ cells.takeWhile (·.row == row), cell.row = row := by
        intro cell hcell
        simpa using List.mem_takeWhile_imp hcell
      have hhigh : row + (count + 1) = row + 1 + count := by omega
      rw [slicesFrom, List.flatten_cons, prefix_append_iff, hhigh]
      -- A front ends within the cells of this row, or it goes on into those of the later rows.
      constructor
      · rintro (hshort | ⟨more, rfl, hmore⟩)
        · have hwithin : RowsWithin row (row + 1 + count) (front ++ []) :=
            RowsWithin.run_append (fun cell hcell => hrun cell (hshort.mem hcell)) (by omega)
              ⟨.nil, by simp⟩
          rw [List.append_nil] at hwithin
          exact ⟨hshort.trans (List.takeWhile_prefix _), hwithin⟩
        · obtain ⟨hfront, hwithin⟩ := ih.1 hmore
          refine ⟨?_, RowsWithin.run_append hrun (by omega) hwithin⟩
          have happend := (List.prefix_append_right_inj (cells.takeWhile (·.row == row))).2 hfront
          rwa [hcells] at happend
      · rintro ⟨hfront, hwithin⟩
        rw [← hcells, prefix_append_iff] at hfront
        rcases hfront with hshort | ⟨more, rfl, hmore⟩
        · exact .inl hshort
        · exact .inr ⟨more, rfl, ih.2 ⟨hmore, hwithin.of_append.of_prefix_dropWhile hmore⟩⟩

namespace RowStore

theorem isGrouped_iff_rowsWithin {s : RowStore τ} :
    s.IsGrouped ↔ RowsWithin 0 s.size s.cells := by
  simp [IsGrouped, RowsWithin]

theorem prefix_flatten_slices_iff {s : RowStore τ} {front : List (Cell τ)} :
    front <+: s.slices.flatten ↔ front <+: s.cells ∧ RowsWithin 0 s.size front := by
  rw [slices, prefix_flatten_slicesFrom_iff, Nat.zero_add]

theorem flatten_slices_front (s : RowStore τ) : s.slices.flatten <+: s.cells :=
  (prefix_flatten_slices_iff.1 (List.prefix_refl s.slices.flatten)).1

theorem flatten_slices_eq_iff {s : RowStore τ} : s.slices.flatten = s.cells ↔ s.IsGrouped := by
  refine ⟨?_, flatten_slices⟩
  intro h
  have hself := prefix_flatten_slices_iff.1 (List.prefix_refl s.slices.flatten)
  rw [isGrouped_iff_rowsWithin, ← h]
  exact hself.2

/-- Slices are cut out within the cells, one for each row and of cells of that row. Joined, they are
the longest front of the cells in which rows exist and stand in order: all cells exactly if the
store is grouped, and then each slice has all cells of its row. -/
theorem slices_partition (s : RowStore τ) :
    s.readSlices = some s.slices
      ∧ s.slices.length = s.rightSides.length
      ∧ (∀ (r : Nat) (slice : List (Cell τ)), s.slices[r]? = some slice →
          ∀ cell ∈ slice, cell.row = r)
      ∧ s.slices.flatten <+: s.cells
      ∧ (∀ front, front <+: s.cells → RowsInOrder front → (∀ cell ∈ front, cell.row < s.size) →
          front <+: s.slices.flatten)
      ∧ (s.slices.flatten = s.cells
          ↔ (∀ cell ∈ s.cells, cell.row < s.size) ∧ RowsInOrder s.cells)
      ∧ (s.slices.flatten = s.cells →
          s.slices = (List.range s.size).map fun r => s.cells.filter (·.row == r)) := by
  refine ⟨s.readSlices_eq, s.length_slices, ?_, s.flatten_slices_front, ?_, ?_, ?_⟩
  · intro r slice hslice cell hcell
    have hrow := row_of_mem_slicesFrom hslice hcell
    omega
  · intro front hfront horder hrows
    exact prefix_flatten_slices_iff.2
      ⟨hfront, horder, fun cell hcell => ⟨Nat.zero_le _, hrows cell hcell⟩⟩
  · rw [flatten_slices_eq_iff, IsGrouped]
    exact and_comm
  · intro h
    exact slices_eq_map_filter (flatten_slices_eq_iff.1 h).1

def jumbled (next last : Nat) : RowStore Nat where
  cells := [⟨0, 3, .one⟩, ⟨2, 1, .nan⟩, ⟨2, 1, .one⟩, ⟨next, 0, .one⟩, ⟨last, 2, .one⟩]
  relations := [.equal]
  rightSides := [.zero, .one, .nan, .one]
  names := []

theorem slices_partition_jumbled :
    (jumbled 1 3).readSlices
        = some [[⟨0, 3, .one⟩], [], [⟨2, 1, .nan⟩, ⟨2, 1, .one⟩], []]
      ∧ (jumbled 1 3).slices.flatten ≠ (jumbled 1 3).cells
      ∧ (jumbled 3 4).slices.flatten ≠ (jumbled 3 4).cells
      ∧ (jumbled 3 3).slices.flatten = (jumbled 3 3).cells
      ∧ (jumbled 3 3).slices[3]? = some [⟨3, 0, .one⟩, ⟨3, 2, .one⟩] := by
  obtain ⟨hread, -, -, -, -, hdisordered, -⟩ := slices_partition (jumbled 1 3)
  obtain ⟨-, -, -, -, -, hbeyond, -⟩ := slices_partition (jumbled 3 4)
  obtain ⟨-, -, -, -, -, hall, heach⟩ := slices_partition (jumbled 3 3)
  have hgrouped : (jumbled 3 3).slices.flatten = (jumbled 3 3).cells :=
    hall.2 ⟨by decide, by simp [jumbled, RowsInOrder]⟩
  refine ⟨?_, ?_, ?_, hgrouped, ?_⟩
  · rw [hread]
    decide +kernel
  · rw [Ne, hdisordered]
    simp [jumbled, RowsInOrder]
  · rw [Ne, hbeyond]
    simp [jumbled, size]
  · rw [heach hgrouped]
    decide +kernel

end RowStore

end SparseProgram
