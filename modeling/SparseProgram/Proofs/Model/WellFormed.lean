import SparseProgram.Proofs.RowStore.Rows

/-!
# Well-formed models

The search for a first defect finds none exactly in well-formed models, and a well-formed store is
the store of its rows.
-/

namespace SparseProgram

variable {τ : Type} [Term τ]

theorem termDefect_eq_none_iff {columns : Nat} {term : τ} :
    termDefect columns term = none ↔ Term.InRange columns term := by
  unfold termDefect Term.InRange
  rw [List.findSome?_eq_none_iff]
  constructor
  · intro h column hcolumn
    have hnone := h column hcolumn
    by_cases hle : columns ≤ column
    · simp [hle] at hnone
    · omega
  · intro h column hcolumn
    have hlt := h column hcolumn
    simp [Nat.not_le.2 hlt]

theorem cellDefect_eq_none_iff {rows columns previous : Nat} {cell : Cell τ} :
    cellDefect rows columns previous cell = none
      ↔ cell.row < rows ∧ previous ≤ cell.row ∧ Term.InRange columns cell.term := by
  unfold cellDefect
  by_cases hrow : rows ≤ cell.row
  · simp [hrow, Nat.not_lt.2 hrow]
  · by_cases hprevious : cell.row < previous
    · simp [hrow, hprevious, Nat.not_le.2 hprevious]
    · simp [hrow, hprevious, termDefect_eq_none_iff, Nat.not_le.1 hrow, Nat.not_lt.1 hprevious]

theorem firstCellDefect_eq_none_iff {rows columns previous : Nat} {cells : List (Cell τ)} :
    firstCellDefect rows columns previous cells = none
      ↔ (∀ cell ∈ cells, previous ≤ cell.row) ∧ RowsInOrder cells
        ∧ ∀ cell ∈ cells, cell.row < rows ∧ Term.InRange columns cell.term := by
  induction cells generalizing previous with
  | nil => simp [firstCellDefect, RowsInOrder]
  | cons cell rest ih =>
      rw [firstCellDefect, Option.or_eq_none_iff, cellDefect_eq_none_iff, ih]
      simp only [RowsInOrder, List.pairwise_cons, List.mem_cons, forall_eq_or_imp]
      constructor
      · intro h
        rcases h with ⟨⟨hrow, hprevious, hrange⟩, hafter, hordered, hrest⟩
        refine ⟨⟨hprevious, ?_⟩, ⟨hafter, hordered⟩, ⟨hrow, hrange⟩, hrest⟩
        intro c hc
        exact Nat.le_trans hprevious (hafter c hc)
      · intro h
        rcases h with ⟨⟨hprevious, -⟩, ⟨hafter, hordered⟩, ⟨hrow, hrange⟩, hrest⟩
        exact ⟨⟨hrow, hprevious, hrange⟩, hafter, hordered, hrest⟩

theorem firstMisplaced_eq_none_iff {position : Nat} {vars : List Variable} :
    firstMisplaced position vars = none
      ↔ ∀ i, (h : i < vars.length) → vars[i].index = position + i := by
  induction vars generalizing position with
  | nil => simp [firstMisplaced]
  | cons v rest ih =>
      rw [firstMisplaced]
      by_cases hv : v.index = position
      · rw [if_pos hv, ih]
        constructor
        · intro h i hi
          cases i with
          | zero => exact hv
          | succ i =>
              have := h i (Nat.lt_of_succ_lt_succ hi)
              rw [List.getElem_cons_succ, this]
              omega
        · intro h i hi
          have := h (i + 1) (Nat.succ_lt_succ hi)
          rw [List.getElem_cons_succ] at this
          omega
      · rw [if_neg hv]
        simp only [reduceCtorEq, false_iff]
        intro h
        exact hv (h 0 (Nat.succ_pos _))

namespace RowStore

omit [Term τ] in
theorem arraysDefect_eq_none_iff {s : RowStore τ} : s.arraysDefect = none ↔ s.ArraysAgree := by
  unfold arraysDefect ArraysAgree
  split <;> simp_all

theorem firstDefect_eq_none_iff {s : RowStore τ} {columns : Nat} :
    s.firstDefect columns = none ↔ s.WellFormed columns := by
  rw [firstDefect, Option.or_eq_none_iff, arraysDefect_eq_none_iff, firstCellDefect_eq_none_iff,
    WellFormed]
  simp

theorem WellFormed.isGrouped {s : RowStore τ} {columns : Nat} (h : s.WellFormed columns) :
    s.IsGrouped :=
  ⟨h.2.1, fun cell hcell => (h.2.2 cell hcell).1⟩

/-- A well-formed store is the store of its rows. -/
theorem WellFormed.ofRows_toRows {s : RowStore τ} {columns : Nat} (h : s.WellFormed columns) :
    ofRows s.toRows = s :=
  RowStore.ofRows_toRows h.isGrouped h.1

theorem wellFormed_ofRows_iff {rows : List (Row τ)} {columns : Nat} :
    (ofRows rows).WellFormed columns
      ↔ ∀ row ∈ rows, ∀ entry ∈ row.cells, Term.InRange columns entry.1 := by
  constructor
  · intro h row hrow entry hentry
    obtain ⟨i, hi, rfl⟩ := List.getElem_of_mem hrow
    have hmem : (⟨i, entry.1, entry.2⟩ : Cell τ) ∈ (ofRows rows).cells :=
      mem_cells_ofRows.2 ⟨rows[i], List.getElem?_eq_getElem hi, hentry⟩
    exact (h.2.2 _ hmem).2
  · intro h
    refine ⟨arraysAgree_ofRows rows, (isGrouped_ofRows rows).1, ?_⟩
    intro cell hcell
    obtain ⟨row, hrow, hentry⟩ := mem_cells_ofRows.1 hcell
    exact ⟨(isGrouped_ofRows rows).2 cell hcell, h row (List.mem_of_getElem? hrow) _ hentry⟩

end RowStore

namespace Model

theorem firstDefect_eq_none_iff {m : Model τ} : m.firstDefect = none ↔ m.WellFormed := by
  rw [firstDefect, Option.or_eq_none_iff, Option.or_eq_none_iff, firstMisplaced_eq_none_iff,
    RowStore.firstDefect_eq_none_iff, List.findSome?_eq_none_iff, WellFormed]
  simp only [termDefect_eq_none_iff, Nat.zero_add]

theorem WellFormed.index_eq {m : Model τ} (h : m.WellFormed) {j : Nat} {v : Variable}
    (hv : m.vars[j]? = some v) : v.index = j := by
  obtain ⟨hj, rfl⟩ := List.getElem?_eq_some_iff.1 hv
  exact h.1 j hj

theorem WellFormed.cell_term_lt {m : Model Nat} (h : m.WellFormed) :
    ∀ cell ∈ m.constraints.cells, cell.term < m.vars.length := by
  intro cell hcell
  exact (h.2.1.2.2 cell hcell).2 cell.term (by simp [Term.columnList, Term.columns])

theorem WellFormed.objective_term_lt {m : Model Nat} (h : m.WellFormed) :
    ∀ cell ∈ m.objective.cells, cell.term < m.vars.length := by
  intro cell hcell
  exact h.2.2 cell hcell cell.term (by simp [Term.columnList, Term.columns])

end Model

end SparseProgram
