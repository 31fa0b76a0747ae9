import SparseProgram.Model.FirstDefect
import SparseProgram.First
import SparseProgram.Proofs.Model.WellFormed

/-!
# Finding the first defect

A model is accepted exactly if it is well formed, and what is reported otherwise is its first defect.
The scan of the cells carries one row number, that of the cell before; of rows in order it is the
largest so far.
-/

namespace SparseProgram

variable {τ : Type} [Term τ]

/-! ## Terms -/

theorem termDefect_eq_some_iff {columns : Nat} {term : τ} {d : Defect} :
    termDefect columns term = some d
      ↔ ∃ column, IsFirstStray columns term column ∧ d = .columnOutOfRange column columns := by
  have hnone (column : Nat) :
      (if columns ≤ column then some (Defect.columnOutOfRange column columns) else none) = none
        ↔ ¬columns ≤ column := by
    simp
  unfold termDefect IsFirstStray
  rw [findSome?_eq_some_iff_isFirst hnone]
  apply exists_congr
  intro column
  apply and_congr_right
  intro hfirst
  rw [if_pos hfirst.holds, Option.some_inj, eq_comm]

/-! ## Cells -/

theorem cellDefect_eq_some_iff {rows columns previous : Nat} {cell : Cell τ} {d : Defect} :
    cellDefect rows columns previous cell = some d
      ↔ (rows ≤ cell.row ∧ d = .rowOutOfRange cell.row rows)
        ∨ (cell.row < rows ∧ cell.row < previous ∧ d = .rowOrder cell.row previous)
        ∨ (cell.row < rows ∧ previous ≤ cell.row ∧ termDefect columns cell.term = some d) := by
  unfold cellDefect
  by_cases hrow : rows ≤ cell.row
  · simp [hrow, Nat.not_lt.2 hrow, eq_comm]
  · by_cases hprevious : cell.row < previous
    · simp [hrow, hprevious, Nat.not_le.2 hprevious, Nat.not_le.1 hrow, eq_comm]
    · simp [hrow, hprevious, Nat.not_le.1 hrow, Nat.not_lt.1 hprevious]

/-- The row number that the scan carries behind some cells. -/
def carriedRow (previous : Nat) (cells : List (Cell τ)) : Nat :=
  cells.foldl (fun _ cell => cell.row) previous

omit [Term τ] in
theorem carriedRow_concat (previous : Nat) (cells : List (Cell τ)) (cell : Cell τ) :
    carriedRow previous (cells ++ [cell]) = cell.row := by
  simp [carriedRow]

omit [Term τ] in
/-- Of rows in order the last is the largest, so a next one need only be compared with it. -/
theorem rowsInOrder_concat_iff {cells : List (Cell τ)} {cell : Cell τ} :
    RowsInOrder (cells ++ [cell]) ↔ RowsInOrder cells ∧ carriedRow 0 cells ≤ cell.row := by
  unfold RowsInOrder
  rw [List.pairwise_append]
  simp only [List.pairwise_singleton, true_and, List.mem_singleton, forall_eq]
  apply and_congr_right
  intro hordered
  induction cells using List.reverseRecOn with
  | nil => simp [carriedRow]
  | append_singleton init last _ =>
      rw [carriedRow_concat]
      constructor
      · intro h
        exact h last (by simp)
      · intro hlast c hc
        rcases List.mem_append.1 hc with hinit | hlast'
        · exact Nat.le_trans ((List.pairwise_append.1 hordered).2.2 c hinit last (by simp)) hlast
        · rw [List.mem_singleton.1 hlast']
          exact hlast

theorem firstCellDefect_append (rows columns previous : Nat) (before rest : List (Cell τ)) :
    firstCellDefect rows columns previous (before ++ rest)
      = (firstCellDefect rows columns previous before).or
        (firstCellDefect rows columns (carriedRow previous before) rest) := by
  induction before generalizing previous with
  | nil => rfl
  | cons cell before ih =>
      rw [List.cons_append, firstCellDefect, firstCellDefect, ih, Option.or_assoc]
      rfl

/-- The scan stops at the first cell that has a defect behind the cells before it. -/
theorem firstCellDefect_eq_some_iff {rows columns previous : Nat} {cells : List (Cell τ)}
    {d : Defect} :
    firstCellDefect rows columns previous cells = some d
      ↔ ∃ before cell after, cells = before ++ cell :: after
        ∧ firstCellDefect rows columns previous before = none
        ∧ cellDefect rows columns (carriedRow previous before) cell = some d := by
  constructor
  · intro h
    induction cells generalizing previous with
    | nil => cases h
    | cons cell rest ih =>
        rw [firstCellDefect, Option.or_eq_some_iff] at h
        rcases h with hcell | ⟨hcell, hrest⟩
        · exact ⟨[], cell, rest, rfl, rfl, hcell⟩
        · obtain ⟨before, c, after, rfl, hbefore, hc⟩ := ih hrest
          refine ⟨cell :: before, c, after, rfl, ?_, hc⟩
          rw [firstCellDefect, hcell, hbefore, Option.none_or]
  · rintro ⟨before, cell, after, rfl, hbefore, hcell⟩
    rw [firstCellDefect_append, hbefore, Option.none_or, firstCellDefect, hcell, Option.some_or]

theorem firstCellDefect_zero_eq_none_iff {rows columns : Nat} {cells : List (Cell τ)} :
    firstCellDefect rows columns 0 cells = none ↔ CellsFit rows columns cells := by
  rw [firstCellDefect_eq_none_iff, CellsFit]
  exact and_iff_right fun cell _ => Nat.zero_le cell.row

theorem firstCellDefect_zero_eq_some_iff {rows columns : Nat} {cells : List (Cell τ)} {d : Defect} :
    firstCellDefect rows columns 0 cells = some d ↔ IsFirstCellDefect rows columns cells d := by
  rw [firstCellDefect_eq_some_iff]
  simp only [firstCellDefect_zero_eq_none_iff, cellDefect_eq_some_iff, termDefect_eq_some_iff]
  constructor
  · rintro ⟨before, cell, after, hcells, hfit, hrow | horder | hcolumn⟩
    · obtain ⟨hrow, rfl⟩ := hrow
      exact .row before after cell hcells hfit hrow
    · obtain ⟨hrow, hless, rfl⟩ := horder
      -- Nothing is less than the row number that the scan starts with.
      rcases List.eq_nil_or_concat' before with rfl | ⟨init, previous, rfl⟩
      · exact absurd hless (Nat.not_lt_zero _)
      · rw [carriedRow_concat] at hless ⊢
        exact .order init after previous cell (by simpa using hcells) hfit hrow hless
    · obtain ⟨hrow, hle, column, hstray, rfl⟩ := hcolumn
      exact .column before after cell column hcells hfit hrow
        (rowsInOrder_concat_iff.2 ⟨hfit.1, hle⟩) hstray
  · intro h
    cases h with
    | row before after cell hcells hfit hrow =>
        exact ⟨before, cell, after, hcells, hfit, .inl ⟨hrow, rfl⟩⟩
    | order before after previous cell hcells hfit hrow hless =>
        refine ⟨before ++ [previous], cell, after, by simpa using hcells, hfit, .inr (.inl ?_)⟩
        rw [carriedRow_concat]
        exact ⟨hrow, hless, rfl⟩
    | column before after cell column hcells hfit hrow hordered hstray =>
        exact ⟨before, cell, after, hcells, hfit,
          .inr (.inr ⟨hrow, (rowsInOrder_concat_iff.1 hordered).2, column, hstray, rfl⟩)⟩

example :
    firstCellDefect 2 1 0
      [⟨1, QuadraticTerm.linear 0, .one⟩, ⟨0, .product 3 2, .one⟩, ⟨1, .product 0 2, .one⟩]
      = some (.rowOrder 0 1) := by
  decide

/-! ## Models -/

theorem firstMisplaced_eq_findSome? (position : Nat) (vars : List Variable) :
    firstMisplaced position vars
      = (vars.zipIdx position).findSome? fun entry =>
        if entry.1.index = entry.2 then none else some (.variableIndex entry.2 entry.1.index) := by
  induction vars generalizing position with
  | nil => rfl
  | cons v rest ih =>
      rw [firstMisplaced, List.zipIdx_cons, List.findSome?_cons, ih]
      by_cases hv : v.index = position
      · simp [hv]
      · simp [hv]

omit [Term τ] in
theorem RowStore.arraysDefect_eq_some_iff {s : RowStore τ} {d : Defect} :
    s.arraysDefect = some d
      ↔ ¬s.ArraysAgree ∧ d = .rowArrays s.relations.length s.size s.names.length := by
  unfold arraysDefect ArraysAgree
  split <;> simp_all [eq_comm]

namespace Model

variable {m : Model τ} {d : Defect}

omit [Term τ] in
theorem firstMisplaced_eq_some_iff :
    firstMisplaced 0 m.vars = some d
      ↔ ∃ v position,
        IsFirst (fun entry => entry.1.index ≠ entry.2) m.vars.zipIdx (v, position)
          ∧ d = .variableIndex position v.index := by
  have hnone (entry : Variable × Nat) :
      (if entry.1.index = entry.2 then none
        else some (Defect.variableIndex entry.2 entry.1.index)) = none
        ↔ ¬entry.1.index ≠ entry.2 := by
    simp
  rw [firstMisplaced_eq_findSome?, findSome?_eq_some_iff_isFirst hnone, Prod.exists]
  apply exists₂_congr
  intro v position
  apply and_congr_right
  intro hfirst
  rw [if_neg hfirst.holds, Option.some_inj, eq_comm]

omit [Term τ] in
theorem inPlace_iff : m.InPlace ↔ firstMisplaced 0 m.vars = none := by
  rw [firstMisplaced_eq_findSome?, List.findSome?_eq_none_iff]
  simp [InPlace]

theorem objectiveDefect_eq_some_iff :
    (m.objective.cells.findSome? fun cell => termDefect m.vars.length cell.term) = some d
      ↔ ∃ cell column,
        IsFirst (fun cell => ¬Term.InRange m.vars.length cell.term) m.objective.cells cell
          ∧ IsFirstStray m.vars.length cell.term column
          ∧ d = .columnOutOfRange column m.vars.length := by
  have hnone (cell : ObjectiveCell τ) :
      termDefect m.vars.length cell.term = none ↔ ¬¬Term.InRange m.vars.length cell.term := by
    rw [termDefect_eq_none_iff, not_not]
  rw [findSome?_eq_some_iff_isFirst hnone]
  simp only [termDefect_eq_some_iff, exists_and_left]

theorem firstDefect_eq_some_iff : m.firstDefect = some d ↔ m.IsFirstDefect d := by
  rw [firstDefect, RowStore.firstDefect, Option.or_eq_some_iff, Option.or_eq_some_iff,
    Option.or_eq_some_iff, Option.or_eq_none_iff, firstMisplaced_eq_some_iff, ← inPlace_iff,
    RowStore.arraysDefect_eq_some_iff, RowStore.arraysDefect_eq_none_iff,
    firstCellDefect_zero_eq_some_iff, firstCellDefect_zero_eq_none_iff,
    objectiveDefect_eq_some_iff]
  constructor
  · rintro (⟨v, position, hfirst, rfl⟩ | ⟨hplace, hstore | ⟨⟨harrays, hfit⟩, hobjective⟩⟩)
    · exact .misplaced v position hfirst
    · rcases hstore with ⟨harrays, rfl⟩ | ⟨harrays, hcell⟩
      · exact .arrays hplace harrays
      · exact .cell d hplace harrays hcell
    · obtain ⟨cell, column, hfirst, hstray, rfl⟩ := hobjective
      exact .objective cell column hplace ⟨harrays, hfit⟩ hfirst hstray
  · intro h
    cases h with
    | misplaced v position hfirst => exact .inl ⟨v, position, hfirst, rfl⟩
    | arrays hplace harrays => exact .inr ⟨hplace, .inl (.inl ⟨harrays, rfl⟩)⟩
    | cell _ hplace harrays hcell => exact .inr ⟨hplace, .inl (.inr ⟨harrays, hcell⟩)⟩
    | objective cell column hplace hstore hfirst hstray =>
        exact .inr ⟨hplace, .inr ⟨hstore, cell, column, hfirst, hstray, rfl⟩⟩

/-- The gate accepts exactly the well-formed models, and of all others it reports the first defect. -/
theorem firstDefect_exact (m : Model τ) :
    (m.firstDefect = none ↔ m.WellFormed) ∧ ∀ d, m.firstDefect = some d ↔ m.IsFirstDefect d :=
  ⟨firstDefect_eq_none_iff, fun _ => firstDefect_eq_some_iff⟩

/-- The conditions of the defects leave no malformed model out and never hold of two defects. -/
theorem existsUnique_isFirstDefect (h : ¬m.WellFormed) : ∃! d, m.IsFirstDefect d := by
  rw [← firstDefect_eq_none_iff] at h
  obtain ⟨d, hd⟩ := Option.ne_none_iff_exists'.1 h
  refine ⟨d, firstDefect_eq_some_iff.1 hd, ?_⟩
  intro d' hd'
  exact Option.some.inj ((firstDefect_eq_some_iff.2 hd').symm.trans hd)

end Model

end SparseProgram
