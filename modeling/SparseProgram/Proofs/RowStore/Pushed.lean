import SparseProgram.Proofs.Model.FirstDefect
import SparseProgram.Proofs.Positions

/-!
# Pushed rows

What is read from a store after a run of pushes. A push adds one slice behind all others, and to
what is checked it adds the columns of its row: a store filled by pushes has no other defect than a
column that does not exist.
-/

namespace SparseProgram

variable {τ : Type} [Term τ]

/-! ## Columns -/

def Row.columns (row : Row τ) : List Nat :=
  row.cells.flatMap fun entry => Term.columnList entry.1

def strayDefect (columns : Nat) (named : List Nat) : Option Defect :=
  (named.find? fun column => decide (columns ≤ column)).map fun column =>
    .columnOutOfRange column columns

theorem strayDefect_append (columns : Nat) (front back : List Nat) :
    strayDefect columns (front ++ back)
      = (strayDefect columns front).or (strayDefect columns back) := by
  rw [strayDefect, List.find?_append, Option.map_or]
  rfl

theorem strayDefect_eq_none_iff {columns : Nat} {named : List Nat} :
    strayDefect columns named = none ↔ ∀ column ∈ named, column < columns := by
  simp [strayDefect]

theorem strayDefect_eq_some_iff {columns : Nat} {named : List Nat} {d : Defect} :
    strayDefect columns named = some d
      ↔ ∃ column, IsFirst (columns ≤ ·) named column ∧ d = .columnOutOfRange column columns := by
  rw [strayDefect, Option.map_eq_some_iff]
  simp only [find?_eq_some_iff_isFirst, decide_eq_true_eq, @eq_comm _ d]

theorem termDefect_eq_strayDefect (columns : Nat) (t : τ) :
    termDefect columns t = strayDefect columns (Term.columnList t) := by
  rw [termDefect, strayDefect, List.find?_eq_findSome?_guard, List.map_findSome?]
  congr 1
  funext column
  by_cases h : columns ≤ column <;> simp [h, Option.guard]

/-! ## One push -/

/-- Where rows exist and are in order, a cell has no other defect than those of its columns. -/
theorem firstCellDefect_eq_strayDefect {rows columns previous : Nat} {cells : List (Cell τ)}
    (horder : RowsInOrder cells)
    (hrows : ∀ cell ∈ cells, previous ≤ cell.row ∧ cell.row < rows) :
    firstCellDefect rows columns previous cells
      = strayDefect columns (cells.flatMap fun cell => Term.columnList cell.term) := by
  induction cells generalizing previous with
  | nil => rfl
  | cons cell rest ih =>
      obtain ⟨hhead, htail⟩ := List.pairwise_cons.1 horder
      rw [List.forall_mem_cons] at hrows
      obtain ⟨⟨hprevious, hrow⟩, hrest⟩ := hrows
      have hcell : cellDefect rows columns previous cell
          = strayDefect columns (Term.columnList cell.term) := by
        rw [cellDefect, if_neg (Nat.not_le.2 hrow), if_neg (Nat.not_lt.2 hprevious),
          termDefect_eq_strayDefect]
      rw [firstCellDefect, List.flatMap_cons, strayDefect_append, hcell,
        ih htail fun c hc => ⟨hhead c hc, (hrest c hc).2⟩]

namespace RowStore

variable {s : RowStore τ}

omit [Term τ] in
theorem ArraysAgree.push (h : s.ArraysAgree) (row : Row τ) : (s.push row).ArraysAgree := by
  rw [ArraysAgree, size_push]
  simp [RowStore.push, h.1, h.2]

theorem IsGrouped.firstDefect_eq (h : s.IsGrouped) (ha : s.ArraysAgree) (columns : Nat) :
    s.firstDefect columns
      = strayDefect columns (s.cells.flatMap fun cell => Term.columnList cell.term) := by
  rw [firstDefect, arraysDefect_eq_none_iff.2 ha, Option.none_or]
  exact firstCellDefect_eq_strayDefect h.1 fun cell hcell => ⟨Nat.zero_le _, h.2 cell hcell⟩

/-- The columns of a pushed row are checked after all others, and nothing else of it is. -/
theorem firstDefect_push (h : s.IsGrouped) (ha : s.ArraysAgree) (row : Row τ) (columns : Nat) :
    (s.push row).firstDefect columns
      = (s.firstDefect columns).or (strayDefect columns row.columns) := by
  rw [(h.push row).firstDefect_eq (ha.push row), h.firstDefect_eq ha, cells_push,
    List.flatMap_append, strayDefect_append, Row.cellsAt, List.flatMap_map]
  rfl

/-! ## Runs of pushes -/

theorem firstDefect_ofRows (rows : List (Row τ)) (columns : Nat) :
    (ofRows rows).firstDefect columns = strayDefect columns (rows.flatMap Row.columns) := by
  induction rows using List.reverseRecOn with
  | nil => rfl
  | append_singleton rows row ih =>
      rw [ofRows_concat, firstDefect_push (isGrouped_ofRows rows) (arraysAgree_ofRows rows), ih,
        ← strayDefect_append, List.flatMap_append, List.flatMap_singleton]

omit [Term τ] in
theorem entries_cellsAt (row : Row τ) (number : Nat) :
    ((row.cellsAt number).map fun cell => (cell.term, cell.coefficient)) = row.cells := by
  rw [Row.cellsAt, List.map_map]
  exact List.map_id _

/-- Rows pushed onto the empty store are read back as they were pushed, whatever their cells are,
and the store is in order if and only if all their columns exist: else the first column that does
not is reported. Onto any grouped store a push appends one slice and keeps the others. -/
theorem pushed_rows_are_read :
    (∀ rows : List (Row τ),
        (ofRows rows).slices = (rows.mapIdx fun i row => row.cellsAt i)
          ∧ ((ofRows rows).slices.map fun slice =>
              slice.map fun cell => (cell.term, cell.coefficient)) = rows.map (·.cells)
          ∧ (ofRows rows).relations = rows.map (·.relation)
          ∧ (ofRows rows).rightSides = rows.map (·.rightSide)
          ∧ (ofRows rows).names = rows.map (·.name)
          ∧ ∀ columns,
            ((ofRows rows).firstDefect columns = none
                ↔ ∀ column ∈ rows.flatMap Row.columns, column < columns)
              ∧ ∀ d, (ofRows rows).firstDefect columns = some d
                ↔ ∃ column, IsFirst (columns ≤ ·) (rows.flatMap Row.columns) column
                  ∧ d = .columnOutOfRange column columns)
      ∧ ∀ s : RowStore τ, RowsInOrder s.cells → (∀ cell ∈ s.cells, cell.row < s.size) →
        ∀ row, (s.push row).slices = s.slices ++ [row.cellsAt s.size] := by
  constructor
  · intro rows
    refine ⟨slices_ofRows rows, ?_, relations_ofRows rows, rightSides_ofRows rows,
      names_ofRows rows, ?_⟩
    · rw [slices_ofRows, map_mapIdx]
      simp only [entries_cellsAt]
      exact mapIdx_ignore (·.cells) rows
    · intro columns
      rw [firstDefect_ofRows]
      exact ⟨strayDefect_eq_none_iff, fun _ => strayDefect_eq_some_iff⟩
  · intro s horder hrows row
    exact slices_push ⟨horder, hrows⟩ row

def delivered : List (Row QuadraticTerm) :=
  [⟨[], .equal, .nan, "none"⟩,
    ⟨[(.product 4 1, .one), (.linear 0, -.zero), (.product 4 1, .one)], .lessEqual, .one, "mixed"⟩,
    ⟨[], .greaterEqual, .zero, "none"⟩,
    ⟨[(.product 2 6, .nan), (.linear 5, .one)], .equal, -.one, "last"⟩]

def unnamed : RowStore QuadraticTerm where
  cells := [⟨0, .linear 9, .one⟩, ⟨0, .linear 3, .one⟩, ⟨2, .product 1 0, .nan⟩]
  relations := [.equal]
  rightSides := [.zero, .one, .nan]
  names := []

theorem pushed_rows_are_read_delivered :
    (ofRows delivered).slices
        = [[],
          [⟨1, .product 4 1, .one⟩, ⟨1, .linear 0, -.zero⟩, ⟨1, .product 4 1, .one⟩],
          [],
          [⟨3, .product 2 6, .nan⟩, ⟨3, .linear 5, .one⟩]]
      ∧ (ofRows delivered).firstDefect 7 = none
      ∧ (ofRows delivered).firstDefect 5 = some (.columnOutOfRange 6 5)
      ∧ (unnamed.push ⟨[(.linear 2, .one)], .equal, .zero, "late"⟩).slices
        = [[⟨0, .linear 9, .one⟩, ⟨0, .linear 3, .one⟩], [], [⟨2, .product 1 0, .nan⟩],
          [⟨3, .linear 2, .one⟩]] := by
  obtain ⟨hrun, hpush⟩ := pushed_rows_are_read (τ := QuadraticTerm)
  obtain ⟨hslices, -, -, -, -, hdefect⟩ := hrun delivered
  have hunnamed := hpush unnamed (by simp [unnamed, RowsInOrder]) (by decide)
    ⟨[(.linear 2, .one)], .equal, .zero, "late"⟩
  refine ⟨?_, ?_, ?_, ?_⟩
  · rw [hslices]
    rfl
  · exact (hdefect 7).1.2 (by decide)
  · exact ((hdefect 5).2 _).2 ⟨6, ⟨[4, 1, 0, 4, 1, 2], [5], rfl, by decide, by decide⟩, rfl⟩
  · rw [hunnamed]
    rfl

end RowStore

end SparseProgram
