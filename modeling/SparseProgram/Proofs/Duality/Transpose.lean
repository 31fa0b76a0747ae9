import SparseProgram.Model.Dual
import SparseProgram.Proofs.Attempts
import SparseProgram.Proofs.Model.WellFormed
import SparseProgram.Proofs.Positions

/-!
# Transposition

Which models have a dual and what it holds: a well-formed model in which no variable has a bound
that duality cannot express. The cells of the dual are those of the model, stably sorted by column,
with rows and columns exchanged.
-/

namespace SparseProgram

namespace Sense

theorem dualRelation_eq_none_iff {sense : Sense} {shape : BoundShape} :
    sense.dualRelation shape = none ↔ shape = .other := by
  cases sense <;> cases shape <;> simp [dualRelation]

end Sense

namespace Cell

def swap (cell : Cell Nat) : Cell Nat :=
  ⟨cell.term, cell.row, cell.coefficient⟩

end Cell

namespace Model

def HasDual (m : Model Nat) : Prop :=
  m.WellFormed ∧ ∀ v ∈ m.vars, v.shape ≠ .other

/-- One row for each variable. The relation of a variable that has none does not matter. -/
def dualRows (m : Model Nat) : List (Row Nat) :=
  m.vars.mapIdx fun j v =>
    ⟨m.column j, (m.objective.sense.dualRelation v.shape).getD .equal, m.cost j,
      v.name ++ "_dual"⟩

def transpose (m : Model Nat) : Model Nat :=
  ⟨m.name ++ "-dual", m.dualVariables, .ofRows m.dualRows, m.dualObjective⟩

theorem vars_transpose (m : Model Nat) : m.transpose.vars = m.dualVariables :=
  rfl

theorem constraints_transpose (m : Model Nat) : m.transpose.constraints = .ofRows m.dualRows :=
  rfl

theorem objectiveCells_transpose (m : Model Nat) :
    m.transpose.objective.cells
      = m.constraints.rightSides.mapIdx fun row rightSide => ⟨row, rightSide⟩ :=
  rfl

theorem dualRow_eq_ok_iff {m : Model Nat} {v : Variable} {j : Nat} {row : Row Nat} :
    m.dualRow v j = .ok row
      ↔ v.shape ≠ .other
        ∧ row = ⟨m.column j, (m.objective.sense.dualRelation v.shape).getD .equal, m.cost j,
            v.name ++ "_dual"⟩ := by
  unfold dualRow
  rw [Ne, ← Sense.dualRelation_eq_none_iff]
  cases m.objective.sense.dualRelation v.shape with
  | none => simp
  | some relation =>
      simp only [Except.ok.injEq, reduceCtorEq, not_false_eq_true, true_and, Option.getD_some]
      exact eq_comm

/-- A model has a dual exactly if it is well formed and every variable is free or bounded by zero
on one side. -/
theorem dual_eq_ok_iff {m d : Model Nat} : m.dual = .ok d ↔ m.HasDual ∧ d = m.transpose := by
  unfold dual HasDual
  rw [← firstDefect_eq_none_iff]
  cases m.firstDefect with
  | some defect => simp
  | none =>
      simp only [true_and]
      rw [bind_eq_ok_iff]
      have hrows (rows : List (Row Nat)) :
          (m.vars.zipIdx.mapM fun entry => m.dualRow entry.1 entry.2) = .ok rows
            ↔ (∀ entry ∈ m.vars.zipIdx, entry.1.shape ≠ .other) ∧ rows = m.dualRows := by
        rw [dualRows, List.mapIdx_eq_zipIdx_map]
        exact mapM_eq_ok_iff_map fun entry row => dualRow_eq_ok_iff
      have hshapes : (∀ entry ∈ m.vars.zipIdx, entry.1.shape ≠ .other)
          ↔ ∀ v ∈ m.vars, v.shape ≠ .other := by
        rw [← List.forall_mem_map (P := fun v : Variable => v.shape ≠ .other) (f := Prod.fst),
          List.zipIdx_map_fst]
      constructor
      · intro h
        rcases h with ⟨rows, hok, hpure⟩
        obtain ⟨hall, rfl⟩ := (hrows rows).1 hok
        exact ⟨hshapes.1 hall, (pure_eq_ok_iff.1 hpure).symm⟩
      · intro h
        rcases h with ⟨hall, rfl⟩
        exact ⟨m.dualRows, (hrows _).2 ⟨hshapes.2 hall, rfl⟩, rfl⟩

/-! ## The parts of the dual -/

theorem length_dualVariables {m : Model Nat} (h : m.constraints.ArraysAgree) :
    m.dualVariables.length = m.constraints.size := by
  simp [dualVariables, h.1, h.2]

theorem dualVariables_eq {m : Model Nat} {rows : List (Row Nat)}
    (h : m.constraints = .ofRows rows) :
    m.dualVariables
      = rows.mapIdx fun i row =>
          ⟨i, m.objective.sense.dualBounds row.relation, .continuous, row.name ++ "_dual", none⟩ := by
  rw [dualVariables, h, RowStore.relations_ofRows, RowStore.names_ofRows, List.zip_map',
    mapIdx_map]

theorem relations_transpose (m : Model Nat) :
    m.transpose.constraints.relations
      = m.vars.map fun v => (m.objective.sense.dualRelation v.shape).getD .equal := by
  rw [constraints_transpose, RowStore.relations_ofRows, dualRows, map_mapIdx, mapIdx_ignore]

theorem rightSides_transpose (m : Model Nat) :
    m.transpose.constraints.rightSides = m.vars.mapIdx fun j _ => m.cost j := by
  rw [constraints_transpose, RowStore.rightSides_ofRows, dualRows, map_mapIdx]

theorem rowNames_transpose (m : Model Nat) :
    m.transpose.constraints.names = m.vars.map fun v => v.name ++ "_dual" := by
  rw [constraints_transpose, RowStore.names_ofRows, dualRows, map_mapIdx, mapIdx_ignore]

theorem cellsAt_dualRows (m : Model Nat) :
    (m.dualRows.mapIdx fun j row => row.cellsAt j)
      = (List.range m.vars.length).map fun j =>
          (m.constraints.cells.filter (·.term == j)).map Cell.swap := by
  rw [dualRows, List.mapIdx_mapIdx, ← mapIdx_const]
  apply List.mapIdx_eq_mapIdx_iff.2
  intro j hj
  simp only [Function.comp_apply, Row.cellsAt, column, List.map_map]
  apply List.map_congr_left
  intro cell hcell
  have hterm : cell.term = j := key_of_mem_bucket hcell
  simp [Cell.swap, hterm]

/-- Nothing is lost and nothing is reordered beyond a stable sort. -/
theorem cells_transpose {m : Model Nat} (h : m.WellFormed) :
    m.transpose.constraints.cells = (sortBy (·.term) m.constraints.cells).map Cell.swap := by
  rw [constraints_transpose, RowStore.cells_ofRows, cellsAt_dualRows,
    ← bucketsBelow_eq_sortBy h.cell_term_lt, bucketsBelow, List.map_flatMap, List.flatMap_def]

theorem WellFormed.transpose {m : Model Nat} (h : m.WellFormed) : m.transpose.WellFormed := by
  have hlength : m.transpose.vars.length = m.constraints.size := length_dualVariables h.2.1.1
  refine ⟨?_, ?_, ?_⟩
  · intro i hi
    simp [Model.transpose, dualVariables]
  · rw [hlength]
    apply RowStore.wellFormed_ofRows_iff.2
    intro row hrow entry hentry column hcolumn
    obtain ⟨j, hj, rfl⟩ := List.mem_mapIdx.1 hrow
    obtain ⟨cell, hcell, rfl⟩ := List.mem_map.1 hentry
    have hrow_eq : column = cell.row := by
      simpa [Term.columnList, Term.columns] using hcolumn
    rw [hrow_eq]
    exact (h.2.1.2.2 cell (List.mem_filter.1 hcell).1).1
  · rw [hlength]
    intro cell hcell column hcolumn
    obtain ⟨i, hi, rfl⟩ := List.mem_mapIdx.1 hcell
    have hcolumn_eq : column = i := by simpa [Term.columnList, Term.columns] using hcolumn
    rw [hcolumn_eq]
    exact hi

end Model

end SparseProgram
