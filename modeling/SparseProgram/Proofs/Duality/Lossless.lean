import SparseProgram.Proofs.Duality.Double
import SparseProgram.Proofs.Duality.Placement

/-!
# Duals without loss

What of a model its dual holds, number for number: the cells under exchanged rows and columns, the
right-hand sides as costs and the total costs as right-hand sides. The dual that is taken in place
holds the same, so the slots of its columns, laid one behind the other, are a stable sort.
-/

namespace SparseProgram

namespace Model

/-- Columns have become rows and rows columns, and nothing is lost, added or rounded but in the
totals of the costs. -/
structure IsTransposeOf (d m : Model Nat) : Prop where
  /-- It is what comes out when every cell is put into the slot of its column. -/
  placed : m.placedDual = some (.ok d)
  /-- The cells are sorted by column, those of one column as they were. -/
  cells : d.constraints.cells = (sortBy (·.term) m.constraints.cells).map Cell.swap
  cells_perm : d.constraints.cells.Perm (m.constraints.cells.map Cell.swap)
  slices : d.constraints.slices = (List.range m.vars.length).map fun j =>
    (m.constraints.cells.filter (·.term == j)).map Cell.swap
  rowNames : d.constraints.names = m.vars.map (·.name ++ "_dual")
  /-- Its right-hand side is the objective's cells of the column, added to zero from left to right. -/
  rightSides : d.constraints.rightSides = (List.range m.vars.length).map fun j =>
    ((m.objective.cells.filter (·.term == j)).map (·.coefficient)).foldl (· + ·) .zero
  length_vars : d.vars.length = m.constraints.size
  variableNames : d.vars.map (·.name) = m.constraints.names.map (· ++ "_dual")
  costs : d.objective.cells = m.constraints.rightSides.mapIdx fun i rightSide => ⟨i, rightSide⟩

theorem slices_transpose (m : Model Nat) :
    m.transpose.constraints.slices = (List.range m.vars.length).map fun j =>
      (m.constraints.cells.filter (·.term == j)).map Cell.swap := by
  rw [constraints_transpose, RowStore.slices_ofRows, cellsAt_dualRows]

theorem rightSides_transpose_eq_map (m : Model Nat) :
    m.transpose.constraints.rightSides = (List.range m.vars.length).map fun j =>
      ((m.objective.cells.filter (·.term == j)).map (·.coefficient)).foldl (· + ·) .zero := by
  rw [rightSides_transpose, mapIdx_const]
  apply List.map_congr_left
  intro j _
  rw [cost, List.foldl_map]

theorem variableNames_transpose {m : Model Nat} (h : m.constraints.ArraysAgree) :
    m.transpose.vars.map (·.name) = m.constraints.names.map (· ++ "_dual") := by
  have hnames : (m.constraints.relations.zip m.constraints.names).map Prod.snd
      = m.constraints.names :=
    List.map_snd_zip (Nat.le_of_eq (h.2.trans h.1.symm))
  rw [vars_transpose, dualVariables, map_mapIdx, ← mapIdx_ignore]
  conv_rhs => rw [← hnames, mapIdx_map]

/-- Whenever a model has a dual, that is its transpose. -/
theorem dual_isTransposeOf {m d : Model Nat} (hdual : m.dual = .ok d) : d.IsTransposeOf m := by
  obtain ⟨⟨hm, hshapes⟩, rfl⟩ := dual_eq_ok_iff.1 hdual
  have hcells := cells_transpose hm
  constructor
  case placed => rw [placedDual_eq, hdual]
  case cells => exact hcells
  case cells_perm =>
    rw [hcells]
    exact (sortBy_perm m.constraints.cells).map Cell.swap
  case slices => exact m.slices_transpose
  case rowNames => exact m.rowNames_transpose
  case rightSides => exact m.rightSides_transpose_eq_map
  case length_vars => exact length_dualVariables hm.2.1.1
  case variableNames => exact variableNames_transpose hm.2.1.1
  case costs => exact m.objectiveCells_transpose

theorem dual_isTransposeOf_scattered :
    ∃ d, scattered.dual = .ok d
      ∧ d.constraints.slices
        = [[⟨0, 0, .ofInt 2⟩, ⟨0, 0, .ofInt 3⟩],
          [],
          [⟨2, 0, .one⟩, ⟨2, 0, .nan⟩, ⟨2, 2, -.one⟩]]
      ∧ d.constraints.rightSides = [.ofInt 2, .zero, .ofInt 4]
      ∧ d.vars.map (·.name) = ["mixed_dual", "empty_dual", "last_dual"]
      ∧ d.objective.cells = [⟨0, -.zero⟩, ⟨1, .nan⟩, ⟨2, .ofInt 5⟩] := by
  have hdual : scattered.dual = .ok scattered.transpose := by decide +kernel
  have hform := dual_isTransposeOf hdual
  refine ⟨scattered.transpose, hdual, ?_, ?_, ?_, ?_⟩
  · rw [hform.slices]
    decide +kernel
  · rw [hform.rightSides]
    decide +kernel
  · rw [hform.variableNames]
    rfl
  · rw [hform.costs]
    rfl

end Model

end SparseProgram
