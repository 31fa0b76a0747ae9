import SparseProgram.Proofs.Duality.Transpose
import SparseProgram.Proofs.Number.ExactValue

/-!
# Double duals

A dual has a dual again, which is the model in canonical form: the same program, with rows sorted
by column and with one objective cell for each column.
-/

namespace SparseProgram

namespace Sense

theorem dualRelation_shape_dualBounds (sense : Sense) (relation : Relation) :
    sense.reverse.dualRelation (sense.dualBounds relation).shape = some relation := by
  cases sense <;> cases relation <;> decide +kernel

theorem shape_dualBounds_of_dualRelation {sense : Sense} {shape : BoundShape}
    {relation : Relation} (h : sense.dualRelation shape = some relation) :
    (sense.reverse.dualBounds relation).shape = shape := by
  cases sense <;> cases shape <;> simp [dualRelation] at h <;> subst h <;> decide +kernel

end Sense

namespace Model

/-- `t` is `m` in canonical form, with the names that two duals give it. -/
structure IsCanonicalForm (m t : Model Nat) : Prop where
  name : t.name = m.name ++ "-dual-dual"
  sense : t.objective.sense = m.objective.sense
  relations : t.constraints.relations = m.constraints.relations
  rightSides : List.Forall₂ Binary64.Matches t.constraints.rightSides m.constraints.rightSides
  rowNames : t.constraints.names = m.constraints.names.map (· ++ "_dual_dual")
  variableNames : t.vars.map (·.name) = m.vars.map (·.name ++ "_dual_dual")
  shapes : t.vars.map (·.shape) = m.vars.map (·.shape)
  /-- Row by row, the cells stand in the order of their columns, equal columns as they were. -/
  cells : t.constraints.cells = (m.constraints.slices.map (sortBy (·.term))).flatten
  cells_of_sorted : (∀ slice ∈ m.constraints.slices, OrderedBy (·.term) slice) →
    t.constraints.cells = m.constraints.cells
  /-- Each column has one cell: its cells added to zero from left to right. -/
  costs : t.objective.cells = (List.range m.vars.length).map fun j =>
    ⟨j, ((m.objective.cells.filter (·.term == j)).map (·.coefficient)).foldl (· + ·) .zero⟩

theorem HasDual.transpose {m : Model Nat} (h : m.HasDual) : m.transpose.HasDual := by
  refine ⟨h.1.transpose, ?_⟩
  intro v hv hshape
  rw [vars_transpose, dualVariables_eq h.1.2.1.ofRows_toRows.symm] at hv
  obtain ⟨i, hi, rfl⟩ := List.mem_mapIdx.1 hv
  have hsome := m.objective.sense.dualRelation_shape_dualBounds
    m.constraints.toRows[i].relation
  have hnone : m.objective.sense.reverse.dualRelation
      (m.objective.sense.dualBounds m.constraints.toRows[i].relation).shape = none :=
    Sense.dualRelation_eq_none_iff.2 hshape
  rw [hnone] at hsome
  cases hsome

/-- The objective of a dual has one cell for each row, so its costs are right-hand sides added to
zero once. -/
theorem cost_transpose (m : Model Nat) {i : Nat} (hi : i < m.constraints.rightSides.length) :
    m.transpose.cost i = .zero + m.constraints.rightSides[i] := by
  have hnodup : (m.transpose.objective.cells.map (·.term)).Nodup := by
    rw [objectiveCells_transpose, map_mapIdx, mapIdx_const (fun i => i), List.map_id']
    exact List.nodup_range
  have hmem : (⟨i, m.constraints.rightSides[i]⟩ : ObjectiveCell Nat)
      ∈ m.transpose.objective.cells.filter (·.term == i) := by
    rw [objectiveCells_transpose]
    exact List.mem_filter.2 ⟨List.mem_mapIdx.2 ⟨i, hi, rfl⟩, by simp⟩
  rw [cost]
  rcases filter_key_of_nodup hnodup i with hnone | ⟨cell, hone⟩
  · rw [hnone] at hmem
    cases hmem
  · rw [hone, List.mem_singleton] at hmem
    rw [hone, ← hmem]
    rfl

theorem rightSides_transpose_transpose {m : Model Nat} (h : m.WellFormed) :
    m.transpose.transpose.constraints.rightSides
      = m.constraints.rightSides.map fun rightSide => .zero + rightSide := by
  have hlength : m.transpose.vars.length = m.constraints.size := length_dualVariables h.2.1.1
  rw [rightSides_transpose]
  apply List.ext_getElem
  · rw [List.length_mapIdx, List.length_map]
    exact hlength
  · intro i hi hi'
    rw [List.length_map] at hi'
    rw [List.getElem_mapIdx, List.getElem_map]
    exact m.cost_transpose hi'

/-- Sorting by column and then by row leaves each row sorted by column. -/
theorem cells_transpose_transpose {m : Model Nat} (h : m.WellFormed) :
    m.transpose.transpose.constraints.cells
      = (m.constraints.slices.map (sortBy (·.term))).flatten := by
  have hsize : ∀ cell ∈ sortBy (·.term) m.constraints.cells, cell.row < m.constraints.size :=
    fun cell hcell => (h.2.1.2.2 cell (mem_sortBy.1 hcell)).1
  have hrow (r : Nat) : (sortBy (·.term) m.constraints.cells).filter (·.row == r)
      = sortBy (·.term) (m.constraints.cells.filter (·.row == r)) :=
    filter_sortBy_comm _ h.cell_term_lt
  -- Each transposition sorts by what becomes the row, and a stable sort keeps the order before.
  calc
    m.transpose.transpose.constraints.cells
        = (sortBy (·.row) (sortBy (·.term) m.constraints.cells)).map fun cell =>
            cell.swap.swap := by
      rw [cells_transpose h.transpose, cells_transpose h, sortBy_map, List.map_map]
      rfl
    _ = sortBy (·.row) (sortBy (·.term) m.constraints.cells) := List.map_id' _
    _ = (List.range m.constraints.size).flatMap fun r =>
          sortBy (·.term) (m.constraints.cells.filter (·.row == r)) := by
      rw [← bucketsBelow_eq_sortBy hsize, bucketsBelow]
      simp only [hrow]
    _ = (m.constraints.slices.map (sortBy (·.term))).flatten := by
      rw [RowStore.slices_eq_map_filter h.2.1.isGrouped.1, List.map_map, List.flatMap_def]
      rfl

theorem dualRows_transpose {m : Model Nat} (h : m.WellFormed) :
    m.transpose.dualRows
      = m.constraints.toRows.mapIdx fun i row =>
          ⟨m.transpose.column i, row.relation, m.transpose.cost i, row.name ++ "_dual_dual"⟩ := by
  have hsense : m.transpose.objective.sense = m.objective.sense.reverse := rfl
  rw [dualRows, vars_transpose, dualVariables_eq h.2.1.ofRows_toRows.symm, List.mapIdx_mapIdx, hsense]
  apply List.mapIdx_eq_mapIdx_iff.2
  intro i hi
  simp only [Function.comp_apply, Variable.shape, Sense.dualRelation_shape_dualBounds,
    Option.getD_some, String.append_assoc]
  rfl

theorem vars_transpose_transpose (m : Model Nat) :
    m.transpose.transpose.vars
      = m.vars.mapIdx fun j v =>
          ⟨j, m.objective.sense.reverse.dualBounds
              ((m.objective.sense.dualRelation v.shape).getD .equal),
            .continuous, v.name ++ "_dual_dual", none⟩ := by
  rw [vars_transpose, dualVariables_eq m.constraints_transpose, dualRows, List.mapIdx_mapIdx]
  apply List.mapIdx_eq_mapIdx_iff.2
  intro j hj
  simp only [Function.comp_apply, String.append_assoc]
  rfl

theorem objectiveCells_transpose_transpose (m : Model Nat) :
    m.transpose.transpose.objective.cells
      = (List.range m.vars.length).map fun j => ⟨j, m.cost j⟩ := by
  rw [objectiveCells_transpose, rightSides_transpose, List.mapIdx_mapIdx, ← mapIdx_const]
  rfl

theorem HasDual.isCanonicalForm {m : Model Nat} (h : m.HasDual) :
    m.IsCanonicalForm m.transpose.transpose := by
  have hrows := h.1.2.1.ofRows_toRows
  constructor
  case name =>
    show m.name ++ "-dual" ++ "-dual" = m.name ++ "-dual-dual"
    rw [String.append_assoc]
    rfl
  case sense => exact Sense.reverse_reverse _
  case relations =>
    rw [constraints_transpose, RowStore.relations_ofRows, dualRows_transpose h.1, map_mapIdx,
      mapIdx_ignore, ← RowStore.relations_ofRows, hrows]
  case rightSides =>
    rw [rightSides_transpose_transpose h.1, List.forall₂_map_left_iff, List.forall₂_same]
    intro rightSide _
    exact Binary64.zero_add_matches rightSide
  case rowNames =>
    rw [constraints_transpose, RowStore.names_ofRows, dualRows_transpose h.1, map_mapIdx,
      mapIdx_ignore (fun row : Row Nat => row.name ++ "_dual_dual"), ← hrows,
      RowStore.names_ofRows, List.map_map, hrows]
    rfl
  case variableNames =>
    rw [vars_transpose_transpose, map_mapIdx, mapIdx_ignore]
  case shapes =>
    rw [vars_transpose_transpose, map_mapIdx, ← mapIdx_ignore]
    apply List.mapIdx_eq_mapIdx_iff.2
    intro j hj
    have hshape := h.2 m.vars[j] (List.getElem_mem hj)
    rw [Ne, ← Sense.dualRelation_eq_none_iff] at hshape
    obtain ⟨relation, hrelation⟩ := Option.ne_none_iff_exists'.1 hshape
    rw [hrelation, Option.getD_some]
    exact Sense.shape_dualBounds_of_dualRelation hrelation
  case cells => exact cells_transpose_transpose h.1
  case cells_of_sorted =>
    intro hsorted
    have hslices : m.constraints.slices.map (sortBy (·.term)) = m.constraints.slices.map id :=
      List.map_congr_left fun slice hslice => sortBy_of_orderedBy (hsorted slice hslice)
    rw [cells_transpose_transpose h.1, hslices, List.map_id,
      RowStore.flatten_slices h.1.2.1.isGrouped]
  case costs =>
    rw [objectiveCells_transpose_transpose]
    simp only [cost, List.foldl_map]

/-- A model that has a dual has a double dual, its canonical form. -/
theorem dual_dual_canonical {m d : Model Nat} (hdual : m.dual = .ok d) :
    ∃ t, d.dual = .ok t ∧ m.IsCanonicalForm t := by
  obtain ⟨hm, rfl⟩ := dual_eq_ok_iff.1 hdual
  exact ⟨m.transpose.transpose, dual_eq_ok_iff.2 ⟨hm.transpose, rfl⟩, hm.isCanonicalForm⟩

def scattered : Model Nat where
  name := "scattered"
  vars :=
    [⟨0, .free, .continuous, "a", none⟩,
      ⟨1, ⟨-.zero, .infinity⟩, .binary, "b", some .one⟩,
      ⟨2, ⟨.negativeInfinity, .zero⟩, .continuous, "c", none⟩]
  constraints :=
    .ofRows
      [⟨[(2, .one), (0, .ofInt 2), (2, .nan), (0, .ofInt 3)], .lessEqual, -.zero, "mixed"⟩,
        ⟨[], .equal, .nan, "empty"⟩,
        ⟨[(2, -.one)], .greaterEqual, .ofInt 5, "last"⟩]
  objective := ⟨.maximum, [⟨2, .one⟩, ⟨0, .ofInt 2⟩, ⟨2, .ofInt 3⟩]⟩

theorem dual_dual_canonical_scattered :
    ∃ d t, scattered.dual = .ok d ∧ d.dual = .ok t ∧ scattered.IsCanonicalForm t := by
  have hdual : scattered.dual = .ok scattered.transpose := by decide +kernel
  obtain ⟨t, ht, hform⟩ := dual_dual_canonical hdual
  exact ⟨scattered.transpose, t, hdual, ht, hform⟩

end Model

end SparseProgram
