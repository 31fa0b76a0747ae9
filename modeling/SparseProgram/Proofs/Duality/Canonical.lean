import SparseProgram.Proofs.Duality.Double
import SparseProgram.Proofs.Model.Canonical

/-!
# Duals of canonical models

Where no row repeats a term, no column repeats a row: the dual of a canonical model is canonical.
Whatever the model, its dual is normalized, continuous and has a dual again.
-/

namespace SparseProgram

namespace Term

theorem before_column_iff {a b : Nat} : before a b = true ↔ a < b := by
  rw [before_iff, compare_eq_lt_iff]
  simp [columns, secondRank]

theorem isSorted_column (a : Nat) : IsSorted a := by
  intro second hsecond
  cases hsecond

end Term

/-! ## The order of cells -/

section Order

variable {τ : Type} [Term τ]

def Cell.Before (a b : Cell τ) : Prop :=
  a.row < b.row ∨ a.row = b.row ∧ Term.before a.term b.term = true

theorem Row.pairwise_cellsAt {row : Row τ} (h : StrictlyIncreasing (row.cells.map (·.1)))
    (number : Nat) : (row.cellsAt number).Pairwise Cell.Before := by
  rw [← row.terms_cellsAt number, StrictlyIncreasing, List.pairwise_map] at h
  apply h.imp_of_mem
  intro a b ha hb hbefore
  rw [Cell.Before, Row.row_of_mem_cellsAt ha, Row.row_of_mem_cellsAt hb]
  exact .inr ⟨rfl, hbefore⟩

theorem RowStore.pairwise_cells_ofRows {rows : List (Row τ)}
    (h : ∀ row ∈ rows, StrictlyIncreasing (row.cells.map (·.1))) :
    (ofRows rows).cells.Pairwise Cell.Before := by
  induction rows using List.reverseRecOn with
  | nil => exact .nil
  | append_singleton rows row ih =>
      rw [List.forall_mem_append, List.forall_mem_singleton] at h
      rw [ofRows_concat, cells_push]
      refine List.pairwise_append.2 ⟨ih h.1, Row.pairwise_cellsAt h.2 _, ?_⟩
      intro a ha b hb
      rw [Cell.Before, Row.row_of_mem_cellsAt hb]
      exact .inl ((isGrouped_ofRows rows).2 a ha)

end Order

namespace Sense

theorem isOrdered_dualBounds (sense : Sense) (relation : Relation) :
    (sense.dualBounds relation).isOrdered = true := by
  cases sense <;> cases relation <;> decide +kernel

theorem isPlain_dualBounds (sense : Sense) (relation : Relation) :
    (sense.dualBounds relation).isPlain = true := by
  cases sense <;> cases relation <;> decide +kernel

end Sense

namespace Model

variable {m d : Model Nat} {rows : List (Row Nat)}

theorem mem_dualVariables {v : Variable} (hv : v ∈ m.dualVariables) :
    (∃ relation, v.bounds = m.objective.sense.dualBounds relation) ∧ v.kind = .continuous := by
  obtain ⟨i, hi, rfl⟩ := List.mem_mapIdx.1 hv
  exact ⟨⟨_, rfl⟩, rfl⟩

theorem BuiltFrom.pairwise_column (h : m.BuiltFrom rows) (j : Nat) :
    ((m.column j).map (·.1)).Pairwise (· < ·) := by
  have hcells : m.constraints.cells.Pairwise Cell.Before := by
    rw [h.constraints]
    exact RowStore.pairwise_cells_ofRows fun row hrow => (h.rows row hrow).increasing
  rw [column, List.map_map, List.pairwise_map]
  apply (hcells.filter _).imp_of_mem
  intro a b ha hb hbefore
  -- Two cells of one column do not differ in their terms, so they differ in their rows.
  have hterm : a.term = b.term := (key_of_mem_bucket ha).trans (key_of_mem_bucket hb).symm
  rcases hbefore with hrow | ⟨-, hbefore⟩
  · exact hrow
  · exact absurd hterm (Term.ne_of_before hbefore)

theorem BuiltFrom.transpose (h : m.BuiltFrom rows) : m.transpose.BuiltFrom m.dualRows := by
  have hwell := h.wellFormed.transpose
  constructor
  case index => exact hwell.1
  case bounds =>
    intro v hv
    obtain ⟨⟨relation, hbounds⟩, -⟩ := mem_dualVariables hv
    rw [hbounds]
    exact Sense.isOrdered_dualBounds _ _
  case constraints => rfl
  case rows =>
    have hrange := RowStore.wellFormed_ofRows_iff.1 hwell.2.1
    intro row hrow
    refine ⟨?_, List.forall_mem_map.2 (hrange row hrow), fun t _ => Term.isSorted_column t⟩
    obtain ⟨j, hj, rfl⟩ := List.mem_mapIdx.1 hrow
    exact (h.pairwise_column j).imp Term.before_column_iff.2
  case objective =>
    refine ⟨?_, List.forall_mem_map.2 hwell.2.2, fun t _ => Term.isSorted_column t⟩
    have hterms : m.transpose.objective.cells.map (·.term)
        = List.range m.constraints.rightSides.length := by
      rw [objectiveCells_transpose, map_mapIdx, mapIdx_const (fun i => i), List.map_id']
    rw [hterms]
    exact List.pairwise_lt_range.imp Term.before_column_iff.2

/-- Every dual is normalized and continuous and has a dual, canonical or not. -/
theorem dual_of_dual (h : m.dual = .ok d) :
    d.isNormalized = true ∧ (∀ v ∈ d.vars, v.kind = .continuous) ∧ ∃ t, d.dual = .ok t := by
  obtain ⟨hdual, rfl⟩ := dual_eq_ok_iff.1 h
  refine ⟨?_, fun v hv => (mem_dualVariables hv).2, _, dual_eq_ok_iff.2 ⟨hdual.transpose, rfl⟩⟩
  apply List.all_eq_true.2
  intro v hv
  obtain ⟨⟨relation, hbounds⟩, -⟩ := mem_dualVariables hv
  rw [hbounds]
  exact Sense.isPlain_dualBounds _ _

end Model

end SparseProgram
