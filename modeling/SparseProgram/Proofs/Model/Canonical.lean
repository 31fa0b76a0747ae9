import SparseProgram.Model.Passes
import SparseProgram.Proofs.Model.WellFormed
import SparseProgram.Proofs.Number.Comparison
import SparseProgram.Proofs.Term.Order

/-!
# Canonical models

A canonical model is built from rows that fit it: each names existing columns, every term once and
in order. Pushing a row that fits, normalizing and relaxing keep this.
-/

namespace SparseProgram

variable {τ : Type} [Term τ]

structure TermsFit (columns : Nat) (terms : List τ) : Prop where
  increasing : StrictlyIncreasing terms
  inRange : ∀ t ∈ terms, Term.InRange columns t
  sorted : ∀ t ∈ terms, Term.IsSorted t

theorem TermsFit.single {columns column : Nat} (h : column < columns) :
    TermsFit columns [(Term.linear column : τ)] where
  increasing := List.pairwise_singleton _ _
  inRange := by
    intro t ht
    rw [List.mem_singleton.1 ht]
    intro c hc
    have hcolumn : c = column := by
      simpa [Term.columnList, Term.columns_linear] using hc
    rwa [hcolumn]
  sorted := by
    intro t ht
    rw [List.mem_singleton.1 ht]
    intro second hsecond
    simp [Term.columns_linear] at hsecond

def Row.Fits (columns : Nat) (row : Row τ) : Prop :=
  TermsFit columns (row.cells.map (·.1))

omit [Term τ] in
theorem Row.terms_cellsAt (row : Row τ) (number : Nat) :
    (row.cellsAt number).map (·.term) = row.cells.map (·.1) := by
  rw [cellsAt, List.map_map]
  rfl

namespace Variable

omit [Term τ] in
theorem isOrdered_dropBounds {v : Variable} (h : v.bounds.isOrdered = true) :
    v.dropBounds.bounds.isOrdered = true := by
  rw [Bounds.isOrdered] at h
  have hlower := Binary64.negativeInfinity_atMost h
  unfold Bounds.isOrdered dropBounds
  by_cases hl : v.bounds.lowerIsPlain = true
  · by_cases hu : v.bounds.upperIsPlain = true
    · simpa [hl, hu] using h
    · simpa [hl, hu] using Binary64.atMost_infinity h
  · by_cases hu : v.bounds.upperIsPlain = true
    · simpa [hl, hu] using hlower
    · simpa [hl, hu] using Binary64.atMost_infinity hlower

theorem fits_of_mem_boundRows {v : Variable} {columns : Nat} (h : v.index < columns)
    {row : Row τ} (hrow : row ∈ v.boundRows) : row.Fits columns := by
  have hfits : TermsFit columns [(Term.linear v.index : τ)] := .single h
  rw [boundRows, List.mem_append] at hrow
  rcases hrow with hrow | hrow
  · obtain rfl : row = v.lowerRow := by
      by_cases hplain : v.bounds.lowerIsPlain = true <;> simp_all
    exact hfits
  · obtain rfl : row = v.upperRow := by
      by_cases hplain : v.bounds.upperIsPlain = true <;> simp_all
    exact hfits

end Variable

namespace Model

/-! ## Normalization -/

section Normalize

variable {m : Model τ}
  (h : ∀ position, (hposition : position < m.vars.length) → m.vars[position].index = position)

include h

theorem index_normalize :
    ∀ position, (hposition : position < m.normalize.vars.length) →
      m.normalize.vars[position].index = position := by
  intro position hposition
  have hlt : position < m.vars.length := by simpa [Model.normalize] using hposition
  simpa [Model.normalize, Variable.dropBounds] using h position hlt

theorem fits_of_mem_boundRows {row : Row τ} (hrow : row ∈ m.boundRows) :
    row.Fits m.vars.length := by
  obtain ⟨v, hv, hmem⟩ := List.mem_flatMap.1 hrow
  obtain ⟨position, hposition, rfl⟩ := List.getElem_of_mem hv
  refine Variable.fits_of_mem_boundRows ?_ hmem
  rwa [h position hposition]

end Normalize

theorem WellFormed.normalize {m : Model τ} (h : m.WellFormed) : m.normalize.WellFormed := by
  have hlength : m.normalize.vars.length = m.vars.length := List.length_map _
  have hrows := h.2.1.ofRows_toRows
  refine ⟨index_normalize h.1, ?_, ?_⟩
  · rw [hlength]
    show (m.constraints.pushAll m.boundRows).WellFormed m.vars.length
    rw [← hrows, RowStore.pushAll_ofRows, RowStore.wellFormed_ofRows_iff, List.forall_mem_append]
    constructor
    · rw [← RowStore.wellFormed_ofRows_iff, hrows]
      exact h.2.1
    · intro row hrow entry hentry
      exact (fits_of_mem_boundRows h.1 hrow).inRange _ (List.mem_map_of_mem hentry)
  · rw [hlength]
    exact h.2.2

/-! ## Canonical models -/

/-- The model has the given rows, which fit it, and so do its variables and its objective. -/
structure BuiltFrom (rows : List (Row τ)) (m : Model τ) : Prop where
  index : ∀ position, (h : position < m.vars.length) → m.vars[position].index = position
  bounds : ∀ v ∈ m.vars, v.bounds.isOrdered = true
  constraints : m.constraints = .ofRows rows
  rows : ∀ row ∈ rows, row.Fits m.vars.length
  objective : TermsFit m.vars.length (m.objective.cells.map (·.term))

namespace BuiltFrom

variable {rows : List (Row τ)} {m : Model τ}

theorem wellFormed (h : m.BuiltFrom rows) : m.WellFormed := by
  refine ⟨h.index, ?_, ?_⟩
  · rw [h.constraints]
    apply RowStore.wellFormed_ofRows_iff.2
    intro row hrow entry hentry
    exact (h.rows row hrow).inRange _ (List.mem_map_of_mem hentry)
  · intro cell hcell
    exact h.objective.inRange _ (List.mem_map_of_mem hcell)

theorem canonical (h : m.BuiltFrom rows) : m.Canonical := by
  refine ⟨firstDefect_eq_none_iff.2 h.wellFormed, ?_, h.objective.increasing, h.bounds, ?_, ?_⟩
  · intro slice hslice
    rw [h.constraints, RowStore.slices_ofRows] at hslice
    obtain ⟨i, hi, rfl⟩ := List.mem_mapIdx.1 hslice
    rw [Row.terms_cellsAt]
    exact (h.rows _ (List.getElem_mem hi)).increasing
  · intro cell hcell
    rw [h.constraints, RowStore.mem_cells_ofRows] at hcell
    obtain ⟨row, hrow, hentry⟩ := hcell
    exact (h.rows row (List.mem_of_getElem? hrow)).sorted _ (List.mem_map_of_mem hentry)
  · intro cell hcell
    exact h.objective.sorted _ (List.mem_map_of_mem hcell)

/-! ## Steps -/

theorem pushRow (h : m.BuiltFrom rows) {row : Row τ} (hrow : row.Fits m.vars.length) :
    (m.pushRow row).BuiltFrom (rows ++ [row]) where
  index := h.index
  bounds := h.bounds
  constraints := by
    rw [RowStore.ofRows_concat, ← h.constraints]
    rfl
  rows := by
    rw [List.forall_mem_append, List.forall_mem_singleton]
    exact ⟨h.rows, hrow⟩
  objective := h.objective

theorem normalize (h : m.BuiltFrom rows) : m.normalize.BuiltFrom (rows ++ m.boundRows) := by
  have hlength : m.normalize.vars.length = m.vars.length := List.length_map _
  constructor
  case index => exact index_normalize h.index
  case bounds =>
    intro v hv
    obtain ⟨old, hold, rfl⟩ := List.mem_map.1 hv
    exact Variable.isOrdered_dropBounds (h.bounds old hold)
  case constraints =>
    rw [← RowStore.pushAll_ofRows, ← h.constraints]
    rfl
  case rows =>
    rw [hlength, List.forall_mem_append]
    exact ⟨h.rows, fun row hrow => fits_of_mem_boundRows h.index hrow⟩
  case objective =>
    rw [hlength]
    exact h.objective

theorem relax (h : m.BuiltFrom rows) : m.relax.BuiltFrom rows := by
  have hlength : m.relax.vars.length = m.vars.length := List.length_map _
  constructor
  case index =>
    intro position hposition
    rw [hlength] at hposition
    simpa [Model.relax, Variable.relax] using h.index position hposition
  case bounds => exact List.forall_mem_map.2 h.bounds
  case constraints => exact h.constraints
  case rows =>
    rw [hlength]
    exact h.rows
  case objective =>
    rw [hlength]
    exact h.objective

end BuiltFrom

end Model

end SparseProgram
