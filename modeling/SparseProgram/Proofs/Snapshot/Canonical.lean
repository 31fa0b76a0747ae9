import SparseProgram.Proofs.Model.Canonical
import SparseProgram.Proofs.Snapshot.Compile
import SparseProgram.Proofs.Snapshot.Totals

/-!
# Compiled models are canonical

Terms are resolved to registered columns and merged into tallies, so every row and the objective
name existing columns, each term once and in order.
-/

namespace SparseProgram

variable {τ : Type} [Term τ] {registry : Registry}

namespace Registry

theorem column_lt {handle column : Nat} (h : registry.column handle = .ok column) :
    column < registry.size :=
  (List.getElem?_eq_some_iff.1 (column_eq_ok_iff.1 h)).1

theorem term_fits {monomial t : τ} (h : registry.term monomial = .ok t) :
    Term.InRange registry.size t ∧ Term.IsSorted t := by
  rw [term_eq_ok_iff] at h
  unfold Term.InRange Term.IsSorted Term.columnList
  match hcolumns : Term.columns monomial with
  | (a, none) =>
      rw [hcolumns] at h
      obtain ⟨c, hc, hresult⟩ := replacePair_single_eq_ok_iff.1 h
      simp [← hresult, column_lt hc]
  | (a, some b) =>
      rw [hcolumns] at h
      obtain ⟨c, d, hc, hd, hresult⟩ := replacePair_product_eq_ok_iff.1 h
      have hclt := column_lt hc
      have hdlt := column_lt hd
      rw [← hresult]
      constructor
      · intro column hcolumn
        have heither : column = min c d ∨ column = max c d := by
          simpa [sortedPair] using hcolumn
        omega
      · intro second hsecond
        obtain rfl : max c d = second := by simpa [sortedPair] using hsecond
        exact Nat.le_trans (Nat.min_le_left c d) (Nat.le_max_left c d)

end Registry

theorem termsFit_tallyCells {scale : Binary64} {cells : List (SymbolicCell τ)} {result : Tally τ}
    (h : tallyCells registry scale [] cells = .ok result) :
    TermsFit registry.size result.terms := by
  have hfits : ∀ t ∈ result.terms, Term.InRange registry.size t ∧ Term.IsSorted t := by
    intro t ht
    obtain ⟨cell, -, hcell⟩ := (mem_terms_tallyCells_nil h).1 ht
    exact Registry.term_fits hcell
  exact ⟨isSorted_tallyCells Tally.isSorted_nil h, fun t ht => (hfits t ht).1,
    fun t ht => (hfits t ht).2⟩

theorem SymbolicConstraint.fits_row {c : SymbolicConstraint τ} {row : Row τ}
    (h : c.toRow registry = .ok row) : row.Fits registry.size := by
  obtain ⟨cells, hcells, rfl⟩ := toRow_eq_ok_iff.1 h
  exact termsFit_tallyCells hcells

namespace Snapshot

variable {s : Snapshot τ}

theorem termsFit_objective {objective : Objective τ}
    (h : s.compileObjective registry = .ok objective) :
    TermsFit registry.size (objective.cells.map (·.term)) := by
  obtain ⟨tally, htally, rfl⟩ := compileObjective_eq_ok_iff.1 h
  have hterms := termsFit_tallyCells htally
  rw [List.map_map]
  exact hterms

theorem builtFrom_compile {options : CompileOptions} {m : Model τ}
    (h : s.compile options = .ok m) : ∃ rows, m.BuiltFrom rows := by
  obtain ⟨registry, rows, objective, hr, hordered, hrows, hobjective, rfl⟩ := compile_eq_ok_iff.1 h
  have hsize : registry.size = (s.tokens.mapIdx Token.columnVariable).length := by
    rw [Registry.size, Registry.ofTokens_eq_ok_iff.1 hr, List.length_map, List.length_mapIdx]
  refine ⟨rows, ?_, ?_, rfl, ?_, ?_⟩
  · intro position hposition
    simp [Token.columnVariable]
  · intro v hv
    obtain ⟨i, hi, rfl⟩ := List.mem_mapIdx.1 hv
    exact hordered _ (List.getElem_mem hi)
  · rw [← hsize]
    exact forall_of_forall₂ hrows fun _ _ => SymbolicConstraint.fits_row
  · rw [← hsize]
    exact termsFit_objective hobjective

end Snapshot

end SparseProgram
