import SparseProgram.Proofs.Snapshot.Registry
import SparseProgram.Proofs.Snapshot.Tally
import SparseProgram.Snapshot.Compile

/-!
# Merging

Adding symbolic cells to a tally one after the other keeps it sorted and, as long as no addition
rounds, adds their value at every point that stands for an assignment.
-/

namespace SparseProgram

variable {τ : Type} [Term τ] {registry : Registry} {scale : Binary64} {tally result : Tally τ}
  {cell : SymbolicCell τ} {cells rest : List (SymbolicCell τ)}

theorem tallyCells_cons_eq_ok_iff :
    tallyCells registry scale tally (cell :: rest) = .ok result
      ↔ ∃ t, registry.term cell.monomial = .ok t
        ∧ tallyCells registry scale (tally.add t (scale * cell.coefficient)) rest = .ok result := by
  rw [tallyCells, bind_eq_ok_iff]

theorem tallyCells_append (cells more : List (SymbolicCell τ)) :
    tallyCells registry scale tally (cells ++ more)
      = tallyCells registry scale tally cells >>= fun sum =>
          tallyCells registry scale sum more := by
  induction cells generalizing tally with
  | nil => rfl
  | cons cell rest ih =>
      rw [List.cons_append, tallyCells, tallyCells, bind_assoc]
      congr 1
      funext t
      exact ih

/-- A scale may be applied to the cells beforehand. -/
theorem tallyCells_scale (cells : List (SymbolicCell τ)) :
    tallyCells registry scale tally cells
      = tallyCells registry .one tally
          (cells.map fun cell => { cell with coefficient := scale * cell.coefficient }) := by
  induction cells generalizing tally with
  | nil => rfl
  | cons cell rest ih =>
      rw [List.map_cons, tallyCells, tallyCells]
      simp only [Binary64.one_mul]
      congr 1
      funext t
      exact ih

/-! ## Like cells -/

theorem likeCoefficients_of_sortedColumns {monomial other : τ}
    (h : Term.sortedColumns other = Term.sortedColumns monomial) :
    likeCoefficients other cells = likeCoefficients monomial cells := by
  simp only [likeCoefficients, h]

theorem likeCoefficients_cons_self :
    likeCoefficients cell.monomial (cell :: rest)
      = cell.coefficient :: likeCoefficients cell.monomial rest := by
  simp [likeCoefficients]

theorem likeCoefficients_cons_of_ne {monomial : τ}
    (h : Term.sortedColumns cell.monomial ≠ Term.sortedColumns monomial) :
    likeCoefficients monomial (cell :: rest) = likeCoefficients monomial rest := by
  simp [likeCoefficients, h]

/-- No addition rounds when cells are added to what a tally already holds. -/
def Tally.TakesExactly (registry : Registry) (tally : Tally τ) (cells : List (SymbolicCell τ)) :
    Prop :=
  ∀ {monomial t : τ}, registry.term monomial = .ok t →
    (tally.total t).SumsExactly (likeCoefficients monomial cells)

theorem MergesExactly.takesExactly_nil (h : MergesExactly cells) :
    Tally.TakesExactly registry [] cells := by
  intro monomial t ht
  rw [Tally.total_nil]
  by_cases halike : ∃ cell ∈ cells,
      Term.sortedColumns monomial = Term.sortedColumns cell.monomial
  · obtain ⟨cell, hcell, hsorted⟩ := halike
    rw [likeCoefficients_of_sortedColumns hsorted]
    exact h cell hcell
  · -- Nothing is added for a monomial that is like no cell.
    have hnone : likeCoefficients monomial cells = [] := by
      rw [likeCoefficients, List.map_eq_nil_iff, List.filter_eq_nil_iff]
      intro cell hcell heq
      exact halike ⟨cell, hcell, (eq_of_beq heq).symm⟩
    rw [hnone]
    trivial

/-- One cell is added without rounding and leaves the rest so. -/
theorem Tally.TakesExactly.step {t : τ} (h : tally.TakesExactly registry (cell :: rest))
    (hsorted : tally.IsSorted) (ht : registry.term cell.monomial = .ok t) :
    (tally.total t).AddsExactly cell.coefficient
      ∧ (tally.add t cell.coefficient).TakesExactly registry rest := by
  have hcell := h ht
  rw [likeCoefficients_cons_self] at hcell
  refine ⟨hcell.1, ?_⟩
  intro monomial u hu
  have halike : registry.term monomial = .ok t
      ↔ Term.sortedColumns monomial = Term.sortedColumns cell.monomial :=
    Registry.term_eq_ok_iff_of_term ht
  -- The total of the cell's own term grows; monomials unlike the cell were never owed it.
  by_cases hut : u = t
  · subst hut
    rw [Tally.total_add_self hsorted, likeCoefficients_of_sortedColumns (halike.1 hu)]
    exact hcell.2
  · have hunlike : Term.sortedColumns cell.monomial ≠ Term.sortedColumns monomial := by
      intro hsame
      have hmonomial := halike.2 hsame.symm
      rw [hu] at hmonomial
      exact hut (Except.ok.inj hmonomial)
    have hrest := h hu
    rw [likeCoefficients_cons_of_ne hunlike] at hrest
    rwa [Tally.total_add_of_ne hut]

/-- The loop of the merge: a tally gains the value of the cells that it is given. -/
theorem valueAt_tallyCells {s : Snapshot τ} {a : Assignment}
    (hr : Registry.ofTokens s.tokens = .ok registry) (hsorted : tally.IsSorted)
    (hexact : tally.TakesExactly registry cells)
    (h : tallyCells registry .one tally cells = .ok result) :
    result.valueAt (s.pointOf a) = tally.valueAt (s.pointOf a) + symbolicValue a cells := by
  induction cells generalizing tally with
  | nil =>
      obtain rfl : tally = result := Except.ok.inj h
      simp [symbolicValue]
  | cons cell rest ih =>
      obtain ⟨t, ht, hrest⟩ := tallyCells_cons_eq_ok_iff.1 h
      obtain ⟨hadd, htakes⟩ := hexact.step hsorted ht
      rw [Binary64.one_mul] at hrest
      calc
        result.valueAt (s.pointOf a)
            = (tally.add t cell.coefficient).valueAt (s.pointOf a) + symbolicValue a rest :=
          ih hsorted.add htakes hrest
        _ = tally.valueAt (s.pointOf a)
              + cell.coefficient.value * Term.valueAt a cell.monomial
              + symbolicValue a rest := by
          rw [Tally.valueAt_add hadd, Snapshot.valueAt_pointOf hr ht]
        _ = tally.valueAt (s.pointOf a) + symbolicValue a (cell :: rest) := by
          simp only [symbolicValue, List.map_cons, List.sum_cons]
          ring

theorem MergesExactly.valueAt_tallyCells {s : Snapshot τ} {a : Assignment}
    (hexact : MergesExactly cells) (hr : Registry.ofTokens s.tokens = .ok registry)
    (h : tallyCells registry .one [] cells = .ok result) :
    result.valueAt (s.pointOf a) = symbolicValue a cells := by
  rw [SparseProgram.valueAt_tallyCells hr Tally.isSorted_nil hexact.takesExactly_nil h,
    Tally.valueAt_nil, zero_add]

end SparseProgram
