import SparseProgram.First
import SparseProgram.Proofs.RowStore.Pushed
import SparseProgram.Proofs.Snapshot.Compile
import SparseProgram.Proofs.Snapshot.TermMap

/-!
# Accumulation, term by term

Merging cells adds to every total the amounts of its own term, one after the other, or fails as the
first cell that has no term. Rows start from nothing; the objective is one such sum over the cells of
all goals.
-/

namespace SparseProgram

variable {τ : Type} [Term τ]

/-- A tally after amounts were added to the totals of another one: it lists in their order the terms
that were there and those that have amounts, each once and with its own amounts added in turn. -/
structure Tally.Gains (start : Tally τ) (amounts : τ → List Binary64) (result : Tally τ) : Prop where
  sorted : result.IsSorted
  entries : ∀ t sum, (t, sum) ∈ result
    ↔ (t ∈ start.terms ∨ amounts t ≠ []) ∧ (amounts t).foldl (· + ·) (start.total t) = sum

variable {registry : Registry} {scale : Binary64} {tally result : Tally τ}
  {cells : List (SymbolicCell τ)}

/-! ## Success and failure -/

theorem exists_tallyCells (scale : Binary64) (tally : Tally τ)
    (h : ∀ cell ∈ cells, registry.HasTerm cell) :
    ∃ result, tallyCells registry scale tally cells = .ok result := by
  induction cells generalizing tally with
  | nil => exact ⟨tally, rfl⟩
  | cons cell rest ih =>
      obtain ⟨⟨t, ht⟩, hrest⟩ := List.forall_mem_cons.1 h
      obtain ⟨result, hresult⟩ := ih (tally.add t (scale * cell.coefficient)) hrest
      exact ⟨result, tallyCells_cons_eq_ok_iff.2 ⟨t, ht, hresult⟩⟩

/-- What the cells in front have added up to is given up. -/
theorem tallyCells_eq_error_of_isFirst (scale : Binary64) (tally : Tally τ)
    {cell : SymbolicCell τ} {error : CompileError}
    (hfirst : IsFirst (fun cell => ¬registry.HasTerm cell) cells cell)
    (herror : registry.term cell.monomial = .error error) :
    tallyCells registry scale tally cells = .error error := by
  obtain ⟨before, after, rfl, -, hbefore⟩ := hfirst
  simp only [not_not] at hbefore
  obtain ⟨sum, hsum⟩ := exists_tallyCells scale tally hbefore
  rw [tallyCells_append, hsum]
  exact bind_eq_error herror _

theorem tallyCells_eq_error_iff {error : CompileError} :
    tallyCells registry scale tally cells = .error error
      ↔ ∃ cell, IsFirst (fun cell => ¬registry.HasTerm cell) cells cell
        ∧ registry.term cell.monomial = .error error := by
  constructor
  · intro h
    rcases forall_or_exists_isFirst (fun cell => ¬registry.HasTerm cell) cells with
      hall | ⟨cell, hfirst⟩
    · simp only [not_not] at hall
      obtain ⟨result, hresult⟩ := exists_tallyCells scale tally hall
      rw [h] at hresult
      cases hresult
    · cases hterm : registry.term cell.monomial with
      | ok t => exact absurd ⟨t, hterm⟩ hfirst.holds
      | error e =>
          have he := tallyCells_eq_error_of_isFirst scale tally hfirst hterm
          obtain rfl : error = e := Except.error.inj (h.symm.trans he)
          exact ⟨cell, hfirst, hterm⟩
  · rintro ⟨cell, hfirst, hterm⟩
    exact tallyCells_eq_error_of_isFirst scale tally hfirst hterm

/-! ## What is gained -/

variable [DecidableEq τ]

theorem gains_tallyCells (hsorted : tally.IsSorted)
    (h : tallyCells registry scale tally cells = .ok result) :
    tally.Gains (registry.amounts scale cells) result := by
  have hresult := isSorted_tallyCells hsorted h
  refine ⟨hresult, ?_⟩
  intro t sum
  rw [hresult.mem_iff, mem_terms_tallyCells h, Registry.amounts_ne_nil_iff,
    total_tallyCells_eq_foldl_amounts hsorted h]

theorem SymbolicConstraint.gains_row {c : SymbolicConstraint τ} {row : Row τ}
    (h : c.toRow registry = .ok row) :
    Tally.Gains [] (registry.amounts .one c.cells) row.cells := by
  obtain ⟨sums, hsums, rfl⟩ := toRow_eq_ok_iff.1 h
  exact gains_tallyCells Tally.isSorted_nil hsums

theorem Goal.amounts_foldedCells (sense : Sense) (goal : Goal τ) (t : τ) :
    registry.amounts .one (goal.foldedCells sense) t
      = registry.amounts (goal.scale sense) goal.cells t := by
  unfold scale foldedCells
  by_cases h : goal.sense = sense
  · rw [if_pos h, if_pos h]
  · simp only [if_neg h, Registry.amounts, List.filter_map, List.map_map, Function.comp_def,
      Binary64.one_mul, Binary64.neg_one_mul]

namespace Snapshot

variable {s : Snapshot τ}

theorem amounts_foldedCells (t : τ) :
    registry.amounts .one s.foldedCells t = s.objectiveAmounts registry t := by
  have hgoals : registry.amounts .one s.foldedCells t
      = s.goals.flatMap fun goal =>
          registry.amounts .one (goal.foldedCells s.effectiveSense) t := by
    simp only [Registry.amounts, foldedCells, List.filter_flatMap, List.map_flatMap]
  simp only [hgoals, Goal.amounts_foldedCells, objectiveAmounts]

theorem gains_objective {objective : Objective τ}
    (h : s.compileObjective registry = .ok objective) :
    Tally.Gains [] (s.objectiveAmounts registry)
      (objective.cells.map fun cell => (cell.term, cell.coefficient)) := by
  obtain ⟨sums, hsums, rfl⟩ := compileObjective_eq_ok_iff.1 h
  have hgains := gains_tallyCells Tally.isSorted_nil hsums
  rw [funext s.amounts_foldedCells] at hgains
  -- The cells of the objective are the entries of the tally.
  have hcells : (sums.map fun entry => (entry.1, entry.2)) = sums := List.map_id sums
  rw [List.map_map]
  show Tally.Gains [] _ (sums.map fun entry => (entry.1, entry.2))
  rwa [hcells]

theorem gains_compile {options : CompileOptions} {m : Model τ} (h : s.compile options = .ok m) :
    ∃ registry, Registry.ofTokens s.tokens = .ok registry
      ∧ List.Forall₂ (fun c slice => Tally.Gains [] (registry.amounts .one c.cells)
          (slice.map fun cell => (cell.term, cell.coefficient)))
        s.constraints m.constraints.slices
      ∧ Tally.Gains [] (s.objectiveAmounts registry)
          (m.objective.cells.map fun cell => (cell.term, cell.coefficient)) := by
  obtain ⟨registry, rows, objective, hr, -, hrows, hobjective, rfl⟩ := compile_eq_ok_iff.1 h
  refine ⟨registry, hr, ?_, gains_objective hobjective⟩
  rw [RowStore.slices_ofRows]
  apply forall₂_mapIdx_of_forall₂ hrows
  intro i c row hrow
  rw [RowStore.entries_cellsAt]
  exact SymbolicConstraint.gains_row hrow

end Snapshot

/-- Merging is one fold from the left for each term. Onto any tally in order, cells that all have
terms add just these terms, and the total of each takes what its own cells amount to, in their order;
otherwise the first cell without a term is what fails. A search tree filled with the cells holds the
same. So a compiled row lists the terms of its constraint, each once and in order, whatever the totals
come to, and the objective is the same fold over the cells of all goals with their scales. -/
theorem tallyCells_exact :
    (∀ (registry : Registry) (scale : Binary64) (tally : Tally τ) (cells : List (SymbolicCell τ)),
        tally.IsSorted →
          ((∀ cell ∈ cells, registry.HasTerm cell) →
              ∃ result, tallyCells registry scale tally cells = .ok result
                ∧ tally.Gains (registry.amounts scale cells) result)
            ∧ ∀ error, tallyCells registry scale tally cells = .error error
                ↔ ∃ cell, IsFirst (fun cell => ¬registry.HasTerm cell) cells cell
                  ∧ registry.term cell.monomial = .error error)
      ∧ (∀ (registry : Registry) (scale : Binary64) (map : TermMap τ Binary64)
          (cells : List (SymbolicCell τ)),
          (map.addCells registry scale cells).map (·.toList)
            = tallyCells registry scale map.toList cells)
      ∧ ∀ (s : Snapshot τ) (options : CompileOptions) (m : Model τ), s.compile options = .ok m →
          ∃ registry, Registry.ofTokens s.tokens = .ok registry
            ∧ List.Forall₂ (fun c slice => Tally.Gains [] (registry.amounts .one c.cells)
                (slice.map fun cell => (cell.term, cell.coefficient)))
              s.constraints m.constraints.slices
            ∧ Tally.Gains [] (s.objectiveAmounts registry)
                (m.objective.cells.map fun cell => (cell.term, cell.coefficient)) := by
  refine ⟨?_, TermMap.toList_addCells, fun s options m h => Snapshot.gains_compile h⟩
  intro registry scale tally cells hsorted
  refine ⟨?_, fun error => tallyCells_eq_error_iff⟩
  intro hterms
  obtain ⟨result, hresult⟩ := exists_tallyCells scale tally hterms
  exact ⟨result, hresult, gains_tallyCells hsorted hresult⟩

def granary : Snapshot QuadraticTerm where
  name := "granary"
  sense := .minimum
  tokens :=
    [⟨8, "in", .continuous, ⟨.zero, .infinity⟩, none⟩, ⟨3, "out", .continuous, .free, none⟩]
  constraints :=
    [⟨[⟨.ofInt 2, .linear 8⟩, ⟨.one, .product 3 8⟩, ⟨-.ofInt 2, .linear 8⟩, ⟨.one, .product 8 3⟩],
      .lessEqual, .one, "level"⟩]
  goals :=
    [⟨[⟨.one, .linear 3⟩], .minimum, "cost"⟩,
      ⟨[⟨.ofInt 4, .linear 8⟩, ⟨.ofInt 2, .linear 3⟩], .maximum, "yield"⟩]

def granaryModel : Model QuadraticTerm where
  name := "granary"
  vars :=
    [⟨0, ⟨.zero, .infinity⟩, .continuous, "in", none⟩, ⟨1, .free, .continuous, "out", none⟩]
  constraints :=
    .ofRows [⟨[(.linear 0, .zero), (.product 0 1, .ofInt 2)], .lessEqual, .one, "level"⟩]
  objective := ⟨.minimum, [⟨.linear 0, -.ofInt 4⟩, ⟨.linear 1, -.one⟩]⟩

theorem tallyCells_exact_granary :
    ∃ registry, Registry.ofTokens granary.tokens = .ok registry
      ∧ registry.amounts .one (granary.constraints.flatMap (·.cells)) (.linear 0)
        = [.ofInt 2, -.ofInt 2]
      ∧ (∃ result,
        tallyCells registry (-.one) [(QuadraticTerm.linear 1, .one)] [⟨.one, .linear 3⟩]
            = .ok result
          ∧ Tally.Gains [(.linear 1, .one)] (registry.amounts (-.one) [⟨.one, .linear 3⟩]) result)
      ∧ tallyCells registry .one [] [⟨.one, QuadraticTerm.linear 8⟩, ⟨.one, .product 3 5⟩,
          ⟨.one, .linear 6⟩] = .error (.unresolvedToken 5)
      ∧ granary.compile .default = .ok granaryModel
      ∧ Tally.Gains [] (granary.objectiveAmounts registry)
          [(.linear 0, -.ofInt 4), (.linear 1, -.one)] := by
  obtain ⟨hmerge, -, hcompile⟩ := @tallyCells_exact QuadraticTerm _ _
  have hgranary : granary.compile .default = .ok granaryModel := by decide +kernel
  obtain ⟨registry, hregistry, -, hobjective⟩ := hcompile granary .default granaryModel hgranary
  have hhandles : registry = ⟨[8, 3], by decide⟩ := by
    have hlist := Registry.ofTokens_eq_ok_iff.1 hregistry
    cases registry
    cases hlist
    rfl
  refine ⟨registry, hregistry, ?_, ?_, ?_, hgranary, hobjective⟩
  · subst hhandles
    decide +kernel
  · subst hhandles
    have hsorted : Tally.IsSorted [(QuadraticTerm.linear 1, .one)] := List.pairwise_singleton _ _
    apply (hmerge _ _ _ _ hsorted).1
    simp only [List.forall_mem_singleton]
    exact ⟨.linear 1, rfl⟩
  · subst hhandles
    apply ((hmerge _ _ _ _ Tally.isSorted_nil).2 _).2
    refine ⟨⟨.one, .product 3 5⟩, ⟨[⟨.one, .linear 8⟩], [⟨.one, .linear 6⟩], rfl, ?_, ?_⟩, rfl⟩
    · rintro ⟨t, ht⟩
      cases ht
    · simp only [List.forall_mem_singleton, not_not]
      exact ⟨.linear 0, rfl⟩

end SparseProgram
