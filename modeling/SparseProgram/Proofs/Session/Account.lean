import SparseProgram.Proofs.Session.Reporting
import SparseProgram.Proofs.Snapshot.Compile
import SparseProgram.Proofs.Snapshot.Totals
import SparseProgram.Session.Account

/-!
# True accounts

What is on record after a run is what was due. The counts that operations take of their results,
by subtraction or on the way, are counts of what the operations were given.
-/

namespace SparseProgram

variable {τ : Type}

/-! ## Compiling -/

theorem RowStore.length_cells_ofRows (rows : List (Row τ)) :
    (ofRows rows).cells.length = (rows.map fun row => row.cells.length).sum := by
  have hcells : (rows.mapIdx fun i row => (row.cellsAt i).length)
      = rows.map fun row => row.cells.length := by
    rw [← mapIdx_ignore]
    simp only [Row.cellsAt, List.length_map]
  rw [cells_ofRows, List.length_flatten, map_mapIdx, hcells]

theorem Snapshot.map_monomial_foldedCells (s : Snapshot τ) :
    s.foldedCells.map (·.monomial)
      = (s.goals.flatMap fun goal => goal.cells).map (·.monomial) := by
  rw [foldedCells, List.map_flatMap, List.map_flatMap]
  apply List.flatMap_congr
  intro goal _
  rw [Goal.foldedCells]
  split
  · rfl
  · rw [List.map_map]
    rfl

section Compiling

variable [Term τ] [DecidableEq τ] {registry : Registry} {cells others : List (SymbolicCell τ)}

namespace Registry

theorem mem_distinctTerms {t : τ} :
    t ∈ registry.distinctTerms cells ↔ ∃ cell ∈ cells, registry.term cell.monomial = .ok t := by
  have hterm (cell : SymbolicCell τ) : (registry.term cell.monomial).toOption = some t
      ↔ registry.term cell.monomial = .ok t := by
    cases registry.term cell.monomial <;> simp [Except.toOption]
  simp only [distinctTerms, List.mem_dedup, List.mem_filterMap, hterm]

theorem distinctTerms_congr (h : cells.map (·.monomial) = others.map (·.monomial)) :
    registry.distinctTerms cells = registry.distinctTerms others := by
  have hresolve (l : List (SymbolicCell τ)) :
      (l.filterMap fun cell => (registry.term cell.monomial).toOption)
        = (l.map (·.monomial)).filterMap fun monomial => (registry.term monomial).toOption := by
    rw [List.filterMap_map]
    rfl
  rw [distinctTerms, distinctTerms, hresolve, hresolve, h]

/-- A tally has one entry for each distinct term. -/
theorem length_distinctTerms {scale : Binary64} {tally : Tally τ}
    (h : tallyCells registry scale [] cells = .ok tally) :
    (registry.distinctTerms cells).length = tally.length := by
  have hnodup : tally.terms.Nodup := (isSorted_tallyCells Tally.isSorted_nil h).nodup_terms
  have hdistinct : (registry.distinctTerms cells).Nodup := List.nodup_dedup _
  have hperm : (registry.distinctTerms cells).Perm tally.terms := by
    rw [List.perm_ext_iff_of_nodup hdistinct hnodup]
    intro t
    rw [mem_distinctTerms, mem_terms_tallyCells_nil h]
  rw [hperm.length_eq, Tally.terms, List.length_map]

end Registry

theorem Snapshot.compiledEvents_eq {s : Snapshot τ} {options : CompileOptions} {m : Model τ}
    (h : s.compile options = .ok m) : m.compiledEvents = s.account := by
  obtain ⟨registry, rows, objective, hregistry, -, hrows, hobjective, rfl⟩ := compile_eq_ok_iff.1 h
  obtain ⟨tally, htally, rfl⟩ := compileObjective_eq_ok_iff.1 hobjective
  have hsize : (RowStore.ofRows rows).size = s.constraints.length := by
    rw [RowStore.size_ofRows, hrows.length_eq]
  have hnonzeros : (RowStore.ofRows rows).cells.length
      = (s.constraints.map fun c => (registry.distinctTerms c.cells).length).sum := by
    rw [RowStore.length_cells_ofRows]
    congr 1
    apply map_eq_map_of_forall₂ hrows
    intro c row hrow
    obtain ⟨sums, hsums, rfl⟩ := SymbolicConstraint.toRow_eq_ok_iff.1 hrow
    exact (Registry.length_distinctTerms hsums).symm
  have hobjectiveCells : tally.length
      = (registry.distinctTerms (s.goals.flatMap fun goal => goal.cells)).length := by
    rw [← Registry.length_distinctTerms htally,
      Registry.distinctTerms_congr s.map_monomial_foldedCells]
  simp only [Model.compiledEvents, account, hregistry, List.length_mapIdx, List.length_map, hsize,
    hnonzeros, hobjectiveCells]

end Compiling

/-! ## Normalizing, relaxing and dualizing -/

namespace Model

theorem size_normalize [Term τ] (m : Model τ) :
    m.normalize.constraints.size = m.constraints.size + m.movedBounds.length := by
  rw [constraints_normalize, RowStore.size_pushAll, List.length_map]

theorem normalizedEvents_eq [Term τ] (m : Model τ) :
    m.normalizedEvents = [.normalized m.name m.movedBounds.length] := by
  rw [normalizedEvents, size_normalize, Nat.add_sub_cancel_left]

/-- A normal form has no bounds left to move, since it does not grow any more. -/
theorem movedBounds_normalize [Term τ] (m : Model τ) : m.normalize.movedBounds = [] := by
  have hsize := m.normalize.size_normalize
  rw [normalize_of_isNormalized m.isNormalized_normalize] at hsize
  exact List.length_eq_zero_iff.1 (by omega)

theorem countP_isIntegral_relax (m : Model τ) :
    m.relax.vars.countP (fun v => v.kind.isIntegral) = 0 := by
  rw [List.countP_eq_zero]
  show ∀ v ∈ m.vars.map Variable.relax, ¬v.kind.isIntegral = true
  rw [List.forall_mem_map]
  intro v _
  rw [Variable.relax, v.kind.isIntegral_relaxed]
  exact Bool.false_ne_true

theorem containsIntegral_iff {m : Model τ} :
    m.containsIntegral = true ↔ ∃ v ∈ m.vars, v.kind.isIntegral = true := by
  rw [containsIntegral, List.any_eq_true]

theorem dualEvents_eq {m d : Model Nat} (h : m.dual = .ok d) :
    m.dualEvents d
      = (if ∃ v ∈ m.vars, v.kind.isIntegral = true then [.integralityIgnored m.name] else [])
        ++ [.dualBuilt m.name m.constraints.size m.vars.length] := by
  obtain ⟨-, rfl⟩ := dual_eq_ok_iff.1 h
  have hrows : m.transpose.constraints.size = m.vars.length := by
    rw [constraints_transpose, RowStore.size_ofRows, dualRows, List.length_mapIdx]
  simp only [dualEvents, hrows, containsIntegral_iff]

end Model

/-! ## Levels -/

theorem Operation.map_level_due [Term τ] [DecidableEq τ] (m : Model τ) (operation : Operation τ) :
    (operation.due m).map Event.level = operation.levels := by
  cases operation with
  | compile options snapshot =>
      cases h : snapshot.compile options with
      | ok n =>
          simp only [due, levels, h, ← Snapshot.compiledEvents_eq h]
          rfl
      | error e =>
          simp only [due, levels, h]
          rfl
  | normalize => rfl
  | relax => rfl
  | pushRow row => rfl

theorem LinearOperation.map_level_due (m : Model Nat) (operation : LinearOperation) :
    (operation.due m).map Event.level = operation.levels m := by
  cases operation with
  | plain operation => exact operation.map_level_due m
  | dual =>
      cases h : m.dual with
      | ok d =>
          simp only [due, levels, h, ← Model.containsIntegral_iff]
          rw [← Model.containsIntegral]
          cases m.containsIntegral <;> rfl
      | error e =>
          simp only [due, levels, h]
          rfl

/-! ## Steps and runs -/

namespace Session

theorem events_perform [Term τ] [DecidableEq τ] (s : Session τ) (operation : Operation τ) :
    (s.perform operation).events = s.events ++ operation.due s.model := by
  cases operation with
  | compile options snapshot =>
      cases h : snapshot.compile options with
      | ok m =>
          rw [perform_compile_of_ok h, Snapshot.compiledEvents_eq h]
          simp only [Operation.due, h]
      | error e =>
          rw [perform_compile_of_error h]
          simp only [Operation.due, h, List.append_nil]
  | normalize => exact congrArg _ s.model.normalizedEvents_eq
  | relax => rfl
  | pushRow row => exact (List.append_nil _).symm

theorem events_performLinear (s : Session Nat) (operation : LinearOperation) :
    (s.performLinear operation).events = s.events ++ operation.due s.model := by
  cases operation with
  | plain operation => exact s.events_perform operation
  | dual =>
      cases h : s.model.dual with
      | ok d =>
          rw [performLinear_dual_of_ok h, advance, Model.dualEvents_eq h]
          simp only [LinearOperation.due, h]
          split <;> rfl
      | error e =>
          rw [performLinear_dual_of_error h]
          simp only [LinearOperation.due, h, List.append_nil]

/-- If every operation has what is due on record, so has every run. -/
theorem events_play {ω : Type} {perform : Session τ → ω → Session τ}
    {due : Model τ → ω → List Event}
    (hstep : ∀ s operation, (perform s operation).events = s.events ++ due s.model operation)
    (s : Session τ) (actions : List (Action τ ω)) :
    (s.play perform actions).events = s.events ++ dueOver perform due s actions := by
  induction actions generalizing s with
  | nil => exact (List.append_nil _).symm
  | cons action rest ih =>
      cases action with
      | call operation =>
          calc ((perform s operation).play perform rest).events
              = (perform s operation).events
                  ++ dueOver perform due (perform s operation) rest := ih _
            _ = s.events ++ (due s.model operation
                  ++ dueOver perform due (perform s operation) rest) := by
                rw [hstep, List.append_assoc]
      | edit change => exact ih (s.editModel change)

/-- After every run of operations on models of either kind, with any changes of the current model
in between, the events on record are those that were due, one operation after the other: none for
one that fails, and one for one that succeeds, after a warning where a dual loses integrality. -/
theorem reported_exactly :
    (∀ {τ : Type} [Term τ] [DecidableEq τ] (s : Session τ) (actions : List (Action τ (Operation τ))),
        s.play performReporting actions = s.play perform actions
          ∧ (s.play performReporting actions).events
            = s.events ++ dueOver perform Operation.due s actions)
      ∧ (∀ (s : Session Nat) (actions : List (Action Nat LinearOperation)),
        s.play performLinearReporting actions = s.play performLinear actions
          ∧ (s.play performLinearReporting actions).events
            = s.events ++ dueOver performLinear LinearOperation.due s actions)
      ∧ (∀ {τ : Type} [Term τ] [DecidableEq τ] (m : Model τ) (operation : Operation τ),
        (operation.due m).map Event.level = operation.levels)
      ∧ (∀ (m : Model Nat) (operation : LinearOperation),
        (operation.due m).map Event.level = operation.levels m)
      ∧ ∀ {τ : Type} [Term τ] (m : Model τ),
        m.normalize.constraints.size = m.constraints.size + m.movedBounds.length
          ∧ m.normalize.movedBounds = []
          ∧ m.relax.vars.countP (fun v => v.kind.isIntegral) = 0 := by
  refine ⟨?_, ?_, ?_, ?_, ?_⟩
  · intro τ _ _ s actions
    have hsame : (performReporting : Session τ → Operation τ → Session τ) = perform :=
      funext fun s => funext s.performReporting_eq
    rw [hsame]
    exact ⟨rfl, events_play events_perform s actions⟩
  · intro s actions
    have hsame : performLinearReporting = performLinear :=
      funext fun s => funext s.performLinearReporting_eq
    rw [hsame]
    exact ⟨rfl, events_play events_performLinear s actions⟩
  · intro τ _ _ m operation
    exact operation.map_level_due m
  · intro m operation
    exact operation.map_level_due m
  · intro τ _ m
    exact ⟨m.size_normalize, m.movedBounds_normalize, m.countP_isIntegral_relax⟩

example :
    (({ initial with
        model := ⟨"m", [⟨0, ⟨.one, .infinity⟩, .binary, "x", none⟩], .empty, ⟨.minimum, []⟩⟩ } :
        Session Nat).play performLinearReporting
          [.call .dual, .call (.plain .normalize), .call .dual]).events
      = [.normalized "m" 1, .integralityIgnored "m", .dualBuilt "m" 1 1] := by
  decide +kernel

end Session

end SparseProgram
