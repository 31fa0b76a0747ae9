import SparseProgram.Proofs.Snapshot.Merging

/-!
# Inversion of compilation

What a successful compilation has done, part by part, and that the goals are folded by merging
their cells into one tally. The options make no difference.
-/

namespace SparseProgram

variable {τ : Type} {registry : Registry}

namespace Token

def columnVariable (index : Nat) (token : Token) : Variable :=
  ⟨index, token.bounds, token.kind, token.name, token.value⟩

theorem toVariable_eq_ok_iff {token : Token} {index : Nat} {v : Variable} :
    token.toVariable index = .ok v
      ↔ token.bounds.isOrdered = true ∧ v = token.columnVariable index := by
  unfold toVariable columnVariable
  by_cases h : token.bounds.isOrdered = true
  · simp [h, eq_comm]
  · simp [h]

end Token

theorem Snapshot.compileVariables_eq_ok_iff {s : Snapshot τ} {vars : List Variable} :
    s.compileVariables = .ok vars
      ↔ (∀ token ∈ s.tokens, token.bounds.isOrdered = true)
        ∧ vars = s.tokens.mapIdx Token.columnVariable := by
  have hstep : ∀ (entry : Token × Nat) (v : Variable),
      entry.1.toVariable entry.2 = .ok v
        ↔ entry.1.bounds.isOrdered = true ∧ v = entry.1.columnVariable entry.2 :=
    fun _ _ => Token.toVariable_eq_ok_iff
  have hordered : (∀ entry ∈ s.tokens.zipIdx, entry.1.bounds.isOrdered = true)
      ↔ ∀ token ∈ s.tokens, token.bounds.isOrdered = true := by
    conv_rhs => rw [← List.zipIdx_map_fst 0 s.tokens, List.forall_mem_map]
  rw [compileVariables, mapM_eq_ok_iff_map hstep, hordered, List.mapIdx_eq_zipIdx_map]

variable [Term τ]

theorem SymbolicConstraint.toRow_eq_ok_iff {c : SymbolicConstraint τ} {row : Row τ} :
    c.toRow registry = .ok row
      ↔ ∃ cells, tallyCells registry .one [] c.cells = .ok cells
        ∧ ⟨cells, c.relation, c.rightSide, c.name⟩ = row := by
  simp only [toRow, bind_eq_ok_iff, pure_eq_ok_iff]

/-! ## The folded objective -/

theorem Goal.tallyCells_scale (sense : Sense) (goal : Goal τ) (tally : Tally τ) :
    tallyCells registry (goal.scale sense) tally goal.cells
      = tallyCells registry .one tally (goal.foldedCells sense) := by
  unfold scale foldedCells
  by_cases h : goal.sense = sense
  · rw [if_pos h, if_pos h]
  · rw [if_neg h, if_neg h, SparseProgram.tallyCells_scale]
    simp only [Binary64.neg_one_mul]

theorem foldlM_tallyCells (sense : Sense) (goals : List (Goal τ)) (tally : Tally τ) :
    goals.foldlM (fun tally goal => tallyCells registry (goal.scale sense) tally goal.cells) tally
      = tallyCells registry .one tally (goals.flatMap (Goal.foldedCells sense)) := by
  induction goals generalizing tally with
  | nil => rfl
  | cons goal rest ih =>
      rw [List.foldlM_cons, List.flatMap_cons, tallyCells_append, Goal.tallyCells_scale]
      congr 1
      funext sum
      exact ih sum

namespace Snapshot

variable {s : Snapshot τ}

/-- The goals are folded by merging all their cells, those of the other sense negated. -/
theorem objectiveTally_eq : s.objectiveTally registry = tallyCells registry .one [] s.foldedCells :=
  foldlM_tallyCells s.effectiveSense s.goals []

theorem compileObjective_eq_ok_iff {objective : Objective τ} :
    s.compileObjective registry = .ok objective
      ↔ ∃ tally, tallyCells registry .one [] s.foldedCells = .ok tally
        ∧ ⟨s.effectiveSense, tally.map fun (term, total) => ⟨term, total⟩⟩ = objective := by
  simp only [compileObjective, objectiveTally_eq, bind_eq_ok_iff, pure_eq_ok_iff]

/-! ## The whole model -/

/-- The options make no difference. -/
theorem compile_eq_bind (options : CompileOptions) :
    s.compile options = Registry.ofTokens s.tokens >>= s.compileInTurn := by
  unfold compile
  congr 1
  funext registry
  rw [compileSideBySide_eq_compileInTurn, ite_self]

theorem compile_eq_ok_iff {options : CompileOptions} {m : Model τ} :
    s.compile options = .ok m
      ↔ ∃ registry rows objective,
        Registry.ofTokens s.tokens = .ok registry
          ∧ (∀ token ∈ s.tokens, token.bounds.isOrdered = true)
          ∧ List.Forall₂ (fun c row => c.toRow registry = .ok row) s.constraints rows
          ∧ s.compileObjective registry = .ok objective
          ∧ ⟨s.name, s.tokens.mapIdx Token.columnVariable, .ofRows rows, objective⟩ = m := by
  rw [compile_eq_bind]
  simp only [compileInTurn, compileRows, bind_eq_ok_iff, pure_eq_ok_iff,
    compileVariables_eq_ok_iff, mapM_eq_ok_iff]
  constructor
  · intro h
    rcases h with ⟨registry, hregistry, vars, hvars, rows, hrows, objective, hobjective, rfl⟩
    rcases hvars with ⟨hordered, rfl⟩
    exact ⟨registry, rows, objective, hregistry, hordered, hrows, hobjective, rfl⟩
  · intro h
    rcases h with ⟨registry, rows, objective, hregistry, hordered, hrows, hobjective, rfl⟩
    exact ⟨registry, hregistry, _, ⟨hordered, rfl⟩, rows, hrows, objective, hobjective, rfl⟩

end Snapshot

end SparseProgram
