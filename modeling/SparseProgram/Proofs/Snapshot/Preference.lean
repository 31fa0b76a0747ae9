import Mathlib.Tactic.Linarith
import SparseProgram.Proofs.Snapshot.Compile

/-!
# The preference of folded objectives

All goals become one objective. Whatever its sense, its value is the utility of the goals up to the
sign of the sense, and so it prefers the assignment of the greater utility.
-/

namespace SparseProgram

variable {τ : Type}

theorem Snapshot.effectiveSense_of_length_ne_one {s : Snapshot τ} (h : s.goals.length ≠ 1) :
    s.effectiveSense = s.sense := by
  unfold effectiveSense
  split
  · rename_i lone hgoals
    rw [hgoals] at h
    exact absurd rfl h
  · rfl

variable [Term τ] {a : Assignment}

theorem symbolicValue_append (cells more : List (SymbolicCell τ)) :
    symbolicValue a (cells ++ more) = symbolicValue a cells + symbolicValue a more := by
  simp [symbolicValue]

theorem symbolicValue_neg (cells : List (SymbolicCell τ)) :
    symbolicValue a (cells.map fun cell => { cell with coefficient := -cell.coefficient })
      = -symbolicValue a cells := by
  induction cells with
  | nil => simp [symbolicValue]
  | cons cell rest ih =>
      simp only [symbolicValue, List.map_cons, List.sum_cons, Binary64.value_neg] at ih ⊢
      rw [ih]
      ring

/-- A goal counts for an objective by its utility, whatever the two senses are. -/
theorem Goal.symbolicValue_foldedCells (sense : Sense) (goal : Goal τ) :
    symbolicValue a (goal.foldedCells sense) = -(sense.sign * goal.utility a) := by
  cases sense <;> cases hgoal : goal.sense <;>
    simp [foldedCells, utility, hgoal, symbolicValue_neg, Sense.sign]

theorem symbolicValue_flatMap_foldedCells (sense : Sense) (goals : List (Goal τ)) :
    symbolicValue a (goals.flatMap (Goal.foldedCells sense))
      = -(sense.sign * (goals.map (Goal.utility a)).sum) := by
  induction goals with
  | nil => simp [symbolicValue]
  | cons goal rest ih =>
      rw [List.flatMap_cons, symbolicValue_append, ih, Goal.symbolicValue_foldedCells,
        List.map_cons, List.sum_cons]
      ring

namespace Snapshot

variable {s : Snapshot τ} {options : CompileOptions} {m : Model τ}

theorem sense_compile (h : s.compile options = .ok m) :
    m.objective.sense = s.effectiveSense := by
  obtain ⟨registry, rows, objective, -, -, -, hobjective, rfl⟩ := compile_eq_ok_iff.1 h
  obtain ⟨tally, -, rfl⟩ := compileObjective_eq_ok_iff.1 hobjective
  rfl

theorem objectiveValue_compile (h : s.compile options = .ok m)
    (hexact : MergesExactly s.foldedCells) :
    m.objectiveValue (s.pointOf a) = -(s.effectiveSense.sign * s.utility a) := by
  obtain ⟨registry, rows, objective, hr, -, -, hobjective, rfl⟩ := compile_eq_ok_iff.1 h
  obtain ⟨tally, htally, rfl⟩ := compileObjective_eq_ok_iff.1 hobjective
  calc
    _ = tally.valueAt (s.pointOf a) := by
      simp only [Model.objectiveValue, Tally.valueAt, List.map_map]
      rfl
    _ = symbolicValue a s.foldedCells := hexact.valueAt_tallyCells hr htally
    _ = -(s.effectiveSense.sign * s.utility a) :=
      symbolicValue_flatMap_foldedCells s.effectiveSense s.goals

/-- The folded objective ranks points as the goals rank the assignments. Its sense is that of a
lone goal, and otherwise the one declared. -/
theorem prefers_iff_utility_lt (h : s.compile options = .ok m) :
    (MergesExactly s.foldedCells → ∀ a b : Assignment,
        m.Prefers (m.objectiveValue (s.pointOf a)) (m.objectiveValue (s.pointOf b))
          ↔ s.utility b < s.utility a)
      ∧ (∀ goal, s.goals = [goal] → m.objective.sense = goal.sense)
      ∧ (s.goals.length ≠ 1 → m.objective.sense = s.sense) := by
  have hsense := sense_compile h
  refine ⟨?_, ?_, ?_⟩
  · intro hexact a b
    rw [Model.prefers_iff, objectiveValue_compile h hexact, objectiveValue_compile h hexact,
      hsense]
    cases s.effectiveSense <;> simp [Sense.sign]
  · intro goal hgoals
    rw [hsense, effectiveSense, hgoals]
  · intro hlength
    rw [hsense, effectiveSense_of_length_ne_one hlength]

def opposedGoals : Snapshot Nat where
  name := "opposed"
  sense := .minimum
  tokens :=
    [⟨5, "a", .continuous, ⟨.zero, .ofInt 9⟩, none⟩,
      ⟨2, "b", .continuous, ⟨.zero, .ofInt 9⟩, none⟩]
  constraints := []
  goals :=
    [⟨[⟨.ofInt 3, 5⟩, ⟨.one, 2⟩], .maximum, "gain"⟩, ⟨[⟨.one, 5⟩], .minimum, "cost"⟩]

def opposedModel : Model Nat where
  name := "opposed"
  vars :=
    [⟨0, ⟨.zero, .ofInt 9⟩, .continuous, "a", none⟩,
      ⟨1, ⟨.zero, .ofInt 9⟩, .continuous, "b", none⟩]
  constraints := .empty
  objective := ⟨.minimum, [⟨0, -.ofInt 2⟩, ⟨1, -.one⟩]⟩

theorem prefers_iff_utility_lt_opposed :
    opposedGoals.compile .sequential = .ok opposedModel
      ∧ MergesExactly opposedGoals.foldedCells
      ∧ (∀ a b : Assignment,
          opposedModel.Prefers (opposedModel.objectiveValue (opposedGoals.pointOf a))
              (opposedModel.objectiveValue (opposedGoals.pointOf b))
            ↔ opposedGoals.utility b < opposedGoals.utility a)
      ∧ opposedModel.objective.sense = opposedGoals.sense := by
  have hcompile : opposedGoals.compile .sequential = .ok opposedModel := by decide +kernel
  have hexact : MergesExactly opposedGoals.foldedCells := by decide +kernel
  obtain ⟨hprefers, -, hdeclared⟩ := prefers_iff_utility_lt hcompile
  exact ⟨hcompile, hexact, hprefers hexact, hdeclared (by decide)⟩

end Snapshot

end SparseProgram
