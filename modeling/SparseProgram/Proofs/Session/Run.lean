import SparseProgram.Proofs.Duality.Canonical
import SparseProgram.Proofs.Snapshot.Canonical
import SparseProgram.Session.Run

/-!
# Runs of canonical models

Compiled models are canonical, and no operation of a run changes this as long as the rows that are
pushed fit the models that they meet.
-/

namespace SparseProgram

variable {τ : Type} [Term τ]

namespace Operation

/-- A row that is to be pushed fits the model that it meets. -/
def Suits (m : Model τ) : Operation τ → Prop
  | .pushRow row => row.Fits m.vars.length
  | .compile _ _ | .normalize | .relax => True

end Operation

namespace LinearOperation

def Suits (m : Model Nat) : LinearOperation → Prop
  | .plain operation => operation.Suits m
  | .dual => True

end LinearOperation

namespace Session

def RunSuits : Session τ → List (Operation τ) → Prop
  | _, [] => True
  | s, operation :: rest => operation.Suits s.model ∧ RunSuits (s.perform operation) rest

def LinearRunSuits : Session Nat → List LinearOperation → Prop
  | _, [] => True
  | s, operation :: rest =>
      operation.Suits s.model ∧ LinearRunSuits (s.performLinear operation) rest

def IsBuilt (s : Session τ) : Prop :=
  ∃ rows, s.model.BuiltFrom rows

/-! ## Steps -/

theorem IsBuilt.perform {s : Session τ} (h : s.IsBuilt) {operation : Operation τ}
    (hsuits : operation.Suits s.model) : (s.perform operation).IsBuilt := by
  obtain ⟨rows, hrows⟩ := h
  cases operation with
  | compile options snapshot =>
      rw [Session.perform]
      split
      · rename_i next hnext
        obtain ⟨m, hm, hadvance⟩ := bind_eq_ok_iff.1 hnext
        rw [← pure_eq_ok_iff.1 hadvance]
        exact Snapshot.builtFrom_compile hm
      · exact ⟨rows, hrows⟩
  | normalize => exact ⟨_, hrows.normalize⟩
  | relax => exact ⟨_, hrows.relax⟩
  | pushRow row => exact ⟨_, hrows.pushRow hsuits⟩

theorem IsBuilt.performLinear {s : Session Nat} (h : s.IsBuilt) {operation : LinearOperation}
    (hsuits : operation.Suits s.model) : (s.performLinear operation).IsBuilt := by
  cases operation with
  | plain operation => exact h.perform hsuits
  | dual =>
      rw [Session.performLinear]
      split
      · rename_i next hnext
        obtain ⟨d, hd, hadvance⟩ := bind_eq_ok_iff.1 hnext
        rw [← pure_eq_ok_iff.1 hadvance]
        obtain ⟨-, rfl⟩ := Model.dual_eq_ok_iff.1 hd
        obtain ⟨rows, hrows⟩ := h
        exact ⟨_, hrows.transpose⟩
      · exact h

/-! ## Runs -/

theorem IsBuilt.run {s : Session τ} {operations : List (Operation τ)} (h : s.IsBuilt)
    (hsuits : s.RunSuits operations) : (s.run operations).IsBuilt := by
  induction operations generalizing s with
  | nil => exact h
  | cons operation rest ih => exact ih (h.perform hsuits.1) hsuits.2

theorem IsBuilt.runLinear {s : Session Nat} {operations : List LinearOperation} (h : s.IsBuilt)
    (hsuits : s.LinearRunSuits operations) : (s.runLinear operations).IsBuilt := by
  induction operations generalizing s with
  | nil => exact h
  | cons operation rest ih => exact ih (h.performLinear hsuits.1) hsuits.2

/-- From a compiled model on, every run leads to a canonical model. Duals on the way are also
normalized and continuous, and have duals again. -/
theorem canonical_run :
    (∀ {τ : Type} [Term τ] {snapshot : Snapshot τ} {options : CompileOptions} {s : Session τ}
        {operations : List (Operation τ)},
        snapshot.compile options = .ok s.model → s.RunSuits operations →
          (s.run operations).model.Canonical)
      ∧ ∀ {snapshot : Snapshot Nat} {options : CompileOptions} {s : Session Nat}
        {operations : List LinearOperation},
        snapshot.compile options = .ok s.model → s.LinearRunSuits operations →
          (s.runLinear operations).model.Canonical
            ∧ ∀ d, (s.runLinear operations).model.dual = .ok d →
              d.Canonical ∧ d.isNormalized = true ∧ (∀ v ∈ d.vars, v.kind = .continuous)
                ∧ ∃ t, d.dual = .ok t := by
  constructor
  · intro τ _ snapshot options s operations hcompile hsuits
    have hbuilt : s.IsBuilt := Snapshot.builtFrom_compile hcompile
    obtain ⟨rows, hrows⟩ := hbuilt.run hsuits
    exact hrows.canonical
  · intro snapshot options s operations hcompile hsuits
    have hbuilt : s.IsBuilt := Snapshot.builtFrom_compile hcompile
    obtain ⟨rows, hrows⟩ := hbuilt.runLinear hsuits
    refine ⟨hrows.canonical, ?_⟩
    intro d hd
    refine ⟨?_, Model.dual_of_dual hd⟩
    obtain ⟨-, rfl⟩ := Model.dual_eq_ok_iff.1 hd
    exact hrows.transpose.canonical

def orchard : Snapshot Nat where
  name := "orchard"
  sense := .minimum
  tokens :=
    [⟨7, "a", .unsignedInteger, ⟨.one, .ofInt 8⟩, none⟩,
      ⟨3, "b", .continuous, ⟨.zero, .infinity⟩, none⟩]
  constraints := [⟨[⟨.one, 3⟩, ⟨.one, 7⟩, ⟨.one, 3⟩], .greaterEqual, .ofInt 2, "cover"⟩]
  goals := [⟨[⟨.ofInt 2, 3⟩, ⟨.one, 7⟩], .minimum, "cost"⟩]

def orchardModel : Model Nat where
  name := "orchard"
  vars :=
    [⟨0, ⟨.one, .ofInt 8⟩, .unsignedInteger, "a", none⟩,
      ⟨1, ⟨.zero, .infinity⟩, .continuous, "b", none⟩]
  constraints := .ofRows [⟨[(0, .one), (1, .ofInt 2)], .greaterEqual, .ofInt 2, "cover"⟩]
  objective := ⟨.minimum, [⟨0, .one⟩, ⟨1, .ofInt 2⟩]⟩

def spread : Row Nat :=
  ⟨[(0, .one), (1, -.one)], .lessEqual, .one, "spread"⟩

def orchardOperations : List LinearOperation :=
  [.plain .normalize, .plain (.pushRow spread), .dual, .plain .relax, .dual]

theorem canonical_run_orchard :
    let s : Session Nat := { initial with model := orchardModel }
    orchard.compile .default = .ok s.model
      ∧ s.LinearRunSuits orchardOperations
      ∧ (s.runLinear orchardOperations).model.constraints.size = 4
      ∧ (s.runLinear orchardOperations).model.Canonical := by
  intro s
  have hcompile : orchard.compile .default = .ok s.model := by decide +kernel
  have hspread : spread.Fits 2 := by
    refine ⟨?_, ?_, fun t _ => Term.isSorted_column t⟩
    · exact List.pairwise_pair.2 (by decide)
    · simp [spread, Term.InRange, Term.columnList, Term.columns]
  have hsuits : s.LinearRunSuits orchardOperations :=
    ⟨trivial, hspread, trivial, trivial, trivial, trivial⟩
  exact ⟨hcompile, hsuits, by decide +kernel, (canonical_run.2 hcompile hsuits).1⟩

end Session

end SparseProgram
