import SparseProgram.Proofs.Duality.Placement
import SparseProgram.Proofs.Model.MovedBounds
import SparseProgram.Session.Reporting

/-!
# Reported operations

Every operation that reports step by step does what the operation does that tells its events at the
end, and has the same events on record. The warning is on record before the cells are placed, but
placing has an outcome whenever it is reached.
-/

namespace SparseProgram

open Reporting (report reportIf ofOption)

variable {τ : Type}

/-! ## Records -/

namespace Reporting

variable {ε α β : Type} {record : List Event}

theorem outcome_pure (a : α) : (pure a : Reporting ε α).outcome record = (some (.ok a), record) :=
  rfl

theorem outcome_report_bind (event : Event) (next : Unit → Reporting ε β) :
    (report event >>= next).outcome record = (next ()).outcome (record ++ [event]) :=
  rfl

theorem outcome_throw (e : ε) :
    (throw e : Reporting ε α).outcome record = (some (.error e), record) :=
  rfl

theorem outcome_reportIf_bind (condition : Bool) (event : Event) (next : Unit → Reporting ε β) :
    (reportIf condition event >>= next).outcome record
      = (next ()).outcome (record ++ if condition then [event] else []) := by
  cases condition with
  | true => rfl
  | false =>
      rw [if_neg Bool.false_ne_true, List.append_nil]
      rfl

theorem outcome_ofExcept_bind_of_ok {x : Except ε α} {a : α} (h : x = .ok a)
    (next : α → Reporting ε β) :
    ((MonadExcept.ofExcept x : Reporting ε α) >>= next).outcome record
      = (next a).outcome record := by
  subst h
  rfl

theorem outcome_ofExcept_bind_of_error {x : Except ε α} {e : ε} (h : x = .error e)
    (next : α → Reporting ε β) :
    ((MonadExcept.ofExcept x : Reporting ε α) >>= next).outcome record
      = (some (.error e), record) := by
  subst h
  rfl

theorem outcome_ofOption_bind {x : Option α} {a : α} (h : x = some a)
    (next : α → Reporting ε β) :
    (ofOption x >>= next).outcome record = (next a).outcome record := by
  subst h
  rfl

end Reporting

open Reporting

/-! ## Operations -/

namespace Snapshot

variable [Term τ] {s : Snapshot τ} {options : CompileOptions} {record : List Event}

theorem outcome_compileReporting_of_ok {m : Model τ} (h : s.compile options = .ok m) :
    (s.compileReporting options).outcome record = (some (.ok m), record ++ m.compiledEvents) := by
  rw [compileReporting, outcome_ofExcept_bind_of_ok h, outcome_report_bind, outcome_pure]
  rfl

theorem outcome_compileReporting_of_error {e : CompileError} (h : s.compile options = .error e) :
    (s.compileReporting options).outcome record = (some (.error e), record) := by
  rw [compileReporting, outcome_ofExcept_bind_of_error h]

end Snapshot

theorem Variable.relaxCounting_eq (count : Nat) (vars : List Variable) :
    relaxCounting count vars
      = (count + vars.countP (·.kind.isIntegral), vars.map Variable.relax) := by
  induction vars generalizing count with
  | nil => rfl
  | cons v rest ih =>
      rw [relaxCounting, List.map_cons]
      by_cases hkind : v.kind.isIntegral = true
      · have hchanges : v.kind.relaxed ≠ v.kind := by
          rw [Ne, VariableKind.relaxed_eq_self_iff, hkind]
          exact Bool.noConfusion
        rw [if_pos hchanges, ih, List.countP_cons_of_pos (by exact hkind)]
        simp only [Prod.mk.injEq]
        exact ⟨by omega, rfl⟩
      · have hsame : v.kind.relaxed = v.kind :=
          (VariableKind.relaxed_eq_self_iff v.kind).2 (Bool.eq_false_iff.2 hkind)
        have hrelax : v.relax = v := by rw [relax, hsame]
        rw [if_neg (not_not.2 hsame), ih, List.countP_cons_of_neg (by exact hkind), hrelax]

namespace Model

variable {record : List Event}

theorem outcome_normalizeReporting [Term τ] (m : Model τ) :
    m.normalizeReporting.outcome record
      = (some (.ok m.normalize), record ++ m.normalizedEvents) := by
  rw [normalizeReporting, normalizeInPlace_eq]
  rfl

theorem outcome_relaxReporting (m : Model τ) :
    m.relaxReporting.outcome record = (some (.ok m.relax), record ++ m.relaxedEvents) := by
  rw [relaxReporting, Variable.relaxCounting_eq, Nat.zero_add]
  rfl

theorem outcome_placeReporting {m : Model Nat} (h : m.HasDual) :
    (m.placeReporting
        (m.vars.map fun v => (m.objective.sense.dualRelation v.shape).getD .equal)).outcome record
      = (some (.ok m.transpose),
          record ++ [.dualBuilt m.name m.constraints.size m.transpose.constraints.size]) := by
  rw [placeReporting, outcome_ofOption_bind (placedColumns_eq_some h.1),
    outcome_ofOption_bind (placedCosts_eq_some h.1), map_placedRow_eq]
  rfl

theorem outcome_dualReporting_of_ok {m d : Model Nat} (h : m.dual = .ok d) :
    m.dualReporting.outcome record = (some (.ok d), record ++ m.dualEvents d) := by
  obtain ⟨hm, rfl⟩ := dual_eq_ok_iff.1 h
  rw [dualReporting, firstDefect_eq_none_iff.2 hm.1]
  simp only
  rw [outcome_ofExcept_bind_of_ok (mapM_dualRelation_eq_ok hm), outcome_reportIf_bind,
    outcome_placeReporting hm, List.append_assoc]
  rfl

/-- Whatever can fail has failed before there is a warning. -/
theorem outcome_dualReporting_of_error {m : Model Nat} {e : DualError} (h : m.dual = .error e) :
    m.dualReporting.outcome record = (some (.error e), record) := by
  cases hvalid : m.firstDefect with
  | some defect =>
      rw [dual, hvalid] at h
      obtain rfl := Except.error.inj h
      rw [dualReporting, hvalid]
      exact outcome_throw _
  | none =>
      rcases forall_or_exists_isFirst (fun v : Variable => v.shape = .other) m.vars with hall | hv
      · rw [dual_eq_ok_iff.2 ⟨⟨firstDefect_eq_none_iff.1 hvalid, hall⟩, rfl⟩] at h
        cases h
      · obtain ⟨v, hv⟩ := hv
        rw [dual_eq_error_of_isFirst hvalid hv] at h
        obtain rfl := Except.error.inj h
        rw [dualReporting, hvalid]
        exact outcome_ofExcept_bind_of_error (mapM_dualRelation_eq_error hv) _

end Model

/-! ## Sessions -/

namespace Session

variable {ε α : Type} {s : Session τ} {attempt : Reporting ε α} {accept : α → Session τ}

theorem conclude_of_ok {a : α} {events : List Event}
    (h : attempt.outcome s.events = (some (.ok a), events)) :
    s.conclude attempt accept = { accept a with events := events } := by
  rw [conclude, h]

theorem conclude_of_error {e : ε} (h : attempt.outcome s.events = (some (.error e), s.events)) :
    s.conclude attempt accept = s := by
  rw [conclude, h]

/-! What a step takes over, once it is known how its operation ends. -/

section Steps

variable [Term τ] {options : CompileOptions} {snapshot : Snapshot τ}

theorem perform_compile_of_ok {m : Model τ} (h : snapshot.compile options = .ok m) :
    s.perform (.compile options snapshot)
      = { s with snapshot := snapshot, model := m, events := s.events ++ m.compiledEvents } := by
  have hcompile : ({ s with snapshot := snapshot } : Session τ).compile options
      = .ok (advance { s with snapshot := snapshot } m m.compiledEvents) :=
    bind_eq_ok_iff.2 ⟨m, h, rfl⟩
  rw [perform, hcompile]
  rfl

theorem perform_compile_of_error {e : CompileError} (h : snapshot.compile options = .error e) :
    s.perform (.compile options snapshot) = s := by
  have hcompile : ({ s with snapshot := snapshot } : Session τ).compile options = .error e :=
    bind_eq_error h _
  rw [perform, hcompile]

end Steps

theorem performLinear_dual_of_ok {s : Session Nat} {d : Model Nat} (h : s.model.dual = .ok d) :
    s.performLinear .dual = s.advance d (s.model.dualEvents d) := by
  have hdual : s.dual = .ok (s.advance d (s.model.dualEvents d)) := bind_eq_ok_iff.2 ⟨d, h, rfl⟩
  rw [performLinear, hdual]

theorem performLinear_dual_of_error {s : Session Nat} {e : DualError}
    (h : s.model.dual = .error e) : s.performLinear .dual = s := by
  have hdual : s.dual = .error e := bind_eq_error h _
  rw [performLinear, hdual]

theorem performReporting_eq [Term τ] (s : Session τ) (operation : Operation τ) :
    s.performReporting operation = s.perform operation := by
  cases operation with
  | compile options snapshot =>
      cases h : snapshot.compile options with
      | ok m =>
          rw [perform_compile_of_ok h, performReporting,
            conclude_of_ok (Snapshot.outcome_compileReporting_of_ok h)]
      | error e =>
          rw [perform_compile_of_error h, performReporting,
            conclude_of_error (Snapshot.outcome_compileReporting_of_error h)]
  | normalize =>
      rw [performReporting, conclude_of_ok s.model.outcome_normalizeReporting]
      rfl
  | relax =>
      rw [performReporting, conclude_of_ok s.model.outcome_relaxReporting]
      rfl
  | pushRow row => rfl

theorem performLinearReporting_eq (s : Session Nat) (operation : LinearOperation) :
    s.performLinearReporting operation = s.performLinear operation := by
  cases operation with
  | plain operation => exact s.performReporting_eq operation
  | dual =>
      cases h : s.model.dual with
      | ok d =>
          rw [performLinear_dual_of_ok h, performLinearReporting,
            conclude_of_ok (Model.outcome_dualReporting_of_ok h)]
          rfl
      | error e =>
          rw [performLinear_dual_of_error h, performLinearReporting,
            conclude_of_error (Model.outcome_dualReporting_of_error h)]

end Session

end SparseProgram
