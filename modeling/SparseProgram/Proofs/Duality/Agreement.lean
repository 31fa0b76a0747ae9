import SparseProgram.Proofs.Duality.Precondition
import SparseProgram.Proofs.Model.Agreement

/-!
# Duals of models that agree

Costs are summed up, and a sum of finite coefficients does not depend on the signs of zeros and is
never NaN. So models that agree have duals that agree, or fail in the same way.
-/

namespace SparseProgram

/-! ## Failures -/

namespace DualError

def NanFree : DualError → Prop
  | notNormalized _ bounds => bounds.NanFree
  | _ => True

def unsignZeros : DualError → DualError
  | notNormalized name bounds => notNormalized name bounds.unsignZeros
  | e => e

theorem agrees_iff (d e : DualError) :
    d.agrees e = true ↔ d.NanFree ∧ d.unsignZeros = e.unsignZeros := by
  cases d <;> cases e <;> simp [agrees, NanFree, unsignZeros, Bounds.agrees_iff]
  tauto

end DualError

namespace Bounds

variable (b : Bounds)

theorem isSigned_unsignZeros : b.unsignZeros.IsSigned ↔ b.IsSigned := by
  rw [isSigned_iff, isSigned_iff, shape_unsignZeros]

theorem isFixedAtZero_unsignZeros : b.unsignZeros.IsFixedAtZero ↔ b.IsFixedAtZero := by
  rw [isFixedAtZero_iff, isFixedAtZero_iff, isZero_lower_unsignZeros, isZero_upper_unsignZeros]

end Bounds

namespace Model

variable {m n : Model Nat} {e : DualError}

theorem isFirst_unsignZeros {v : Variable}
    (h : IsFirst (fun v : Variable => ¬v.bounds.IsSigned) m.vars v) :
    IsFirst (fun v : Variable => ¬v.bounds.IsSigned) m.unsignZeros.vars v.unsignZeros := by
  have hsigned (w : Variable) : ¬w.bounds.IsSigned ↔ ¬w.unsignZeros.bounds.IsSigned :=
    not_congr w.bounds.isSigned_unsignZeros.symm
  exact IsFirst.map (f := Variable.unsignZeros) (h.congr hsigned)

theorem DualFailsWith.unsignZeros (h : m.DualFailsWith e) :
    m.unsignZeros.DualFailsWith e.unsignZeros := by
  have hdefect := m.firstDefect_unsignZeros
  cases h with
  | invalid defect hinvalid => exact .invalid defect (hdefect.trans hinvalid)
  | fixedAtZero v hvalid hfirst hfixed =>
      exact .fixedAtZero v.unsignZeros (hdefect.trans hvalid) (isFirst_unsignZeros hfirst)
        (v.bounds.isFixedAtZero_unsignZeros.2 hfixed)
  | notNormalized v hvalid hfirst hfixed =>
      exact .notNormalized v.unsignZeros (hdefect.trans hvalid) (isFirst_unsignZeros hfirst)
        (mt v.bounds.isFixedAtZero_unsignZeros.1 hfixed)

theorem DualFailsWith.nanFree (h : m.DualFailsWith e) (hm : m.NanFree) : e.NanFree := by
  cases h with
  | invalid defect hinvalid => trivial
  | fixedAtZero v hvalid hfirst hfixed => trivial
  | notNormalized v hvalid hfirst hfixed => exact hm.bounds v hfirst.mem

/-! ## Costs -/

section Costs

variable (cells : List (ObjectiveCell Nat)) {start start' : Binary64}

/-- The invariant of the sum: equal totals stay equal, but for the signs of zeros. -/
theorem unsignZero_foldl (h : start'.unsignZero = start.unsignZero) :
    ((cells.map ObjectiveCell.unsignZero).foldl
        (fun sum cell => sum + cell.coefficient) start').unsignZero
      = (cells.foldl (fun sum cell => sum + cell.coefficient) start).unsignZero := by
  induction cells generalizing start start' with
  | nil => exact h
  | cons cell rest ih =>
      apply ih
      calc
        (start' + cell.coefficient.unsignZero).unsignZero
            = (start.unsignZero + cell.coefficient.unsignZero).unsignZero := by
          rw [← Binary64.unsignZero_add, Binary64.unsignZero_unsignZero, h]
        _ = (start + cell.coefficient).unsignZero := Binary64.unsignZero_add _ _

theorem foldl_ne_nan (hstart : start ≠ .nan)
    (hfinite : ∀ cell ∈ cells, cell.coefficient.isFinite = true) :
    cells.foldl (fun sum cell => sum + cell.coefficient) start ≠ .nan := by
  induction cells generalizing start with
  | nil => exact hstart
  | cons cell rest ih =>
      obtain ⟨hcell, hrest⟩ := List.forall_mem_cons.1 hfinite
      exact ih (Binary64.add_ne_nan hstart hcell) hrest

end Costs

theorem unsignZero_cost (m : Model Nat) (j : Nat) :
    (m.unsignZeros.cost j).unsignZero = (m.cost j).unsignZero := by
  have hfilter : m.unsignZeros.objective.cells.filter (·.term == j)
      = (m.objective.cells.filter (·.term == j)).map ObjectiveCell.unsignZero := List.filter_map
  rw [cost, hfilter]
  exact unsignZero_foldl _ rfl

theorem cost_ne_nan (hfinite : ∀ cell ∈ m.objective.cells, cell.coefficient.isFinite = true)
    (j : Nat) : m.cost j ≠ .nan :=
  foldl_ne_nan _ Binary64.noConfusion fun cell hcell => hfinite cell (List.mem_filter.1 hcell).1

/-! ## Duals -/

theorem column_unsignZeros (m : Model Nat) (j : Nat) :
    m.unsignZeros.column j = (m.column j).map fun entry => (entry.1, entry.2.unsignZero) := by
  have hfilter : m.unsignZeros.constraints.cells.filter (·.term == j)
      = (m.constraints.cells.filter (·.term == j)).map Cell.unsignZero := List.filter_map
  rw [column, hfilter, column, List.map_map, List.map_map]
  rfl

theorem dualRows_unsignZeros (m : Model Nat) :
    m.unsignZeros.dualRows.map Row.unsignZeros = m.dualRows.map Row.unsignZeros := by
  have hvars : m.unsignZeros.vars = m.vars.map Variable.unsignZeros := rfl
  rw [dualRows, hvars, mapIdx_map, map_mapIdx, dualRows, map_mapIdx]
  apply List.mapIdx_eq_mapIdx_iff.2
  intro j hj
  have hshape : m.vars[j].unsignZeros.shape = m.vars[j].shape := m.vars[j].bounds.shape_unsignZeros
  simp only [Row.unsignZeros, column_unsignZeros, unsignZero_cost, hshape, List.map_map,
    Function.comp_def, Binary64.unsignZero_unsignZero]
  rfl

theorem transpose_unsignZeros (m : Model Nat) :
    m.unsignZeros.transpose.unsignZeros = m.transpose.unsignZeros := by
  have hrows : (RowStore.ofRows m.unsignZeros.dualRows).unsignZeros
      = (RowStore.ofRows m.dualRows).unsignZeros := by
    rw [RowStore.ofRows_unsignZeros, dualRows_unsignZeros, RowStore.ofRows_unsignZeros]
  have hobjective : m.unsignZeros.dualObjective.unsignZeros = m.dualObjective.unsignZeros := by
    have hrightSides : m.unsignZeros.constraints.rightSides
        = m.constraints.rightSides.map Binary64.unsignZero := rfl
    simp only [dualObjective, hrightSides, Objective.unsignZeros, mapIdx_map, map_mapIdx,
      ObjectiveCell.unsignZero, Binary64.unsignZero_unsignZero]
    rfl
  show (⟨m.name ++ "-dual", m.unsignZeros.dualVariables.map Variable.unsignZeros,
    (RowStore.ofRows m.unsignZeros.dualRows).unsignZeros,
    m.unsignZeros.dualObjective.unsignZeros⟩ : Model Nat) = _
  rw [hrows, hobjective]
  rfl

theorem hasDual_unsignZeros : m.unsignZeros.HasDual ↔ m.HasDual := by
  have hshapes : (∀ v ∈ m.unsignZeros.vars, v.shape ≠ .other) ↔ ∀ v ∈ m.vars, v.shape ≠ .other := by
    rw [← List.forall_mem_map (P := (· ≠ .other)) (f := Variable.shape), shapes_unsignZeros,
      List.forall_mem_map]
  rw [HasDual, HasDual, ← firstDefect_eq_none_iff, ← firstDefect_eq_none_iff,
    firstDefect_unsignZeros, hshapes]

theorem NanFree.transpose (h : m.NanFree)
    (hfinite : ∀ cell ∈ m.objective.cells, cell.coefficient.isFinite = true) :
    m.transpose.NanFree := by
  refine nanFree_iff.2 ⟨?_, ?_, ?_⟩
  · intro v hv
    obtain ⟨i, hi, rfl⟩ := List.mem_mapIdx.1 hv
    have hbounds (sense : Sense) (relation : Relation) : (sense.dualBounds relation).NanFree := by
      cases sense <;> cases relation <;> exact ⟨Binary64.noConfusion, Binary64.noConfusion⟩
    exact ⟨hbounds _ _, by simp⟩
  · rw [constraints_transpose]
    apply RowStore.NanFree.pushAll ⟨by simp [RowStore.empty], by simp [RowStore.empty]⟩
    intro row hrow
    obtain ⟨j, hj, rfl⟩ := List.mem_mapIdx.1 hrow
    refine ⟨?_, cost_ne_nan hfinite j⟩
    intro entry hentry
    obtain ⟨cell, hcell, rfl⟩ := List.mem_map.1 hentry
    exact h.coefficients cell (List.mem_filter.1 hcell).1
  · intro cell hcell
    obtain ⟨i, hi, rfl⟩ := List.mem_mapIdx.1 hcell
    exact h.rightSides _ (List.getElem_mem hi)

theorem dual_agrees (h : m.agrees n = true)
    (hfinite : ∀ cell ∈ m.objective.cells, cell.coefficient.isFinite = true) :
    agreeAttempt DualError.agrees Model.agrees m.dual n.dual = true := by
  obtain ⟨hnan, heq⟩ := agrees_iff.1 h
  have hdual : m.HasDual ↔ n.HasDual := by
    rw [← hasDual_unsignZeros, heq, hasDual_unsignZeros]
  cases hm : m.dual with
  | ok d =>
      obtain ⟨hd, rfl⟩ := dual_eq_ok_iff.1 hm
      have hn : n.dual = .ok n.transpose := dual_eq_ok_iff.2 ⟨hdual.1 hd, rfl⟩
      rw [hn]
      show m.transpose.agrees n.transpose = true
      rw [agrees_iff, ← m.transpose_unsignZeros, heq, n.transpose_unsignZeros]
      exact ⟨hnan.transpose hfinite, rfl⟩
  | error d =>
      cases hn : n.dual with
      | ok t =>
          obtain ⟨ht, -⟩ := dual_eq_ok_iff.1 hn
          rw [dual_eq_ok_iff.2 ⟨hdual.2 ht, rfl⟩] at hm
          cases hm
      | error e =>
          have hd := dual_eq_error_iff.1 hm
          have he := dual_eq_error_iff.1 hn
          -- Without the signs of zeros both models are one, which fails in one way only.
          have hsame := dual_eq_error_iff.2 hd.unsignZeros
          rw [heq, dual_eq_error_iff.2 he.unsignZeros, Except.error.injEq] at hsame
          exact (d.agrees_iff e).2 ⟨hd.nanFree hnan, hsame.symm⟩

/-- Agreement is respected: models that agree are indiscernible, and their duals agree or fail in
ways that agree, as long as costs are finite. Agreement is symmetric and transitive, and it holds of
a model and itself unless the model holds a NaN. -/
theorem agreement_respected (τ : Type) [DecidableEq τ] [Term τ] :
    (∀ m n : Model τ, m.agrees n = true → m.Indiscernible n)
      ∧ (∀ m n : Model Nat, m.agrees n = true →
          (∀ cell ∈ m.objective.cells, cell.coefficient.isFinite = true) →
          agreeAttempt DualError.agrees Model.agrees m.dual n.dual = true)
      ∧ (∀ m n : Model τ, m.agrees n = true → n.agrees m = true)
      ∧ (∀ l m n : Model τ, l.agrees m = true → m.agrees n = true → l.agrees n = true)
      ∧ ∀ m : Model τ, m.agrees m = true ↔ m.NanFree :=
  ⟨fun _ _ => indiscernible_of_agrees, fun _ _ => dual_agrees, fun _ _ => agrees_symm,
    fun _ _ _ => agrees_trans, fun _ => agrees_self_iff⟩

def blank (x : Binary64) : Model Nat where
  name := "blank"
  vars :=
    [⟨0, ⟨x, .infinity⟩, .unsignedInteger, "a", some x⟩,
      ⟨1, ⟨.negativeInfinity, x⟩, .continuous, "b", none⟩]
  constraints := .ofRows [⟨[(0, x), (1, .one)], .lessEqual, x, "cap"⟩]
  objective := ⟨.minimum, [⟨0, .one⟩, ⟨1, x⟩, ⟨0, -.one⟩]⟩

theorem agreement_respected_blank :
    blank .zero ≠ blank (-.zero)
      ∧ (blank .zero).Indiscernible (blank (-.zero))
      ∧ agreeAttempt DualError.agrees Model.agrees (blank .zero).dual (blank (-.zero)).dual = true
      ∧ ¬(blank .nan).agrees (blank .nan) = true := by
  obtain ⟨hlike, hdual, -, -, hself⟩ := agreement_respected Nat
  have hagree : (blank .zero).agrees (blank (-.zero)) = true := by decide +kernel
  refine ⟨by decide +kernel, hlike _ _ hagree, hdual _ _ hagree (by decide +kernel), ?_⟩
  rw [hself]
  intro hnan
  exact hnan.rightSides .nan (by decide +kernel) rfl

end Model

end SparseProgram
