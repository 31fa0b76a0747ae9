import SparseProgram.Model.Placement
import SparseProgram.Proofs.Duality.Transpose
import SparseProgram.First

/-!
# Placing without loss

Where every item has a slot, each slot ends with its own items in their order. The gate lets no cell
without a slot through, so a placed dual always comes out, and it is the dual.
-/

namespace SparseProgram

/-! ## Slots -/

section Slots

variable {α β : Type} {position : α → Nat} {update : β → α → β}

theorem place_eq_some {slots : List β} {items : List α}
    (h : ∀ item ∈ items, position item < slots.length) :
    place position update slots items
      = some (slots.mapIdx fun i held => (items.filter (position · == i)).foldl update held) := by
  induction items generalizing slots with
  | nil => simp [place, mapIdx_ignore]
  | cons item rest ih =>
      rw [List.forall_mem_cons] at h
      have hslot := List.getElem?_eq_getElem h.1
      have hstep : place position update slots (item :: rest)
          = place position update
              (slots.set (position item) (update slots[position item] item)) rest := by
        simp [place, hslot]
      rw [hstep, ih (by simpa using h.2), Option.some_inj]
      apply List.ext_getElem
      · simp
      · intro i hi hi'
        by_cases hposition : position item = i
        · subst hposition
          simp
        · simp [hposition]

end Slots

namespace Model

variable {m : Model Nat}

theorem placedColumns_eq_some (h : m.WellFormed) :
    m.placedColumns = some (m.vars.mapIdx fun j _ => m.column j) := by
  rw [placedColumns, place_eq_some (by simpa using h.cell_term_lt), Option.some_inj]
  apply List.ext_getElem
  · simp
  · intro j hj hj'
    simp only [List.getElem_mapIdx, List.getElem_replicate, column]
    rw [List.foldl_append_eq_append, List.nil_append]
    exact List.map_eq_flatMap.symm

theorem placedCosts_eq_some (h : m.WellFormed) :
    m.placedCosts = some (m.vars.mapIdx fun j _ => m.cost j) := by
  rw [placedCosts, place_eq_some (by simpa using h.objective_term_lt), Option.some_inj]
  apply List.ext_getElem
  · simp
  · intro j hj hj'
    simp [cost]

end Model

/-! ## Relations -/

theorem Variable.dualRelation_eq_ok_iff {sense : Sense} {v : Variable} {relation : Relation} :
    v.dualRelation sense = .ok relation
      ↔ v.shape ≠ .other ∧ relation = (sense.dualRelation v.shape).getD .equal := by
  unfold dualRelation
  rw [Ne, ← Sense.dualRelation_eq_none_iff]
  cases sense.dualRelation v.shape with
  | none => simp
  | some r => simp [eq_comm]

theorem Variable.dualRelation_eq_error {sense : Sense} {v : Variable} (h : v.shape = .other) :
    v.dualRelation sense = .error v.dualError := by
  rw [dualRelation, Sense.dualRelation_eq_none_iff.2 h]

namespace Model

variable {m : Model Nat}

theorem dualRow_eq_error {v : Variable} (h : v.shape = .other) (j : Nat) :
    m.dualRow v j = .error v.dualError := by
  rw [dualRow, Sense.dualRelation_eq_none_iff.2 h]

/-- Both ways of taking the dual of a model that passed the gate stop at the first variable whose
shape has no relation. -/
theorem dual_eq_error_of_isFirst (hvalid : m.firstDefect = none) {v : Variable}
    (hv : IsFirst (fun v => v.shape = .other) m.vars v) : m.dual = .error v.dualError := by
  obtain ⟨before, after, hvars, hother, hbefore⟩ := hv
  have hrows : (m.vars.zipIdx.mapM fun entry => m.dualRow entry.1 entry.2)
      = .error v.dualError := by
    rw [hvars, List.zipIdx_append, List.zipIdx_cons]
    apply mapM_append_cons_eq_error
    · intro entry hentry
      refine ⟨_, dualRow_eq_ok_iff.2 ⟨hbefore entry.1 ?_, rfl⟩⟩
      exact List.fst_mem_of_mem_zipIdx hentry
    · exact dualRow_eq_error hother _
  rw [dual, hvalid]
  exact bind_eq_error hrows _

theorem mapM_dualRelation_eq_ok (h : m.HasDual) :
    m.vars.mapM (Variable.dualRelation m.objective.sense)
      = .ok (m.vars.map fun v => (m.objective.sense.dualRelation v.shape).getD .equal) :=
  (mapM_eq_ok_iff_map fun _ _ => Variable.dualRelation_eq_ok_iff).2 ⟨h.2, rfl⟩

theorem mapM_dualRelation_eq_error {v : Variable}
    (hv : IsFirst (fun v => v.shape = .other) m.vars v) :
    m.vars.mapM (Variable.dualRelation m.objective.sense) = .error v.dualError := by
  obtain ⟨before, after, hvars, hother, hbefore⟩ := hv
  rw [hvars]
  apply mapM_append_cons_eq_error
  · intro b hb
    exact ⟨_, Variable.dualRelation_eq_ok_iff.2 ⟨hbefore b hb, rfl⟩⟩
  · exact Variable.dualRelation_eq_error hother

theorem map_placedRow_eq (m : Model Nat) :
    (((m.vars.zip (m.vars.mapIdx fun j _ => m.column j)).zip
        (m.vars.map fun v => (m.objective.sense.dualRelation v.shape).getD .equal)).zip
        (m.vars.mapIdx fun j _ => m.cost j)).map placedRow = m.dualRows := by
  apply List.ext_getElem
  · simp [dualRows]
  · intro j hj hj'
    simp [dualRows, placedRow]

theorem placedDual_eq_error_of_isFirst (hvalid : m.firstDefect = none) {v : Variable}
    (hv : IsFirst (fun v => v.shape = .other) m.vars v) :
    m.placedDual = some (.error v.dualError) := by
  rw [placedDual, hvalid]
  simp only [mapM_dualRelation_eq_error hv]

theorem placedDual_eq_ok (h : m.HasDual) : m.placedDual = some (.ok m.transpose) := by
  rw [placedDual, firstDefect_eq_none_iff.2 h.1]
  simp only [mapM_dualRelation_eq_ok h, placedColumns_eq_some h.1, placedCosts_eq_some h.1,
    Option.bind_eq_bind, Option.bind_some, Option.pure_def, map_placedRow_eq]
  rfl

/-- Taking a dual in place is never fatal, and it gives the dual. -/
theorem placedDual_eq (m : Model Nat) : m.placedDual = some m.dual := by
  cases hvalid : m.firstDefect with
  | some defect => rw [placedDual, dual, hvalid]
  | none =>
      rcases forall_or_exists_isFirst (fun v : Variable => v.shape = .other) m.vars with hall | hv
      · have hm : m.HasDual := ⟨firstDefect_eq_none_iff.1 hvalid, hall⟩
        rw [placedDual_eq_ok hm, dual_eq_ok_iff.2 ⟨hm, rfl⟩]
      · obtain ⟨v, hv⟩ := hv
        rw [placedDual_eq_error_of_isFirst hvalid hv, dual_eq_error_of_isFirst hvalid hv]

end Model

end SparseProgram
