import SparseProgram.Model.MovedBounds
import SparseProgram.Proofs.Positions
import SparseProgram.Proofs.RowStore.Rows
import SparseProgram.Proofs.Variable.DropBounds

/-!
# Normal forms

The normalized form of a model, well formed or not: every bound that is neither missing nor zero has
become a row behind all rows there were, and nothing else is changed.
-/

namespace SparseProgram

variable {τ : Type}

/-! ## Pushed cells -/

theorem flatten_mapIdx_singleton {α β : Type} (f : Nat → α → β) (l : List α) :
    (l.mapIdx fun i a => [f i a]).flatten = l.mapIdx f := by
  rw [← map_mapIdx (fun b => [b]) f, ← List.flatMap_def, List.flatMap_singleton']

namespace RowStore

theorem cells_pushAll (s : RowStore τ) (rows : List (Row τ)) :
    (s.pushAll rows).cells
      = s.cells ++ (rows.mapIdx fun i row => row.cellsAt (s.size + i)).flatten := by
  induction rows generalizing s with
  | nil => simp [pushAll]
  | cons row rest ih =>
      have hstep : s.pushAll (row :: rest) = (s.push row).pushAll rest := rfl
      rw [hstep, ih, cells_push, List.mapIdx_cons, List.flatten_cons, List.append_assoc]
      simp only [size_push, Nat.add_assoc, Nat.add_comm 1, Nat.add_zero]

end RowStore

/-! ## Borders -/

namespace Bounds

variable {b : Bounds}

theorem moves_lower_iff : b.Moves .lower ↔ b.lowerIsPlain = false := by
  rw [lowerIsPlain, Bool.or_eq_false_iff, ← Bool.not_eq_true, ← Bool.not_eq_true, lowerIsFree_iff,
    Binary64.isZero_iff_eq]
  rfl

theorem moves_upper_iff : b.Moves .upper ↔ b.upperIsPlain = false := by
  rw [upperIsPlain, Bool.or_eq_false_iff, ← Bool.not_eq_true, ← Bool.not_eq_true, upperIsFree_iff,
    Binary64.isZero_iff_eq]
  rfl

end Bounds

variable [Term τ]

namespace Variable

def borderRow (v : Variable) (border : Border) : Row τ :=
  ⟨[(Term.linear v.index, .one)], border.relation, v.bounds.bound border, v.name ++ border.suffix⟩

theorem boundRows_eq (v : Variable) :
    (v.boundRows : List (Row τ)) = v.bounds.movedBorders.map v.borderRow := by
  unfold boundRows Bounds.movedBorders
  simp only [List.filter_cons, List.filter_nil, Bounds.moves_lower_iff, Bounds.moves_upper_iff]
  cases v.bounds.lowerIsPlain <;> cases v.bounds.upperIsPlain <;> rfl

omit [Term τ] in
theorem bound_dropBounds (v : Variable) (border : Border) :
    v.dropBounds.bounds.bound border
      = if v.bounds.Moves border then border.unbounded else v.bounds.bound border := by
  cases border with
  | lower =>
      simp only [Bounds.moves_lower_iff]
      cases h : v.bounds.lowerIsPlain <;> simp [dropBounds, Bounds.bound, Border.unbounded, h]
  | upper =>
      simp only [Bounds.moves_upper_iff]
      cases h : v.bounds.upperIsPlain <;> simp [dropBounds, Bounds.bound, Border.unbounded, h]

omit [Term τ] in
theorem isFreedFrom_dropBounds (v : Variable) : v.dropBounds.IsFreedFrom v := by
  constructor
  case index => rfl
  case kind => rfl
  case name => rfl
  case value => rfl
  case moved =>
    intro border hmoves
    rw [bound_dropBounds, if_pos hmoves]
  case kept =>
    intro border hstays
    rw [bound_dropBounds, if_neg hstays]

end Variable

/-! ## The loop -/

namespace RowStore

/-- Whether the upper bound moves, and what its row holds, does not depend on the lower one. -/
theorem takeBoth_eq (s : RowStore τ) (v : Variable) :
    s.takeBoth v = (s.pushAll v.boundRows, v.dropBounds) := by
  have hupper : (⟨.negativeInfinity, v.bounds.upper⟩ : Bounds).upperIsPlain
      = v.bounds.upperIsPlain := rfl
  unfold takeBoth takeLower takeUpper Variable.boundRows Variable.dropBounds
  cases hl : v.bounds.lowerIsPlain <;> cases hu : v.bounds.upperIsPlain <;>
    simp [hu, hupper, pushAll, Variable.upperRow]

theorem takeBounds_eq (s : RowStore τ) (vars : List Variable) :
    s.takeBounds vars
      = (s.pushAll (vars.flatMap Variable.boundRows), vars.map Variable.dropBounds) := by
  induction vars generalizing s with
  | nil => rfl
  | cons v rest ih =>
      have hpushed : (s.pushAll v.boundRows).pushAll (rest.flatMap Variable.boundRows)
          = s.pushAll ((v :: rest).flatMap Variable.boundRows) := by
        rw [List.flatMap_cons, pushAll, pushAll, pushAll, List.foldl_append]
      simp only [takeBounds, takeBoth_eq, ih, hpushed, List.map_cons]

end RowStore

namespace Model

theorem normalizeInPlace_eq (m : Model τ) : m.normalizeInPlace = m.normalize := by
  rw [normalizeInPlace, RowStore.takeBounds_eq]
  rfl

/-! ## Normal forms -/

omit [Term τ] in
theorem isNormalized_iff {m : Model τ} :
    m.isNormalized = true ↔ ∀ v ∈ m.vars, v.bounds.isPlain = true := by
  rw [isNormalized, List.all_eq_true]

theorem isNormalized_normalize (m : Model τ) : m.normalize.isNormalized = true := by
  rw [isNormalized_iff]
  show ∀ v ∈ m.vars.map Variable.dropBounds, v.bounds.isPlain = true
  rw [List.forall_mem_map]
  intro v _
  exact v.isPlain_dropBounds

theorem normalize_of_isNormalized {m : Model τ} (h : m.isNormalized = true) : m.normalize = m := by
  rw [isNormalized_iff] at h
  have hvars : m.vars.map Variable.dropBounds = m.vars.map id :=
    List.map_congr_left fun v hv => Variable.dropBounds_of_isPlain (h v hv)
  have hrows : m.boundRows = [] := by
    rw [boundRows, List.flatMap_eq_nil_iff]
    intro v hv
    exact Variable.boundRows_of_isPlain (h v hv)
  rw [normalize, hvars, hrows, List.map_id]
  rfl

theorem normalize_eq_self_iff {m : Model τ} : m.normalize = m ↔ m.isNormalized = true := by
  refine ⟨?_, normalize_of_isNormalized⟩
  intro h
  rw [← h]
  exact m.isNormalized_normalize

theorem boundRows_eq (m : Model τ) :
    m.boundRows = m.movedBounds.map fun (v, border) => v.borderRow border := by
  rw [boundRows, movedBounds, List.map_flatMap]
  apply List.flatMap_congr
  intro v _
  rw [v.boundRows_eq, List.map_map]
  rfl

theorem constraints_normalize (m : Model τ) :
    m.normalize.constraints
      = m.constraints.pushAll (m.movedBounds.map fun (v, border) => v.borderRow border) := by
  rw [← boundRows_eq]
  rfl

theorem isNormalFormOf_normalize (m : Model τ) : m.normalize.IsNormalFormOf m := by
  constructor
  case isNormalized => exact m.isNormalized_normalize
  case name => rfl
  case objective => rfl
  case vars =>
    show List.Forall₂ _ (m.vars.map Variable.dropBounds) m.vars
    rw [List.forall₂_map_left_iff, List.forall₂_same]
    intro v _
    exact v.isFreedFrom_dropBounds
  case cells =>
    rw [constraints_normalize, RowStore.cells_pushAll, mapIdx_map]
    exact congrArg _ (flatten_mapIdx_singleton _ m.movedBounds)
  case relations =>
    rw [constraints_normalize, RowStore.relations_pushAll, List.map_map]
    rfl
  case rightSides =>
    rw [constraints_normalize, RowStore.rightSides_pushAll, List.map_map]
    rfl
  case names =>
    rw [constraints_normalize, RowStore.names_pushAll, List.map_map]
    rfl

/-- The loop over the variables leaves the normal form, of a malformed model too, and it leaves a
model as it is exactly if that model was normalized. -/
theorem normalize_exact (m : Model τ) :
    m.normalizeInPlace = m.normalize
      ∧ m.normalize.IsNormalFormOf m
      ∧ (m.normalize = m ↔ m.isNormalized = true) :=
  ⟨m.normalizeInPlace_eq, m.isNormalFormOf_normalize, normalize_eq_self_iff⟩

end Model

end SparseProgram
