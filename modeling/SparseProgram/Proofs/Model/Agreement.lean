import SparseProgram.Model.Indiscernible
import SparseProgram.Proofs.Number.Addition
import SparseProgram.Proofs.RowStore.Partition
import SparseProgram.Proofs.Variable.Bounds

/-!
# Agreement of models

Models without NaN agree exactly if they are equal once the signs of all zeros are dropped. Whatever
does not depend on these signs is the same for models that agree.
-/

namespace SparseProgram

/-! ## Agreement as equality -/

section Agree

variable {α β : Type} {agree : α → α → Bool} {P : α → Prop} {f : α → β}

theorem agreeAll_iff (h : ∀ a b, agree a b = true ↔ P a ∧ f a = f b) (as bs : List α) :
    agreeAll agree as bs = true ↔ (∀ a ∈ as, P a) ∧ as.map f = bs.map f := by
  induction as generalizing bs with
  | nil => cases bs <;> simp [agreeAll]
  | cons a rest ih =>
      cases bs with
      | nil => simp [agreeAll]
      | cons b bs =>
          simp only [agreeAll, Bool.and_eq_true, h, ih, List.forall_mem_cons, List.map_cons,
            List.cons.injEq]
          tauto

theorem agreeOption_iff (h : ∀ a b, agree a b = true ↔ P a ∧ f a = f b) {a b : Option α} :
    agreeOption agree a b = true ↔ (∀ x, a = some x → P x) ∧ a.map f = b.map f := by
  cases a <;> cases b <;> simp [agreeOption, h]

end Agree

namespace Bounds

def NanFree (b : Bounds) : Prop :=
  b.lower ≠ .nan ∧ b.upper ≠ .nan

def unsignZeros (b : Bounds) : Bounds :=
  ⟨b.lower.unsignZero, b.upper.unsignZero⟩

theorem agrees_iff (a b : Bounds) :
    a.agrees b = true ↔ a.NanFree ∧ a.unsignZeros = b.unsignZeros := by
  simp only [agrees, NanFree, unsignZeros, Bool.and_eq_true, Binary64.sameNumber_iff_unsignZero,
    Bounds.mk.injEq]
  tauto

end Bounds

namespace Variable

def NanFree (v : Variable) : Prop :=
  v.bounds.NanFree ∧ v.value ≠ some .nan

def unsignZeros (v : Variable) : Variable :=
  { v with bounds := v.bounds.unsignZeros, value := v.value.map Binary64.unsignZero }

theorem nanFree_unsignZeros {v : Variable} : v.unsignZeros.NanFree ↔ v.NanFree := by
  have hvalue : v.value.map Binary64.unsignZero ≠ some .nan ↔ v.value ≠ some .nan := by
    cases v.value with
    | none => simp
    | some x =>
        rw [Option.map_some, (Option.some_injective _).ne_iff, (Option.some_injective _).ne_iff]
        exact Binary64.unsignZero_ne_nan_iff
  exact and_congr
    (and_congr Binary64.unsignZero_ne_nan_iff Binary64.unsignZero_ne_nan_iff) hvalue

theorem agrees_iff (v w : Variable) :
    v.agrees w = true ↔ v.NanFree ∧ v.unsignZeros = w.unsignZeros := by
  have hvalue : agreeOption Binary64.sameNumber v.value w.value = true
      ↔ v.value ≠ some .nan
        ∧ v.value.map Binary64.unsignZero = w.value.map Binary64.unsignZero := by
    rw [agreeOption_iff Binary64.sameNumber_iff_unsignZero]
    cases v.value <;> simp
  simp only [agrees, NanFree, unsignZeros, Bool.and_eq_true, beq_iff_eq, Bounds.agrees_iff, hvalue,
    Variable.mk.injEq]
  tauto

end Variable

variable {τ : Type}

namespace Cell

def unsignZero (cell : Cell τ) : Cell τ :=
  { cell with coefficient := cell.coefficient.unsignZero }

theorem agrees_iff [DecidableEq τ] (a b : Cell τ) :
    a.agrees b = true ↔ a.coefficient ≠ .nan ∧ a.unsignZero = b.unsignZero := by
  simp only [agrees, unsignZero, Bool.and_eq_true, beq_iff_eq, Binary64.sameNumber_iff_unsignZero,
    Cell.mk.injEq]
  tauto

end Cell

namespace RowStore

def NanFree (s : RowStore τ) : Prop :=
  (∀ cell ∈ s.cells, cell.coefficient ≠ .nan) ∧ ∀ rightSide ∈ s.rightSides, rightSide ≠ .nan

def unsignZeros (s : RowStore τ) : RowStore τ :=
  { s with
    cells := s.cells.map Cell.unsignZero
    rightSides := s.rightSides.map Binary64.unsignZero }

theorem nanFree_unsignZeros {s : RowStore τ} : s.unsignZeros.NanFree ↔ s.NanFree := by
  simp only [NanFree, unsignZeros, List.forall_mem_map, Cell.unsignZero,
    Binary64.unsignZero_ne_nan_iff]

theorem agrees_iff [DecidableEq τ] (s t : RowStore τ) :
    s.agrees t = true ↔ s.NanFree ∧ s.unsignZeros = t.unsignZeros := by
  have hcells : agreeAll Cell.agrees s.cells t.cells = true ↔ _ :=
    agreeAll_iff Cell.agrees_iff _ _
  have hrightSides : agreeAll Binary64.sameNumber s.rightSides t.rightSides = true ↔ _ :=
    agreeAll_iff Binary64.sameNumber_iff_unsignZero _ _
  simp only [agrees, NanFree, unsignZeros, Bool.and_eq_true, beq_iff_eq, hcells, hrightSides,
    RowStore.mk.injEq]
  tauto

end RowStore

namespace ObjectiveCell

def unsignZero (cell : ObjectiveCell τ) : ObjectiveCell τ :=
  { cell with coefficient := cell.coefficient.unsignZero }

end ObjectiveCell

namespace Objective

def unsignZeros (o : Objective τ) : Objective τ :=
  { o with cells := o.cells.map ObjectiveCell.unsignZero }

theorem agrees_iff [DecidableEq τ] (a b : Objective τ) :
    a.agrees b = true
      ↔ (∀ cell ∈ a.cells, cell.coefficient ≠ .nan) ∧ a.unsignZeros = b.unsignZeros := by
  have hcell (x y : ObjectiveCell τ) :
      (x.term == y.term && x.coefficient.sameNumber y.coefficient) = true
        ↔ x.coefficient ≠ .nan ∧ x.unsignZero = y.unsignZero := by
    simp only [ObjectiveCell.unsignZero, Bool.and_eq_true, beq_iff_eq,
      Binary64.sameNumber_iff_unsignZero, ObjectiveCell.mk.injEq]
    tauto
  simp only [agrees, unsignZeros, Bool.and_eq_true, beq_iff_eq, agreeAll_iff hcell,
    Objective.mk.injEq]
  tauto

end Objective

namespace Model

/-- The model without the signs of zeros. -/
def unsignZeros (m : Model τ) : Model τ :=
  ⟨m.name, m.vars.map Variable.unsignZeros, m.constraints.unsignZeros, m.objective.unsignZeros⟩

theorem nanFree_iff {m : Model τ} :
    m.NanFree
      ↔ (∀ v ∈ m.vars, v.NanFree) ∧ m.constraints.NanFree
        ∧ ∀ cell ∈ m.objective.cells, cell.coefficient ≠ .nan := by
  constructor
  · intro h
    exact ⟨fun v hv => ⟨h.bounds v hv, h.values v hv⟩, ⟨h.coefficients, h.rightSides⟩, h.costs⟩
  · rintro ⟨hvars, ⟨hcells, hrightSides⟩, hcosts⟩
    exact ⟨fun v hv => (hvars v hv).1, fun v hv => (hvars v hv).2, hcells, hrightSides, hcosts⟩

theorem nanFree_unsignZeros {m : Model τ} : m.unsignZeros.NanFree ↔ m.NanFree := by
  simp only [nanFree_iff, unsignZeros, List.forall_mem_map, Variable.nanFree_unsignZeros,
    RowStore.nanFree_unsignZeros, Objective.unsignZeros, ObjectiveCell.unsignZero,
    Binary64.unsignZero_ne_nan_iff]

variable [DecidableEq τ] {l m n : Model τ}

/-- Agreement is equality without the signs of zeros. -/
theorem agrees_iff : m.agrees n = true ↔ m.NanFree ∧ m.unsignZeros = n.unsignZeros := by
  have hvars : agreeAll Variable.agrees m.vars n.vars = true ↔ _ :=
    agreeAll_iff Variable.agrees_iff _ _
  simp only [agrees, variablesAgree, unsignZeros, Bool.and_eq_true, beq_iff_eq, hvars,
    RowStore.agrees_iff, Objective.agrees_iff, nanFree_iff, Model.mk.injEq]
  tauto

theorem agrees_self_iff : m.agrees m = true ↔ m.NanFree := by
  rw [agrees_iff, and_iff_left rfl]

theorem agrees_symm (h : m.agrees n = true) : n.agrees m = true := by
  obtain ⟨hnan, heq⟩ := agrees_iff.1 h
  rw [← nanFree_unsignZeros, heq, nanFree_unsignZeros] at hnan
  exact agrees_iff.2 ⟨hnan, heq.symm⟩

theorem agrees_trans (h : l.agrees m = true) (h' : m.agrees n = true) : l.agrees n = true := by
  obtain ⟨hnan, heq⟩ := agrees_iff.1 h
  exact agrees_iff.2 ⟨hnan, heq.trans (agrees_iff.1 h').2⟩

end Model

/-! ## Signs that are not read -/

namespace Bounds

variable (b : Bounds)

theorem lowerIsFree_unsignZeros : b.unsignZeros.lowerIsFree = b.lowerIsFree :=
  Binary64.sameNumber_unsignZero _ _

theorem upperIsFree_unsignZeros : b.unsignZeros.upperIsFree = b.upperIsFree :=
  Binary64.sameNumber_unsignZero _ _

theorem isZero_lower_unsignZeros : b.unsignZeros.lower.isZero = b.lower.isZero :=
  Binary64.isZero_unsignZero _

theorem isZero_upper_unsignZeros : b.unsignZeros.upper.isZero = b.upper.isZero :=
  Binary64.isZero_unsignZero _

theorem lowerIsPlain_unsignZeros : b.unsignZeros.lowerIsPlain = b.lowerIsPlain := by
  rw [lowerIsPlain, lowerIsFree_unsignZeros, isZero_lower_unsignZeros, lowerIsPlain]

theorem upperIsPlain_unsignZeros : b.unsignZeros.upperIsPlain = b.upperIsPlain := by
  rw [upperIsPlain, upperIsFree_unsignZeros, isZero_upper_unsignZeros, upperIsPlain]

theorem isPlain_unsignZeros : b.unsignZeros.isPlain = b.isPlain := by
  rw [isPlain, lowerIsPlain_unsignZeros, upperIsPlain_unsignZeros, isPlain]

theorem shape_unsignZeros : b.unsignZeros.shape = b.shape := by
  rw [shape, lowerIsFree_unsignZeros, upperIsFree_unsignZeros, isZero_lower_unsignZeros,
    isZero_upper_unsignZeros, shape]

end Bounds

theorem firstMisplaced_unsignZeros (position : Nat) (vars : List Variable) :
    firstMisplaced position (vars.map Variable.unsignZeros) = firstMisplaced position vars := by
  induction vars generalizing position with
  | nil => rfl
  | cons v rest ih =>
      rw [List.map_cons, firstMisplaced, firstMisplaced, ih]
      rfl

variable [Term τ]

theorem firstCellDefect_unsignZero (rows columns previous : Nat) (cells : List (Cell τ)) :
    firstCellDefect rows columns previous (cells.map Cell.unsignZero)
      = firstCellDefect rows columns previous cells := by
  induction cells generalizing previous with
  | nil => rfl
  | cons cell rest ih =>
      rw [List.map_cons, firstCellDefect, firstCellDefect, ih]
      rfl

namespace RowStore

omit [Term τ] in
theorem size_unsignZeros (s : RowStore τ) : s.unsignZeros.size = s.size :=
  List.length_map _

theorem firstDefect_unsignZeros (s : RowStore τ) (columns : Nat) :
    s.unsignZeros.firstDefect columns = s.firstDefect columns := by
  rw [firstDefect, arraysDefect, size_unsignZeros, unsignZeros, firstCellDefect_unsignZero]
  rfl

omit [Term τ] in
theorem slices_unsignZeros (s : RowStore τ) :
    s.unsignZeros.slices = s.slices.map (List.map Cell.unsignZero) := by
  rw [slices, size_unsignZeros]
  exact slicesFrom_map Cell.unsignZero (fun _ => rfl) s.cells 0 s.size

end RowStore

namespace Model

variable (m : Model τ)

theorem firstDefect_unsignZeros : m.unsignZeros.firstDefect = m.firstDefect := by
  have hobjective : m.unsignZeros.objective.cells.findSome?
        (fun cell => termDefect m.vars.length cell.term)
      = m.objective.cells.findSome? fun cell => termDefect m.vars.length cell.term := by
    simp only [unsignZeros, Objective.unsignZeros, List.findSome?_map, Function.comp_def,
      ObjectiveCell.unsignZero]
  have hlength : m.unsignZeros.vars.length = m.vars.length := List.length_map _
  rw [firstDefect, hlength, hobjective]
  show (firstMisplaced 0 (m.vars.map Variable.unsignZeros)).or
    ((m.constraints.unsignZeros.firstDefect m.vars.length).or _) = _
  rw [firstMisplaced_unsignZeros, RowStore.firstDefect_unsignZeros]
  rfl

omit [Term τ]

theorem isNormalized_unsignZeros : m.unsignZeros.isNormalized = m.isNormalized := by
  simp only [isNormalized, unsignZeros, List.all_map, Function.comp_def, Variable.unsignZeros,
    Bounds.isPlain_unsignZeros]

theorem shapes_unsignZeros :
    m.unsignZeros.vars.map Variable.shape = m.vars.map Variable.shape := by
  rw [unsignZeros, List.map_map]
  exact List.map_congr_left fun v _ => v.bounds.shape_unsignZeros

theorem relax_unsignZeros : m.unsignZeros.relax = m.relax.unsignZeros := by
  simp only [relax, unsignZeros, List.map_map]
  rfl

end Model

/-! ## Normalization -/

namespace Row

def NanFree (row : Row τ) : Prop :=
  (∀ entry ∈ row.cells, entry.2 ≠ .nan) ∧ row.rightSide ≠ .nan

def unsignZeros (row : Row τ) : Row τ :=
  { row with
    cells := row.cells.map fun (term, coefficient) => (term, coefficient.unsignZero)
    rightSide := row.rightSide.unsignZero }

omit [Term τ] in
theorem cellsAt_unsignZeros (row : Row τ) (number : Nat) :
    row.unsignZeros.cellsAt number = (row.cellsAt number).map Cell.unsignZero := by
  rw [cellsAt, unsignZeros, cellsAt, List.map_map, List.map_map]
  rfl

end Row

namespace RowStore

omit [Term τ]

theorem push_unsignZeros (s : RowStore τ) (row : Row τ) :
    (s.push row).unsignZeros = s.unsignZeros.push row.unsignZeros := by
  apply RowStore.ext
  case cells =>
    rw [cells_push, size_unsignZeros, Row.cellsAt_unsignZeros]
    exact List.map_append
  case rightSides => exact List.map_append
  case relations => rfl
  case names => rfl

theorem pushAll_unsignZeros (s : RowStore τ) (rows : List (Row τ)) :
    (s.pushAll rows).unsignZeros = s.unsignZeros.pushAll (rows.map Row.unsignZeros) := by
  induction rows generalizing s with
  | nil => rfl
  | cons row rest ih =>
      show ((s.push row).pushAll rest).unsignZeros = _
      rw [ih, push_unsignZeros]
      rfl

theorem NanFree.push {s : RowStore τ} {row : Row τ} (hs : s.NanFree) (hrow : row.NanFree) :
    (s.push row).NanFree := by
  constructor
  · rw [cells_push, List.forall_mem_append, Row.cellsAt, List.forall_mem_map]
    exact ⟨hs.1, hrow.1⟩
  · rw [RowStore.push, List.forall_mem_append, List.forall_mem_singleton]
    exact ⟨hs.2, hrow.2⟩

theorem NanFree.pushAll {s : RowStore τ} {rows : List (Row τ)} (hs : s.NanFree)
    (hrows : ∀ row ∈ rows, row.NanFree) : (s.pushAll rows).NanFree := by
  induction rows generalizing s with
  | nil => exact hs
  | cons row rest ih =>
      obtain ⟨hrow, hrest⟩ := List.forall_mem_cons.1 hrows
      exact ih (hs.push hrow) hrest

theorem ofRows_unsignZeros (rows : List (Row τ)) :
    (ofRows rows).unsignZeros = ofRows (rows.map Row.unsignZeros) :=
  pushAll_unsignZeros empty rows

end RowStore

namespace Variable

theorem dropBounds_unsignZeros (v : Variable) :
    v.unsignZeros.dropBounds = v.dropBounds.unsignZeros := by
  have hlower := v.bounds.lowerIsPlain_unsignZeros
  have hupper := v.bounds.upperIsPlain_unsignZeros
  have hmissing (negative : Bool) := (Binary64.unsignZero_infinite negative).symm
  simp only [dropBounds, unsignZeros, hlower, hupper]
  simp only [Bounds.unsignZeros, apply_ite Binary64.unsignZero, Binary64.negativeInfinity,
    Binary64.infinity, ← hmissing]

theorem lowerRow_unsignZeros (v : Variable) :
    (v.unsignZeros.lowerRow : Row τ) = v.lowerRow.unsignZeros := by
  have hone : Binary64.one.unsignZero = .one := by decide +kernel
  simp only [lowerRow, Row.unsignZeros, List.map_cons, List.map_nil, hone]
  rfl

theorem upperRow_unsignZeros (v : Variable) :
    (v.unsignZeros.upperRow : Row τ) = v.upperRow.unsignZeros := by
  have hone : Binary64.one.unsignZero = .one := by decide +kernel
  simp only [upperRow, Row.unsignZeros, List.map_cons, List.map_nil, hone]
  rfl

theorem boundRows_unsignZeros (v : Variable) :
    (v.unsignZeros.boundRows : List (Row τ)) = v.boundRows.map Row.unsignZeros := by
  have hlower : v.unsignZeros.bounds.lowerIsPlain = v.bounds.lowerIsPlain :=
    v.bounds.lowerIsPlain_unsignZeros
  have hupper : v.unsignZeros.bounds.upperIsPlain = v.bounds.upperIsPlain :=
    v.bounds.upperIsPlain_unsignZeros
  rw [boundRows, boundRows, hlower, hupper, lowerRow_unsignZeros, upperRow_unsignZeros,
    List.map_append, apply_ite (List.map Row.unsignZeros), apply_ite (List.map Row.unsignZeros)]
  rfl

theorem NanFree.dropBounds {v : Variable} (h : v.NanFree) : v.dropBounds.NanFree := by
  have hkept (plain : Bool) (x : Binary64) (negative : Bool) (hx : x ≠ .nan) :
      (if plain then x else .infinite negative) ≠ .nan := by
    cases plain
    · exact Binary64.noConfusion
    · exact hx
  exact ⟨⟨hkept _ _ true h.1.1, hkept _ _ false h.1.2⟩, h.2⟩

theorem NanFree.boundRows {v : Variable} (h : v.NanFree) :
    ∀ row ∈ (v.boundRows : List (Row τ)), row.NanFree := by
  have hone : Binary64.one ≠ .nan := by decide +kernel
  have hrow (relation : Relation) (rightSide : Binary64) (name : String) (hr : rightSide ≠ .nan) :
      (⟨[(Term.linear v.index, .one)], relation, rightSide, name⟩ : Row τ).NanFree :=
    ⟨by simpa using hone, hr⟩
  intro row hmem
  rcases List.mem_append.1 hmem with hlower | hupper
  · split at hlower
    · cases hlower
    · rw [List.mem_singleton.1 hlower]
      exact hrow _ _ _ h.1.1
  · split at hupper
    · cases hupper
    · rw [List.mem_singleton.1 hupper]
      exact hrow _ _ _ h.1.2

end Variable

namespace Model

theorem normalize_unsignZeros (m : Model τ) : m.unsignZeros.normalize = m.normalize.unsignZeros := by
  have hrows : (m.unsignZeros.boundRows : List (Row τ)) = m.boundRows.map Row.unsignZeros := by
    simp only [boundRows, unsignZeros, List.flatMap_map, List.map_flatMap,
      Variable.boundRows_unsignZeros]
  have hvars : (m.unsignZeros.vars).map Variable.dropBounds
      = (m.vars.map Variable.dropBounds).map Variable.unsignZeros := by
    rw [unsignZeros, List.map_map, List.map_map]
    exact List.map_congr_left fun v _ => v.dropBounds_unsignZeros
  have hstore := RowStore.pushAll_unsignZeros m.constraints m.boundRows
  rw [normalize, hrows, hvars]
  show (⟨m.name, _, m.constraints.unsignZeros.pushAll _, m.objective.unsignZeros⟩ : Model τ) = _
  rw [← hstore]
  rfl

variable {m n : Model τ}

theorem NanFree.normalize (h : m.NanFree) : m.normalize.NanFree := by
  obtain ⟨hvars, hrows, hcosts⟩ := nanFree_iff.1 h
  refine nanFree_iff.2 ⟨?_, hrows.pushAll ?_, hcosts⟩
  · exact List.forall_mem_map.2 fun v hv => (hvars v hv).dropBounds
  · exact List.forall_mem_flatMap.2 fun v hv => (hvars v hv).boundRows

omit [Term τ] in
theorem NanFree.relax (h : m.NanFree) : m.relax.NanFree := by
  obtain ⟨hvars, hrows, hcosts⟩ := nanFree_iff.1 h
  exact nanFree_iff.2 ⟨List.forall_mem_map.2 hvars, hrows, hcosts⟩

/-- What does not read the signs of zeros is the same for models that agree. -/
theorem indiscernible_of_agrees [DecidableEq τ] (h : m.agrees n = true) : m.Indiscernible n := by
  obtain ⟨hnan, heq⟩ := agrees_iff.1 h
  constructor
  case firstDefect => rw [← m.firstDefect_unsignZeros, heq, n.firstDefect_unsignZeros]
  case isNormalized => rw [← m.isNormalized_unsignZeros, heq, n.isNormalized_unsignZeros]
  case shapes => rw [← m.shapes_unsignZeros, heq, n.shapes_unsignZeros]
  case slices =>
    rw [agreeAll_iff (agreeAll_iff Cell.agrees_iff)]
    constructor
    · intro slice hslice cell hcell
      have hmem := (RowStore.flatten_slices_front m.constraints).subset
        (List.mem_flatten.2 ⟨slice, hslice, hcell⟩)
      exact hnan.coefficients cell hmem
    · rw [← RowStore.slices_unsignZeros, ← RowStore.slices_unsignZeros]
      exact congrArg (fun u => u.constraints.slices) heq
  case normalize =>
    rw [agrees_iff, ← normalize_unsignZeros, heq, normalize_unsignZeros]
    exact ⟨hnan.normalize, rfl⟩
  case relax =>
    rw [agrees_iff, ← relax_unsignZeros, heq, relax_unsignZeros]
    exact ⟨hnan.relax, rfl⟩

end Model

end SparseProgram
