import SparseProgram.Model.Reversal
import SparseProgram.Proofs.Duality.Homogeneous
import SparseProgram.Proofs.Duality.Precondition
import SparseProgram.Proofs.Number.Negation

/-!
# Duals of reversed models

The dual of a reversed model is the dual of the model with all points negated: the two halves of
the tables of relations and bounds describe the same programs.
-/

namespace SparseProgram

/-! ## Mirrored conditions -/

theorem Relation.holds_mirror_neg_iff {relation : Relation} {q : Rat} {a b : Binary64}
    (h : a.sameNumber (-b) = true) : relation.mirror.Holds (-q) a ↔ relation.Holds q b := by
  have hbelow : a.BelowRat (-q) ↔ b.AboveRat q :=
    (Binary64.belowRat_congr h).trans Binary64.belowRat_neg_iff
  have habove : a.AboveRat (-q) ↔ b.BelowRat q :=
    (Binary64.aboveRat_congr h).trans Binary64.aboveRat_neg_iff
  cases relation with
  | lessEqual => exact hbelow
  | greaterEqual => exact habove
  | equal =>
      show a.AboveRat (-q) ∧ a.BelowRat (-q) ↔ b.AboveRat q ∧ b.BelowRat q
      rw [hbelow, habove, and_comm]

theorem Bounds.contains_neg_iff {a b : Bounds} (h : a.agrees b.mirror = true) {q : Rat} :
    a.Contains (-q) ↔ b.Contains q := by
  obtain ⟨hlower, hupper⟩ := Bool.and_eq_true_iff.1 h
  have hbelow : a.lower.BelowRat (-q) ↔ b.upper.AboveRat q :=
    (Binary64.belowRat_congr hlower).trans Binary64.belowRat_neg_iff
  have habove : a.upper.AboveRat (-q) ↔ b.lower.BelowRat q :=
    (Binary64.aboveRat_congr hupper).trans Binary64.aboveRat_neg_iff
  rw [Contains, Contains, hbelow, habove, and_comm]

theorem rowValue_neg (y : Point) (cells : List (Cell Nat)) :
    rowValue (-y) cells = -rowValue y cells :=
  (linearForm cells (·.coefficient.value) (·.term)).map_neg y

namespace Model

theorem objectiveValue_neg (m : Model Nat) (y : Point) :
    m.objectiveValue (-y) = -m.objectiveValue y :=
  (linearForm m.objective.cells (·.coefficient.value) (·.term)).map_neg y

variable {n m : Model Nat}

namespace IsMirrorOf

theorem forall₂_lines (h : n.IsMirrorOf m) :
    List.Forall₂
      (fun a b => a.1 = b.1 ∧ a.2.1 = b.2.1.mirror ∧ a.2.2.sameNumber (-b.2.2) = true)
      n.constraints.lines m.constraints.lines := by
  have hsize : n.constraints.size = m.constraints.size := h.rightSides.length_eq
  have hslices : n.constraints.slices = m.constraints.slices := by
    rw [RowStore.slices, RowStore.slices, h.cells, hsize]
  have hrelations : List.Forall₂ (fun a b => a = b.mirror)
      n.constraints.relations m.constraints.relations := by
    rw [h.relations, List.forall₂_map_left_iff, List.forall₂_same]
    intro relation _
    rfl
  have heach : List.Forall₂ (· = ·) n.constraints.slices m.constraints.slices := by
    rw [hslices, List.forall₂_eq_eq_eq]
  exact forall₂_zip heach (forall₂_zip hrelations h.rightSides)

theorem satisfies_neg_iff (h : n.IsMirrorOf m) {y : Point} :
    n.constraints.Satisfies (-y) ↔ m.constraints.Satisfies y := by
  apply forall_iff_of_forall₂ h.forall₂_lines
  rintro line - line' ⟨hcells, hrelation, hside⟩
  rw [hcells, hrelation, rowValue_neg]
  exact Relation.holds_mirror_neg_iff hside

theorem feasible_neg_iff (h : n.IsMirrorOf m) {y : Point} : n.Feasible (-y) ↔ m.Feasible y := by
  have hvars : (∀ v ∈ n.vars, v.bounds.Contains ((-y) v.index))
      ↔ ∀ v ∈ m.vars, v.bounds.Contains (y v.index) := by
    apply forall_iff_of_forall₂ h.vars
    rintro w - v hmirror
    rw [hmirror.index]
    exact Bounds.contains_neg_iff hmirror.bounds
  rw [Feasible, Feasible, h.satisfies_neg_iff, hvars]

theorem objectiveValue_neg (h : n.IsMirrorOf m) (y : Point) :
    n.objectiveValue (-y) = -m.objectiveValue y := by
  rw [Model.objectiveValue_neg, objectiveValue, objectiveValue, h.costs]

end IsMirrorOf

end Model

/-! ## Tables -/

namespace Sense

theorem dualRelation_reverse (sense : Sense) (shape : BoundShape) :
    sense.reverse.dualRelation shape = (sense.dualRelation shape).map Relation.mirror := by
  cases sense <;> cases shape <;> rfl

theorem dualBounds_reverse (sense : Sense) (relation : Relation) :
    (sense.reverse.dualBounds relation).agrees (sense.dualBounds relation).mirror = true := by
  cases sense <;> cases relation <;> decide +kernel

end Sense

namespace Model

variable {m : Model Nat} {e : DualError}

/-! ## Failures -/

theorem firstDefect_reversed (m : Model Nat) : m.reversed.firstDefect = m.firstDefect := by
  simp only [firstDefect, reversed, List.findSome?_map, Function.comp_def]

/-- Which failure a model is due can be told from its first defect and its variables. -/
theorem DualFailsWith.congr {n : Model Nat} (h : m.DualFailsWith e)
    (hdefect : n.firstDefect = m.firstDefect) (hvars : n.vars = m.vars) : n.DualFailsWith e := by
  cases h with
  | invalid defect hinvalid => exact .invalid defect (hdefect.trans hinvalid)
  | fixedAtZero v hvalid hfirst hfixed =>
      exact .fixedAtZero v (hdefect.trans hvalid) (hvars ▸ hfirst) hfixed
  | notNormalized v hvalid hfirst hfixed =>
      exact .notNormalized v (hdefect.trans hvalid) (hvars ▸ hfirst) hfixed

theorem dual_reversed_eq_error_iff : m.reversed.dual = .error e ↔ m.dual = .error e := by
  rw [dual_eq_error_iff, dual_eq_error_iff]
  constructor
  · intro h
    exact h.congr m.firstDefect_reversed.symm rfl
  · intro h
    exact h.congr m.firstDefect_reversed rfl

/-! ## Duals -/

section Costs

variable (hnumbers : ∀ cell ∈ m.objective.cells, cell.coefficient ≠ .nan)
  (honce : (m.objective.cells.map (·.term)).Nodup)

include hnumbers honce

/-- A column's cost is negated: it is zero, or one coefficient added to zero. -/
theorem cost_reversed (j : Nat) : (m.reversed.cost j).sameNumber (-m.cost j) = true := by
  have hfilter : m.reversed.objective.cells.filter (·.term == j)
      = (m.objective.cells.filter (·.term == j)).map fun cell =>
          { cell with coefficient := -cell.coefficient } := List.filter_map
  rw [cost, cost, hfilter]
  rcases filter_key_of_nodup honce j with hnone | ⟨cell, hone⟩
  · rw [hnone]
    decide +kernel
  · have hmem : cell ∈ m.objective.cells.filter (·.term == j) := by simp [hone]
    have hnumber := hnumbers cell (List.mem_filter.1 hmem).1
    have hnegated : (Binary64.zero + -cell.coefficient).sameNumber (-cell.coefficient) = true :=
      Binary64.sameNumber_zero_add (Binary64.neg_ne_nan_iff.2 hnumber)
    have hcost : (-cell.coefficient).sameNumber (-(Binary64.zero + cell.coefficient)) = true := by
      rw [Binary64.sameNumber_comm, Binary64.sameNumber_neg_iff]
      exact Binary64.sameNumber_zero_add hnumber
    rw [hone]
    exact Binary64.sameNumber_trans hnegated hcost

theorem isMirrorOf_transpose_reversed (hm : m.WellFormed) :
    m.reversed.transpose.IsMirrorOf m.transpose := by
  have hreversed : m.reversed.WellFormed := by
    rwa [← firstDefect_eq_none_iff, firstDefect_reversed, firstDefect_eq_none_iff]
  constructor
  case name => rfl
  case vars =>
    show List.Forall₂ _ m.reversed.dualVariables m.dualVariables
    apply forall₂_mapIdx (List.forall₂_same.2 fun _ _ => rfl)
    rintro i entry - rfl
    exact ⟨rfl, m.objective.sense.dualBounds_reverse entry.1, rfl, rfl, rfl⟩
  case cells =>
    rw [cells_transpose hreversed, cells_transpose hm]
    rfl
  case relations =>
    rw [relations_transpose, relations_transpose, List.map_map]
    apply List.map_congr_left
    intro v _
    show (m.objective.sense.reverse.dualRelation v.shape).getD Relation.equal.mirror = _
    rw [Sense.dualRelation_reverse, Option.getD_map]
    rfl
  case rightSides =>
    rw [rightSides_transpose, rightSides_transpose]
    apply forall₂_mapIdx (List.forall₂_same.2 fun _ _ => rfl)
    intro j _ _ _
    exact cost_reversed hnumbers honce j
  case rowNames =>
    rw [rowNames_transpose, rowNames_transpose]
    rfl
  case sense => rfl
  case costs => rfl

end Costs

/-- Reversing a model does not change whether or why its dual fails. Where there is a dual, it is
mirrored: negated points are feasible for it in place of points, with the negated value. -/
theorem dual_reversed_mirrors {m : Model Nat}
    (hnumbers : ∀ cell ∈ m.objective.cells, cell.coefficient ≠ .nan)
    (honce : (m.objective.cells.map (·.term)).Nodup) :
    (∀ e, m.reversed.dual = .error e ↔ m.dual = .error e)
      ∧ ∀ d n, m.dual = .ok d → m.reversed.dual = .ok n →
        n.IsMirrorOf d
          ∧ ∀ y : Point, (n.Feasible (-y) ↔ d.Feasible y)
            ∧ n.objectiveValue (-y) = -d.objectiveValue y := by
  refine ⟨fun _ => dual_reversed_eq_error_iff, ?_⟩
  intro d n hd hn
  obtain ⟨hm, rfl⟩ := dual_eq_ok_iff.1 hd
  obtain ⟨-, rfl⟩ := dual_eq_ok_iff.1 hn
  have hmirror := isMirrorOf_transpose_reversed hnumbers honce hm.1
  exact ⟨hmirror, fun y => ⟨hmirror.feasible_neg_iff, hmirror.objectiveValue_neg y⟩⟩

def levers (last : Bounds) : Model Nat where
  name := "levers"
  vars :=
    [⟨0, .free, .continuous, "a", none⟩,
      ⟨1, ⟨.zero, .infinity⟩, .binary, "b", none⟩,
      ⟨2, last, .continuous, "c", some .one⟩]
  constraints :=
    .ofRows
      [⟨[(0, .one), (1, .one)], .lessEqual, .ofInt 4, "cap"⟩,
        ⟨[(0, .one), (2, .one)], .greaterEqual, .one, "floor"⟩,
        ⟨[(2, .one), (1, .one)], .equal, -.zero, "tie"⟩]
  objective := ⟨.minimum, [⟨2, -.zero⟩, ⟨0, .ofInt 2⟩]⟩

def leversPoint : Point :=
  fun row => [-1, 3, 0].getD row 0

theorem dual_reversed_mirrors_levers :
    (∃ d n, (levers ⟨.negativeInfinity, -.zero⟩).dual = .ok d
        ∧ (levers ⟨.negativeInfinity, -.zero⟩).reversed.dual = .ok n
        ∧ n.IsMirrorOf d
        ∧ n.constraints.relations = [.equal, .greaterEqual, .lessEqual]
        ∧ n.Feasible (-leversPoint) ∧ n.objectiveValue (-leversPoint) = 1)
      ∧ (levers ⟨.one, .nan⟩).reversed.dual = .error (.notNormalized "c" ⟨.one, .nan⟩) := by
  obtain ⟨-, hmirrors⟩ := dual_reversed_mirrors (m := levers ⟨.negativeInfinity, -.zero⟩)
    (by decide +kernel) (by decide)
  obtain ⟨hfails, -⟩ := dual_reversed_mirrors (m := levers ⟨.one, .nan⟩)
    (by decide +kernel) (by decide)
  have hdual : (levers ⟨.negativeInfinity, -.zero⟩).dual
      = .ok (levers ⟨.negativeInfinity, -.zero⟩).transpose := by decide +kernel
  have hreversed : (levers ⟨.negativeInfinity, -.zero⟩).reversed.dual
      = .ok (levers ⟨.negativeInfinity, -.zero⟩).reversed.transpose := by decide +kernel
  obtain ⟨hmirror, hpoints⟩ := hmirrors _ _ hdual hreversed
  refine ⟨⟨_, _, hdual, hreversed, hmirror, by decide +kernel, ?_, ?_⟩, ?_⟩
  · exact (hpoints leversPoint).1.2 (by decide +kernel)
  · rw [(hpoints leversPoint).2]
    decide +kernel
  · exact (hfails _).2 (by decide +kernel)

end Model

end SparseProgram
