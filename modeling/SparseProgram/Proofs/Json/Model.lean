import SparseProgram.Model.Readable
import SparseProgram.Proofs.Json.Codec

/-!
# Reading models back

A model is read back from its JSON text if all numbers that must be there are finite. All of it is
kept, except for current values that are not finite.
-/

namespace SparseProgram

open JsonCodec

/-! ## Variables -/

theorem readsBack_kind : ReadsBack VariableKind (fun _ => True) id :=
  readsBack_named VariableKind.ofName?_name

theorem readsBack_relation : ReadsBack Relation (fun _ => True) id :=
  readsBack_named fun relation => by cases relation <;> decide

theorem readsBack_sense : ReadsBack Sense (fun _ => True) id :=
  readsBack_named fun sense => by cases sense <;> decide

theorem Variable.readsBack :
    ReadsBack Variable
      (fun v => v.index < indexLimit ∧ v.bounds.lower.isFinite = true
        ∧ v.bounds.upper.isFinite = true)
      withFiniteValue where
  printable v := printable_object (by
    simp [readsBack_index.printable, readsBack_number.printable, readsBack_kind.printable,
      readsBack_text.printable, readsBack_optionalNumber.printable])
  decode?_encode v b := by
    have hfields : fields? ["index", "lower_bound", "upper_bound", "kind", "name", "value"] v.encode
        = some _ := fields?_object (by simp)
    show decode? v.encode = some b ↔ _
    rw [decode?, hfields]
    simp [readsBack_index.required?_bind, readsBack_number.required?_bind,
      readsBack_kind.required?_bind, readsBack_text.required?_bind, optionalNumber_bind,
      withFiniteValue, and_assoc, @eq_comm _ b]

/-! ## Terms -/

theorem readsBack_column : ReadsBack Nat (Term.Fits ·) id where
  printable := readsBack_index.printable
  decode?_encode column b := by
    rw [readsBack_index.decode?_encode]
    simp [Term.Fits, Term.columnList, Term.columns]

theorem QuadraticTerm.readsBack : ReadsBack QuadraticTerm (Term.Fits ·) id where
  printable term := by
    have hindex : ∀ n, (Json.ofNat n).Printable := fun n => .int n
    cases term with
    | linear column =>
        exact printable_object (by simpa using printable_object (by simp [hindex]))
    | product first second =>
        exact printable_object (by simpa using printable_object (by simp [hindex]))
  decode?_encode term b := by
    cases term with
    | linear column =>
        have hfields : fields? ["col"] (.object [("col", JsonCodec.encode column)]) = some _ :=
          fields?_object (by simp)
        show decode? (.obj [(some "Linear", .object [("col", JsonCodec.encode column)])]) = _ ↔ _
        rw [decode?, hfields]
        simp [readsBack_index.required?_bind, Term.Fits, Term.columnList, Term.columns, columns,
          @eq_comm _ b]
    | product first second =>
        have hfields : fields? ["col1", "col2"] (.object
            [("col1", JsonCodec.encode first), ("col2", JsonCodec.encode second)]) = some _ :=
          fields?_object (by simp)
        show decode? (.obj [(some "Quadratic", .object
          [("col1", JsonCodec.encode first), ("col2", JsonCodec.encode second)])]) = _ ↔ _
        rw [decode?, hfields]
        simp [readsBack_index.required?_bind, Term.Fits, Term.columnList, Term.columns, columns,
          and_assoc, @eq_comm _ b]

/-! ## Rows and objectives -/

variable {τ : Type} [JsonCodec τ] {Q : τ → Prop}

theorem Cell.readsBack (hterm : ReadsBack τ Q id) :
    ReadsBack (Cell τ)
      (fun cell => cell.row < indexLimit ∧ Q cell.term ∧ cell.coefficient.isFinite = true) id where
  printable cell := printable_object (by
    simp [readsBack_index.printable, hterm.printable, readsBack_number.printable])
  decode?_encode cell b := by
    have hfields : fields? ["row", "term", "coefficient"] cell.encode = some _ :=
      fields?_object (by simp)
    show decode? cell.encode = some b ↔ _
    rw [decode?, hfields]
    simp [readsBack_index.required?_bind, hterm.required?_bind,
      readsBack_number.required?_bind, and_assoc, @eq_comm _ b]

theorem ObjectiveCell.readsBack (hterm : ReadsBack τ Q id) :
    ReadsBack (ObjectiveCell τ)
      (fun cell => Q cell.term ∧ cell.coefficient.isFinite = true) id where
  printable cell := printable_object (by simp [hterm.printable, readsBack_number.printable])
  decode?_encode cell b := by
    have hfields : fields? ["term", "coefficient"] cell.encode = some _ :=
      fields?_object (by simp)
    show decode? cell.encode = some b ↔ _
    rw [decode?, hfields]
    simp [hterm.required?_bind, readsBack_number.required?_bind, and_assoc, @eq_comm _ b]

theorem RowStore.readsBack (hterm : ReadsBack τ Q id) :
    ReadsBack (RowStore τ)
      (fun s => (∀ cell ∈ s.cells,
          cell.row < indexLimit ∧ Q cell.term ∧ cell.coefficient.isFinite = true)
        ∧ ∀ rightSide ∈ s.rightSides, rightSide.isFinite = true) id where
  printable s := printable_object (by
    simp [(Cell.readsBack hterm).list.printable, readsBack_relation.list.printable,
      readsBack_number.list.printable, readsBack_text.list.printable])
  decode?_encode s b := by
    have hfields : fields? ["lhs", "signs", "rhs", "names"] s.encode = some _ :=
      fields?_object (by simp)
    show decode? s.encode = some b ↔ _
    rw [decode?, hfields]
    simp [(Cell.readsBack hterm).list_id.required?_bind, readsBack_relation.list_id.required?_bind,
      readsBack_number.list_id.required?_bind, readsBack_text.list_id.required?_bind, and_assoc,
      @eq_comm _ b]

theorem Objective.readsBack (hterm : ReadsBack τ Q id) :
    ReadsBack (Objective τ)
      (fun o => ∀ cell ∈ o.cells, Q cell.term ∧ cell.coefficient.isFinite = true) id where
  printable o := printable_object (by
    simp [readsBack_sense.printable, (ObjectiveCell.readsBack hterm).list.printable])
  decode?_encode o b := by
    have hfields : fields? ["category", "cells"] o.encode = some _ :=
      fields?_object (by simp)
    show decode? o.encode = some b ↔ _
    rw [decode?, hfields]
    simp [readsBack_sense.required?_bind, (ObjectiveCell.readsBack hterm).list_id.required?_bind,
      @eq_comm _ b]

/-! ## Models -/

namespace Model

variable [Term τ]

omit [JsonCodec τ] in
theorem indicesFit_and_hasFiniteNumbers_iff {m : Model τ} :
    (m.IndicesFit ∧ m.HasFiniteNumbers)
      ↔ (∀ v ∈ m.vars, v.index < indexLimit ∧ v.bounds.lower.isFinite = true
          ∧ v.bounds.upper.isFinite = true)
        ∧ ((∀ cell ∈ m.constraints.cells,
            cell.row < indexLimit ∧ Term.Fits cell.term ∧ cell.coefficient.isFinite = true)
          ∧ ∀ rightSide ∈ m.constraints.rightSides, rightSide.isFinite = true)
        ∧ ∀ cell ∈ m.objective.cells, Term.Fits cell.term ∧ cell.coefficient.isFinite = true := by
  constructor
  · rintro ⟨⟨hvars, hcells, hobjective⟩, hbounds, hcoefficients, hrightSides, hobjective'⟩
    exact ⟨fun v hv => ⟨hvars v hv, hbounds v hv⟩,
      ⟨fun cell hcell =>
        ⟨(hcells cell hcell).1, (hcells cell hcell).2, hcoefficients cell hcell⟩, hrightSides⟩,
      fun cell hcell => ⟨hobjective cell hcell, hobjective' cell hcell⟩⟩
  · rintro ⟨hvars, ⟨hcells, hrightSides⟩, hobjective⟩
    exact ⟨⟨fun v hv => (hvars v hv).1,
        fun cell hcell => ⟨(hcells cell hcell).1, (hcells cell hcell).2.1⟩,
        fun cell hcell => (hobjective cell hcell).1⟩,
      fun v hv => (hvars v hv).2, fun cell hcell => (hcells cell hcell).2.2, hrightSides,
      fun cell hcell => (hobjective cell hcell).2⟩

theorem printable_encode (hterm : ReadsBack τ (Term.Fits ·) id) (m : Model τ) :
    m.encode.Printable :=
  printable_object (by
    simp [readsBack_text.printable, Variable.readsBack.list.printable,
      (RowStore.readsBack hterm).printable, (Objective.readsBack hterm).printable])

theorem decode?_encode (hterm : ReadsBack τ (Term.Fits ·) id) (m n : Model τ) :
    decode? m.encode = some n ↔ (m.IndicesFit ∧ m.HasFiniteNumbers) ∧ n = m.withFiniteValues := by
  have hfields : fields? ["name", "variables", "constraints", "objective"] m.encode = some _ :=
    fields?_object (by simp)
  rw [indicesFit_and_hasFiniteNumbers_iff, decode?, hfields]
  simp [readsBack_text.required?_bind, Variable.readsBack.list.required?_bind,
    (RowStore.readsBack hterm).required?_bind, (Objective.readsBack hterm).required?_bind,
    withFiniteValues, and_assoc, @eq_comm _ n]

theorem ofJsonText?_eq_some_iff (hterm : ReadsBack τ (Term.Fits ·) id) (m n : Model τ) :
    ofJsonText? m.toJsonText = some n
      ↔ (m.IndicesFit ∧ m.HasFiniteNumbers) ∧ n = m.withFiniteValues := by
  rw [ofJsonText?, toJsonText, Json.parse?_compress (printable_encode hterm m), Option.bind_some,
    decode?_encode hterm]

theorem reads_back_iff (hterm : ReadsBack τ (Term.Fits ·) id) {m : Model τ} (hfit : m.IndicesFit) :
    ((∃ n : Model τ, ofJsonText? m.toJsonText = some n) ↔ m.HasFiniteNumbers)
      ∧ ∀ n : Model τ, ofJsonText? m.toJsonText = some n → n = m.withFiniteValues := by
  simp only [ofJsonText?_eq_some_iff hterm]
  constructor
  · constructor
    · rintro ⟨n, ⟨-, hfinite⟩, -⟩
      exact hfinite
    · intro hfinite
      exact ⟨_, ⟨hfit, hfinite⟩, rfl⟩
  · rintro n ⟨-, hn⟩
    exact hn

/-- Linear and quadratic models, well formed or not, are read back from their JSON text if and only
if all bounds, coefficients and right sides are finite. Then nothing but current values that are
not finite is lost: names, the order of cells and the signs of zeros are kept. -/
theorem json_text_round_trip :
    (∀ m : Model Nat, m.IndicesFit →
        ((∃ n : Model Nat, ofJsonText? m.toJsonText = some n) ↔ m.HasFiniteNumbers)
          ∧ ∀ n : Model Nat, ofJsonText? m.toJsonText = some n → n = m.withFiniteValues)
      ∧ ∀ m : Model QuadraticTerm, m.IndicesFit →
        ((∃ n : Model QuadraticTerm, ofJsonText? m.toJsonText = some n) ↔ m.HasFiniteNumbers)
          ∧ ∀ n : Model QuadraticTerm, ofJsonText? m.toJsonText = some n →
            n = m.withFiniteValues :=
  ⟨fun _ hfit => reads_back_iff readsBack_column hfit,
    fun _ hfit => reads_back_iff QuadraticTerm.readsBack hfit⟩

def blend : Model QuadraticTerm where
  name := "blend \"A\"\t1"
  vars :=
    [⟨7, ⟨-.zero, .ofInt 4⟩, .continuous, "slurry \\ µ", some .infinity⟩,
      ⟨indexLimit - 1, ⟨.zero, .one⟩, .binary, "on", some (-.zero)⟩]
  constraints :=
    ⟨[⟨3, .product 1 0, -.one⟩, ⟨0, .linear 5, .ofInt 2⟩], [.lessEqual], [-.zero, .one], []⟩
  objective := ⟨.maximum, [⟨.product 0 9, .ofInt (-3)⟩]⟩

def unboundedFlow : Model Nat where
  name := "flow"
  vars := [⟨0, ⟨.zero, .infinity⟩, .continuous, "x", none⟩]
  constraints := .ofRows []
  objective := ⟨.minimum, [⟨0, .one⟩]⟩

theorem blend_reads_back :
    ofJsonText? blend.toJsonText = some blend.withFiniteValues
      ∧ blend.withFiniteValues ≠ blend
      ∧ ¬∃ n : Model Nat, ofJsonText? unboundedFlow.toJsonText = some n := by
  obtain ⟨hblend, hkept⟩ := json_text_round_trip.2 blend (by decide +kernel)
  obtain ⟨n, hn⟩ := hblend.2 (by decide +kernel)
  obtain ⟨hflow, -⟩ := json_text_round_trip.1 unboundedFlow (by decide +kernel)
  exact ⟨by rw [hn, hkept n hn], by decide +kernel,
    fun hread => absurd (hflow.1 hread) (by decide +kernel)⟩

end Model

end SparseProgram
