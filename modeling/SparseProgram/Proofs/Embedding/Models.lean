import SparseProgram.Model.Embedding
import SparseProgram.Model.Passes
import SparseProgram.Proofs.RowStore.Slices

/-!
# Models with other terms

Terms replaced by terms of the same columns: slices and defects stay, and the transformations of a
model do not see the replacement.
-/

namespace SparseProgram

variable {τ σ : Type} {f : τ → σ}

/-! ## Rows -/

namespace Row

def mapTerms (f : τ → σ) (row : Row τ) : Row σ :=
  ⟨row.cells.map fun (term, coefficient) => (f term, coefficient), row.relation, row.rightSide,
    row.name⟩

theorem cellsAt_mapTerms (f : τ → σ) (row : Row τ) (number : Nat) :
    (row.mapTerms f).cellsAt number = (row.cellsAt number).map (Cell.mapTerm f) := by
  rw [cellsAt, mapTerms, cellsAt, List.map_map, List.map_map]
  rfl

end Row

namespace RowStore

theorem slices_mapTerms (f : τ → σ) (s : RowStore τ) :
    (s.mapTerms f).slices = s.slices.map (List.map (Cell.mapTerm f)) :=
  slicesFrom_map (Cell.mapTerm f) (fun _ => rfl) s.cells 0 s.size

theorem push_mapTerms (f : τ → σ) (s : RowStore τ) (row : Row τ) :
    (s.push row).mapTerms f = (s.mapTerms f).push (row.mapTerms f) := by
  have hcells : (s.push row).cells.map (Cell.mapTerm f)
      = ((s.mapTerms f).push (row.mapTerms f)).cells := by
    rw [cells_push, cells_push, List.map_append, Row.cellsAt_mapTerms]
    rfl
  exact RowStore.ext hcells rfl rfl rfl

theorem pushAll_mapTerms (f : τ → σ) (s : RowStore τ) (rows : List (Row τ)) :
    (s.pushAll rows).mapTerms f = (s.mapTerms f).pushAll (rows.map (Row.mapTerms f)) := by
  induction rows generalizing s with
  | nil => rfl
  | cons row rest ih =>
      show ((s.push row).pushAll rest).mapTerms f = _
      rw [ih, push_mapTerms]
      rfl

theorem ofRows_mapTerms (f : τ → σ) (rows : List (Row τ)) :
    (ofRows rows).mapTerms f = ofRows (rows.map (Row.mapTerms f)) :=
  pushAll_mapTerms f empty rows

end RowStore

theorem Model.mapTerms_id : (Model.mapTerms id : Model τ → Model τ) = id := by
  have hcells (cells : List (Cell τ)) : cells.map (Cell.mapTerm id) = cells := List.map_id cells
  have hcosts (cells : List (ObjectiveCell τ)) :
      cells.map (fun cell => ⟨id cell.term, cell.coefficient⟩) = cells := List.map_id cells
  funext m
  rw [mapTerms, RowStore.mapTerms, Objective.mapTerms, hcells, hcosts]
  rfl

/-! ## Terms of the same columns -/

variable [Term τ] [Term σ]

/-- The columns of a term stay when it is replaced. -/
def KeepsColumns (f : τ → σ) : Prop :=
  ∀ t, Term.columns (f t) = Term.columns t

namespace KeepsColumns

theorem map_linear (hf : KeepsColumns f) (column : Nat) :
    f (Term.linear column) = Term.linear column := by
  apply Term.columns_injective
  rw [hf, Term.columns_linear, Term.columns_linear]

theorem columnList_map (hf : KeepsColumns f) (t : τ) :
    Term.columnList (f t) = Term.columnList t := by
  rw [Term.columnList, Term.columnList, hf]

theorem compare_map (hf : KeepsColumns f) (s t : τ) :
    Term.compare (f s) (f t) = Term.compare s t := by
  rw [Term.compare, Term.compare, hf, hf]

/-! ## Defects -/

theorem termDefect_map (hf : KeepsColumns f) (columns : Nat) (t : τ) :
    termDefect columns (f t) = termDefect columns t := by
  rw [termDefect, termDefect, hf.columnList_map]

theorem cellDefect_map (hf : KeepsColumns f) (rows columns previous : Nat) (cell : Cell τ) :
    cellDefect rows columns previous (cell.mapTerm f)
      = cellDefect rows columns previous cell := by
  simp only [cellDefect, Cell.mapTerm, hf.termDefect_map]

theorem firstCellDefect_map (hf : KeepsColumns f) (rows columns previous : Nat)
    (cells : List (Cell τ)) :
    firstCellDefect rows columns previous (cells.map (Cell.mapTerm f))
      = firstCellDefect rows columns previous cells := by
  induction cells generalizing previous with
  | nil => rfl
  | cons cell rest ih =>
      rw [List.map_cons, firstCellDefect, firstCellDefect, hf.cellDefect_map, ih]
      rfl

theorem firstDefect_mapTerms (hf : KeepsColumns f) (m : Model τ) :
    (m.mapTerms f).firstDefect = m.firstDefect := by
  have hrows : (m.constraints.mapTerms f).firstDefect m.vars.length
      = m.constraints.firstDefect m.vars.length := by
    rw [RowStore.firstDefect, RowStore.firstDefect]
    exact congrArg _ (hf.firstCellDefect_map _ _ 0 m.constraints.cells)
  have hobjective : (m.mapTerms f).objective.cells.findSome?
        (fun cell => termDefect m.vars.length cell.term)
      = m.objective.cells.findSome? fun cell => termDefect m.vars.length cell.term := by
    simp only [Model.mapTerms, Objective.mapTerms, List.findSome?_map, Function.comp_def,
      hf.termDefect_map]
  show (firstMisplaced 0 m.vars).or
    (((m.constraints.mapTerms f).firstDefect m.vars.length).or
      ((m.mapTerms f).objective.cells.findSome? fun cell => termDefect m.vars.length cell.term)) = _
  rw [hrows, hobjective]
  rfl

/-! ## Transformations -/

theorem boundRows_map (hf : KeepsColumns f) (v : Variable) :
    (v.boundRows : List (Row τ)).map (Row.mapTerms f) = v.boundRows := by
  have hterm := hf.map_linear v.index
  unfold Variable.boundRows
  cases v.bounds.lowerIsPlain <;> cases v.bounds.upperIsPlain <;>
    simp [Variable.lowerRow, Variable.upperRow, Row.mapTerms, hterm]

theorem normalize_mapTerms (hf : KeepsColumns f) (m : Model τ) :
    (m.mapTerms f).normalize = m.normalize.mapTerms f := by
  have hrows : (m.mapTerms f).boundRows = m.boundRows.map (Row.mapTerms f) := by
    simp only [Model.boundRows, Model.mapTerms, List.map_flatMap, hf.boundRows_map]
  rw [Model.normalize, hrows]
  show (⟨m.name, _, (m.constraints.mapTerms f).pushAll _, _⟩ : Model σ) = _
  rw [← RowStore.pushAll_mapTerms]
  rfl

end KeepsColumns

omit [Term τ] [Term σ] in
theorem Model.relax_mapTerms (f : τ → σ) (m : Model τ) :
    (m.mapTerms f).relax = m.relax.mapTerms f :=
  rfl

end SparseProgram
