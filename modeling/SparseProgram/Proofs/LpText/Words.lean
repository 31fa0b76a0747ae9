import SparseProgram.LpText.Layout
import SparseProgram.Proofs.LpText.Lines
import SparseProgram.Proofs.Model.WellFormed

/-!
# The words of LP text

The lines of a model, word by word, and that a well-formed model is rendered as exactly these lines.
-/

namespace SparseProgram

/-! ## Renderings that come to an end -/

namespace Rendering

variable {a b : Rendering} {s t : List Char}

def Writes (r : Rendering) (text : List Char) : Prop :=
  r.breaksOff = false ∧ r.pieces.flatMap String.toList = text

theorem writes_nothing : nothing.Writes [] :=
  ⟨rfl, rfl⟩

theorem writes_ofPieces (pieces : List String) :
    (ofPieces pieces).Writes (pieces.flatMap String.toList) :=
  ⟨rfl, rfl⟩

theorem Writes.append (ha : a.Writes s) (hb : b.Writes t) : (a ++ b).Writes (s ++ t) := by
  refine ⟨?_, ?_⟩
  · rw [breaksOff_append, ha.1, hb.1]
    rfl
  · show (Rendering.append a b).pieces.flatMap String.toList = s ++ t
    rw [Rendering.append, ha.1, if_neg Bool.false_ne_true, List.flatMap_append, ha.2, hb.2]

theorem writes_concat {α : Type} {render : α → Rendering} {text : α → List Char} {l : List α}
    (h : ∀ a ∈ l, (render a).Writes (text a)) :
    (concat (l.map render)).Writes (l.flatMap text) := by
  induction l with
  | nil => exact writes_nothing
  | cons a rest ih =>
      rw [List.forall_mem_cons] at h
      exact h.1.append (ih h.2)

theorem Writes.text?_eq {r : Rendering} (h : r.Writes s) : r.text? = some (String.ofList s) := by
  have htext : r.writtenText = String.ofList s := by
    apply String.toList_injective
    rw [writtenText, String.toList_join, h.2, String.toList_ofList]
  rw [text?, h.1, htext]
  rfl

end Rendering

open Rendering

/-! ## Terms -/

/-- The name of a column; empty beyond the last one. -/
def nameAt (names : List String) (column : Nat) : String :=
  names[column]?.getD ""

variable {τ : Type} [Term τ]

def nameWords (names : List String) (term : τ) : List String :=
  ((Term.columnList term).map (nameAt names)).intersperse "*"

def magnitudeWords (magnitude : Binary64) : List String :=
  if magnitude.sameNumber .one then [] else [magnitude.text]

def signWord (coefficient : Binary64) : String :=
  if coefficient.isNegative then "-" else "+"

/-- What follows the sign of a term. -/
def bodyWords (names : List String) (entry : τ × Binary64) : List String :=
  magnitudeWords entry.2.abs ++ nameWords names entry.1

def entryWords (names : List String) (entry : τ × Binary64) : List String :=
  if entry.2.isZero then [] else signWord entry.2 :: bodyWords names entry

theorem nameWords_ne_nil (names : List String) (term : τ) : nameWords names term ≠ [] := by
  unfold nameWords Term.columnList
  cases (Term.columns term).2 <;> simp

theorem flatMap_intersperse (names : List String) :
    (names.intersperse " * ").flatMap String.toList = lineText (names.intersperse "*") := by
  match names with
  | [] => rfl
  | [name] => simp
  | name :: next :: rest =>
      have hrest := flatMap_intersperse (next :: rest)
      have hne : (next :: rest).intersperse "*" ≠ [] := by cases rest <;> simp
      rw [List.intersperse_cons_cons, List.intersperse_cons_cons, List.flatMap_cons,
        List.flatMap_cons, hrest, lineText_cons, spaced_cons, spaced_eq_cons hne]
      simp

theorem mapM_getElem?_of_lt {vars : List Variable} {columns : List Nat}
    (h : ∀ column ∈ columns, column < vars.length) :
    ∃ found, (columns.mapM fun column => vars[column]?) = some found
      ∧ found.map (·.name) = columns.map (nameAt (vars.map (·.name))) := by
  induction columns with
  | nil => exact ⟨[], rfl, rfl⟩
  | cons column rest ih =>
      rw [List.forall_mem_cons] at h
      obtain ⟨found, hfound, hnames⟩ := ih h.2
      refine ⟨vars[column] :: found, ?_, ?_⟩
      · simp [hfound, h.1]
      · simp [hnames, nameAt, h.1]

theorem writes_renderNames {vars : List Variable} {term : τ}
    (h : Term.InRange vars.length term) :
    (renderNames vars (Term.columnList term)).Writes
      (lineText (nameWords (vars.map (·.name)) term)) := by
  obtain ⟨found, hfound, hnames⟩ := mapM_getElem?_of_lt h
  rw [renderNames, hfound, nameWords, ← hnames, ← flatMap_intersperse]
  exact writes_ofPieces _

theorem writes_renderTerm {vars : List Variable} {entry : τ × Binary64}
    (h : Term.InRange vars.length entry.1) :
    (renderTerm vars entry.1 entry.2).Writes (spaced (entryWords (vars.map (·.name)) entry)) := by
  have hnames := writes_renderNames h
  unfold renderTerm entryWords
  split
  · exact writes_nothing
  · -- The blank behind a sign or a magnitude is the one before the next word.
    have hsign := writes_ofPieces [if entry.2.isNegative then " - " else " + "]
    have hmagnitude : (renderMagnitude entry.2.abs).Writes
        (if entry.2.abs.sameNumber .one then [] else entry.2.abs.text.toList ++ [' ']) := by
      unfold renderMagnitude
      split
      · exact writes_nothing
      · simpa using writes_ofPieces [entry.2.abs.text, " "]
    have hall := (hsign.append hmagnitude).append hnames
    have hspaced := spaced_eq_cons (nameWords_ne_nil (vars.map (·.name)) entry.1)
    refine ⟨hall.1, hall.2.trans ?_⟩
    rw [bodyWords, magnitudeWords, signWord]
    cases entry.2.isNegative <;> cases entry.2.abs.sameNumber .one <;> simp [hspaced]

/-! ## Rows -/

def cellWords (names : List String) (entries : List (τ × Binary64)) : List String :=
  entries.flatMap (entryWords names) ++ (if entries.all (·.2.isZero) then ["0"] else [])

def rowLine (names : List String) (row : Row τ) : Line :=
  "" :: (row.name ++ ":")
    :: (cellWords names row.cells ++ [row.relation.symbol, row.rightSide.text])

theorem spaced_flatMap {α : Type} (words : α → List String) (l : List α) :
    spaced (l.flatMap words) = l.flatMap fun a => spaced (words a) :=
  List.flatMap_assoc

theorem writes_terms {vars : List Variable} {entries : List (τ × Binary64)}
    (h : ∀ entry ∈ entries, Term.InRange vars.length entry.1) :
    (concat (entries.map fun entry => renderTerm vars entry.1 entry.2)).Writes
      (spaced (entries.flatMap (entryWords (vars.map (·.name))))) := by
  rw [spaced_flatMap]
  exact writes_concat fun entry hentry => writes_renderTerm (h entry hentry)

namespace RowStore

theorem writes_renderRow {s : RowStore τ} {vars : List Variable} {row : Row τ} {i : Nat}
    (hname : s.names[i]? = some row.name) (hrelation : s.relations[i]? = some row.relation)
    (h : ∀ entry ∈ row.cells, Term.InRange vars.length entry.1) :
    (s.renderRow vars i (row.cellsAt i) row.rightSide).Writes
      (lineText (rowLine (vars.map (·.name)) row) ++ ['\n']) := by
  have hterms := writes_terms h
  have hzero : (if row.cells.all (·.2.isZero) then ofPieces [" 0"] else nothing).Writes
      (spaced (if row.cells.all (·.2.isZero) then ["0"] else [])) := by
    split
    · exact writes_ofPieces [" 0"]
    · exact writes_nothing
  have hfirst := writes_ofPieces [" ", row.name, ":"]
  have hlast := writes_ofPieces [" ", row.relation.symbol, " ", row.rightSide.text, "\n"]
  have hall := (hfirst.append (hterms.append hzero)).append hlast
  have hcells : renderCells vars (row.cellsAt i)
      = concat (row.cells.map fun entry => renderTerm vars entry.1 entry.2)
        ++ (if row.cells.all (·.2.isZero) then ofPieces [" 0"] else nothing) := by
    rw [renderCells, Row.cellsAt, List.map_map, List.all_map]
    rfl
  rw [renderRow, hname, hrelation, hcells]
  refine ⟨hall.1, hall.2.trans ?_⟩
  simp [rowLine, cellWords]

theorem WellFormed.inRange_of_mem_toRows {s : RowStore τ} {columns : Nat}
    (h : s.WellFormed columns) :
    ∀ row ∈ s.toRows, ∀ entry ∈ row.cells, Term.InRange columns entry.1 :=
  wellFormed_ofRows_iff.1 (h.ofRows_toRows.symm ▸ h)

theorem writes_renderRows {rows : List (Row τ)} {vars : List Variable}
    (h : ∀ row ∈ rows, ∀ entry ∈ row.cells, Term.InRange vars.length entry.1) :
    ((ofRows rows).renderRows vars).Writes
      (linesText (rows.map (rowLine (vars.map (·.name))))) := by
  have hlines : (ofRows rows).slices.zip (ofRows rows).rightSides
      = rows.mapIdx fun i row => (row.cellsAt i, row.rightSide) := by
    rw [slices_ofRows, rightSides_ofRows]
    apply List.ext_getElem
    · simp
    · intro i hi hi'
      simp
  have hparts : (ofRows rows).renderRows vars
      = concat (rows.zipIdx.map fun entry =>
          (ofRows rows).renderRow vars entry.2 (entry.1.cellsAt entry.2) entry.1.rightSide) := by
    rw [renderRows, hlines, List.mapIdx_mapIdx, List.mapIdx_eq_zipIdx_map]
    rfl
  have htext : linesText (rows.map (rowLine (vars.map (·.name))))
      = rows.zipIdx.flatMap fun entry =>
          lineText (rowLine (vars.map (·.name)) entry.1) ++ ['\n'] := by
    rw [linesText, List.flatMap_map]
    conv_lhs => rw [← List.zipIdx_map_fst 0 rows, List.flatMap_map]
  rw [hparts, htext]
  apply writes_concat
  rintro ⟨row, i⟩ hentry
  have hrow : rows[i]? = some row := List.mem_zipIdx_iff_getElem?.1 hentry
  exact writes_renderRow (by simp [hrow]) (by simp [hrow]) (h row (List.mem_of_getElem? hrow))

end RowStore

/-! ## Variables -/

/-- What the line of an interval looks like. -/
inductive BoundForm where
  | free
  | atMost (upper : Binary64)
  | atLeast (lower : Binary64)
  | fixed (value : Binary64)
  | between (lower upper : Binary64)

def BoundForm.words (name : String) : BoundForm → List String
  | free => [name, "free"]
  | atMost upper => [name, "<=", upper.text]
  | atLeast lower => [name, ">=", lower.text]
  | fixed value => [name, "=", value.text]
  | between lower upper => [lower.text, "<=", name, "<=", upper.text]

def Bounds.form (b : Bounds) : BoundForm :=
  match b.lowerIsFree, b.upperIsFree with
  | true, true => .free
  | true, false => .atMost b.upper
  | false, true => .atLeast b.lower
  | false, false => if b.isFixed then .fixed b.lower else .between b.lower b.upper

namespace Variable

def boundLine (v : Variable) : Line :=
  "" :: v.bounds.form.words v.name

theorem writes_renderBounds (v : Variable) :
    v.renderBounds.Writes (lineText v.boundLine ++ ['\n']) := by
  rw [renderBounds, boundLine, Bounds.form, lineText_indented]
  cases v.bounds.lowerIsFree <;> cases v.bounds.upperIsFree
  · cases v.bounds.isFixed
    · exact ⟨rfl, by simp [ofPieces, BoundForm.words]⟩
    · exact ⟨rfl, by simp [ofPieces, BoundForm.words]⟩
  · exact ⟨rfl, by simp [ofPieces, BoundForm.words]⟩
  · exact ⟨rfl, by simp [ofPieces, BoundForm.words]⟩
  · exact ⟨rfl, by simp [ofPieces, BoundForm.words]⟩

end Variable

/-- A title and the names of the variables that are listed under it, if there are any. -/
def listing (title : String) (isListed : Variable → Bool) (vars : List Variable) : List Line :=
  if vars.any isListed then [[title], "" :: (vars.filter isListed).map (·.name)] else []

theorem writes_renderNameList (title : String) (isListed : Variable → Bool)
    (vars : List Variable) :
    (if vars.any isListed then renderNameList title (vars.filter isListed) else nothing).Writes
      (linesText (listing title isListed vars)) := by
  have hnames : ((vars.filter isListed).flatMap fun v => [" ", v.name]).flatMap String.toList
      = spaced ((vars.filter isListed).map (·.name)) := by
    rw [List.flatMap_assoc, spaced, List.flatMap_map]
    simp
  unfold listing
  split
  · refine ⟨rfl, ?_⟩
    simp [renderNameList, ofPieces, hnames]
  · exact writes_nothing

/-! ## Models -/

namespace Model

def objectiveEntries (m : Model τ) : List (τ × Binary64) :=
  m.objective.cells.map fun cell => (cell.term, cell.coefficient)

def objectiveLine (m : Model τ) : Line :=
  "" :: m.objectiveEntries.flatMap (entryWords (m.vars.map (·.name)))

def rowLines (m : Model τ) : List Line :=
  m.constraints.toRows.map (rowLine (m.vars.map (·.name)))

def binaryLines (m : Model τ) : List Line :=
  if Term.isQuadratic τ then listing "Binaries" (·.kind.isBinary) m.vars else []

def generalLines (m : Model τ) : List Line :=
  listing "Generals" (·.kind.isGeneral) m.vars

/-- The lines of a model. Those of its rows and of its bounds each end at an empty line. -/
def lines (m : Model τ) : List Line :=
  [Named.name m.objective.sense] :: m.objectiveLine :: [""] :: ["Subject", "To"]
    :: (m.rowLines ++ [""] :: ["Bounds"]
      :: (m.vars.map Variable.boundLine ++ [""]
        :: (m.binaryLines ++ (m.generalLines ++ [["End"]]))))

theorem WellFormed.inRange_of_mem_objectiveEntries {m : Model τ} (h : m.WellFormed) :
    ∀ entry ∈ m.objectiveEntries, Term.InRange m.vars.length entry.1 :=
  List.forall_mem_map.2 h.2.2

theorem writes_renderObjective {m : Model τ} (h : m.WellFormed) :
    m.renderObjective.Writes
      (linesText [[Named.name m.objective.sense], m.objectiveLine, [""]]) := by
  have hterms : (concat (m.objective.cells.map fun cell =>
      renderTerm m.vars cell.term cell.coefficient)).Writes
        (spaced (m.objectiveEntries.flatMap (entryWords (m.vars.map (·.name))))) := by
    have hwrites := writes_terms h.inRange_of_mem_objectiveEntries
    rwa [objectiveEntries, List.map_map] at hwrites
  have hall := ((writes_ofPieces [Named.name m.objective.sense, "\n"]).append hterms).append
    (writes_ofPieces ["\n\n"])
  refine ⟨hall.1, hall.2.trans ?_⟩
  simp [objectiveLine]

theorem writes_renderBinaries (m : Model τ) :
    m.renderBinaries.Writes (linesText m.binaryLines) := by
  have hlisting := writes_renderNameList "Binaries" (·.kind.isBinary) m.vars
  unfold renderBinaries binaryLines
  cases Term.isQuadratic τ
  · exact writes_nothing
  · exact hlisting

omit [Term τ] in
theorem writes_renderGenerals (m : Model τ) :
    m.renderGenerals.Writes (linesText m.generalLines) :=
  writes_renderNameList "Generals" (·.kind.isGeneral) m.vars

/-- A well-formed model is rendered to its end, as the text of its lines. -/
theorem writes_render {m : Model τ} (h : m.WellFormed) : m.render.Writes (linesText m.lines) := by
  have hrows : (m.constraints.renderRows m.vars).Writes (linesText m.rowLines) := by
    have hwrites := RowStore.writes_renderRows h.2.1.inRange_of_mem_toRows
    rwa [h.2.1.ofRows_toRows] at hwrites
  have hbounds : (concat (m.vars.map Variable.renderBounds)).Writes
      (linesText (m.vars.map Variable.boundLine)) := by
    rw [linesText, List.flatMap_map]
    exact writes_concat fun v _ => v.writes_renderBounds
  have hall := ((((((((writes_renderObjective h).append
    (writes_ofPieces ["Subject To\n"])).append hrows).append
    (writes_ofPieces ["\n", "Bounds\n"])).append hbounds).append
    (writes_ofPieces ["\n"])).append m.writes_renderBinaries).append
    m.writes_renderGenerals).append (writes_ofPieces ["End\n"])
  refine ⟨hall.1, hall.2.trans ?_⟩
  simp [lines, lineText_cons]

end Model

end SparseProgram
