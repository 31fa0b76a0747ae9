import SparseProgram.Proofs.Embedding.Compile
import SparseProgram.Proofs.LpText.Words
import SparseProgram.Proofs.Positions

/-!
# Linear models within quadratic ones

A linear model as a quadratic one: it compiles, slices, normalizes and relaxes alike, and its text
differs by the list of its binary variables only.
-/

namespace SparseProgram

open Rendering

theorem Rendering.text?_append {a b : Rendering} {text : List Char} (h : b.Writes text) :
    (a ++ b).text? = a.text?.map (· ++ String.ofList text) := by
  have htext := h.text?_eq
  rw [Rendering.text?, h.1, if_neg Bool.false_ne_true] at htext
  have happend : a ++ b = append a b := rfl
  rw [Rendering.text?, Rendering.text?, breaksOff_append, h.1, Bool.or_false, happend, append]
  cases a.breaksOff with
  | true => rfl
  | false =>
      have hjoin : (⟨a.pieces ++ b.pieces, b.breaksOff⟩ : Rendering).writtenText
          = a.writtenText ++ b.writtenText := by
        simp [writtenText]
      simp [hjoin, Option.some.inj htext]

variable {τ σ : Type} [Term τ] [Term σ] {f : τ → σ}

namespace KeepsColumns

/-! ## Renderings of the same columns -/

theorem renderTerm_map (hf : KeepsColumns f) (vars : List Variable) (t : τ)
    (coefficient : Binary64) :
    renderTerm vars (f t) coefficient = renderTerm vars t coefficient := by
  rw [renderTerm, renderTerm, hf.columnList_map]

theorem renderCells_map (hf : KeepsColumns f) (vars : List Variable) (cells : List (Cell τ)) :
    RowStore.renderCells vars (cells.map (Cell.mapTerm f)) = RowStore.renderCells vars cells := by
  simp only [RowStore.renderCells, Cell.mapTerm, List.map_map, List.all_map, Function.comp_def,
    hf.renderTerm_map]

theorem renderRows_mapTerms (hf : KeepsColumns f) (s : RowStore τ) (vars : List Variable) :
    (s.mapTerms f).renderRows vars = s.renderRows vars := by
  have hlines : (s.mapTerms f).slices.zip (s.mapTerms f).rightSides
      = (s.slices.zip s.rightSides).map (Prod.map (List.map (Cell.mapTerm f)) id) := by
    rw [RowStore.slices_mapTerms, List.zip_map_left]
    rfl
  rw [RowStore.renderRows, RowStore.renderRows, hlines, mapIdx_map]
  simp only [RowStore.renderRow, Prod.map, hf.renderCells_map]
  rfl

theorem renderObjective_mapTerms (hf : KeepsColumns f) (m : Model τ) :
    (m.mapTerms f).renderObjective = m.renderObjective := by
  simp only [Model.renderObjective, Model.mapTerms, Objective.mapTerms, List.map_map,
    Function.comp_def, hf.renderTerm_map]

end KeepsColumns

/-! ## The two parts of a text -/

namespace Model

def renderOpening (m : Model τ) : Rendering :=
  m.renderObjective
    ++ ofPieces ["Subject To\n"]
    ++ m.constraints.renderRows m.vars
    ++ ofPieces ["\n", "Bounds\n"]
    ++ concat (m.vars.map Variable.renderBounds)
    ++ ofPieces ["\n"]

def closingLines (m : Model τ) : List Line :=
  m.generalLines ++ [["End"]]

theorem lpText?_eq (m : Model τ) :
    m.lpText? = m.renderOpening.text?.map
      (· ++ String.ofList (linesText (m.binaryLines ++ m.closingLines))) := by
  have hend : (ofPieces ["End\n"]).Writes (linesText [["End"]]) := writes_ofPieces ["End\n"]
  have hwrites := m.writes_renderBinaries.append (m.writes_renderGenerals.append hend)
  rw [← linesText_append, ← linesText_append] at hwrites
  rw [closingLines, ← text?_append hwrites, ← append_assoc, ← append_assoc]
  rfl

theorem renderOpening_mapTerms (hf : KeepsColumns f) (m : Model τ) :
    (m.mapTerms f).renderOpening = m.renderOpening := by
  rw [renderOpening, hf.renderObjective_mapTerms]
  show _ ++ _ ++ (m.constraints.mapTerms f).renderRows m.vars ++ _ ++ _ ++ _ = _
  rw [hf.renderRows_mapTerms]
  rfl

/-! ## Linear terms as quadratic ones -/

theorem keepsColumns_linear : KeepsColumns QuadraticTerm.linear :=
  fun _ => rfl

/-- Linear models behave within quadratic ones as they do by themselves. Only where a text lists
general variables or ends, the quadratic one has the list of the binary variables before. -/
theorem linear_within_quadratic :
    (∀ (s : Snapshot Nat) (options : CompileOptions),
        (s.mapMonomials QuadraticTerm.linear).compile options
          = (s.compile options).map (Model.mapTerms QuadraticTerm.linear))
      ∧ ∀ m : Model Nat,
        let quadratic := m.mapTerms QuadraticTerm.linear
        quadratic.firstDefect = m.firstDefect
          ∧ quadratic.constraints.slices
              = m.constraints.slices.map (List.map (Cell.mapTerm QuadraticTerm.linear))
          ∧ quadratic.normalize = m.normalize.mapTerms QuadraticTerm.linear
          ∧ quadratic.relax = m.relax.mapTerms QuadraticTerm.linear
          ∧ (quadratic.lpText? = none ↔ m.lpText? = none)
          ∧ (m.containsBinary = false → quadratic.lpText? = m.lpText?)
          ∧ ∀ text, m.lpText? = some text →
            ∃ opening, text = opening ++ String.ofList (linesText m.closingLines)
              ∧ quadratic.lpText? = some (opening
                  ++ String.ofList (linesText (listing "Binaries" (·.kind.isBinary) m.vars))
                  ++ String.ofList (linesText m.closingLines)) := by
  refine ⟨fun s options => keepsColumns_linear.compile_map s options, ?_⟩
  intro m quadratic
  have hlinear : m.lpText? = m.renderOpening.text?.map
      (· ++ String.ofList (linesText m.closingLines)) := m.lpText?_eq
  have hquadratic : quadratic.lpText? = m.renderOpening.text?.map
      (· ++ String.ofList (linesText
        (listing "Binaries" (·.kind.isBinary) m.vars ++ m.closingLines))) := by
    rw [← renderOpening_mapTerms keepsColumns_linear m]
    exact quadratic.lpText?_eq
  refine ⟨keepsColumns_linear.firstDefect_mapTerms m, RowStore.slices_mapTerms _ m.constraints,
    keepsColumns_linear.normalize_mapTerms m, relax_mapTerms _ m, ?_, ?_, ?_⟩
  · rw [hlinear, hquadratic, Option.map_eq_none_iff, Option.map_eq_none_iff]
  · intro hnone
    have hlisting : listing "Binaries" (·.kind.isBinary) m.vars = [] := by
      rw [listing, if_neg]
      rw [← containsBinary, hnone]
      exact Bool.false_ne_true
    rw [hlinear, hquadratic, hlisting, List.nil_append]
  · intro text htext
    rw [hlinear] at htext
    obtain ⟨opening, hopening, rfl⟩ := Option.map_eq_some_iff.1 htext
    refine ⟨opening, rfl, ?_⟩
    rw [hquadratic, hopening, Option.map_some, linesText_append, String.ofList_append,
      String.append_assoc]

def parcel : Model Nat where
  name := "parcel"
  vars :=
    [⟨0, ⟨.zero, .one⟩, .binary, "pack", none⟩,
      ⟨1, ⟨.zero, .infinity⟩, .unsignedInteger, "count", none⟩]
  constraints := .ofRows [⟨[(0, .one), (1, .one)], .greaterEqual, .ofInt 2, "load"⟩]
  objective := ⟨.minimum, [⟨1, .ofInt 3⟩]⟩

theorem parcel_within_quadratic :
    ∃ opening, parcel.lpText? = some (opening ++ "Generals\n count\nEnd\n")
      ∧ (parcel.mapTerms QuadraticTerm.linear).lpText?
        = some (opening ++ "Binaries\n pack\n" ++ "Generals\n count\nEnd\n") := by
  obtain ⟨-, -, -, -, -, -, htexts⟩ := linear_within_quadratic.2 parcel
  have hshown : parcel.lpText?.isSome = true := by decide +kernel
  obtain ⟨text, htext⟩ := Option.isSome_iff_exists.1 hshown
  obtain ⟨opening, hopening, hquadratic⟩ := htexts text htext
  have hclosing : String.ofList (linesText parcel.closingLines) = "Generals\n count\nEnd\n" := by
    decide +kernel
  have hlisting : String.ofList (linesText (listing "Binaries" (·.kind.isBinary) parcel.vars))
      = "Binaries\n pack\n" := by decide +kernel
  rw [hclosing] at hopening hquadratic
  rw [hlisting] at hquadratic
  exact ⟨opening, htext.trans (congrArg some hopening), hquadratic⟩

end Model

end SparseProgram
