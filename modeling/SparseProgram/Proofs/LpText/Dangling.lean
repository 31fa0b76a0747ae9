import SparseProgram.LpText.Dangling
import SparseProgram.Proofs.LpText.Words
import SparseProgram.Proofs.Number.Comparison
import SparseProgram.Proofs.Positions
import SparseProgram.Proofs.RowStore.Partition

/-!
# Where renderings break off

A rendering breaks off exactly where one of its parts does, and a part does where it looks something
up that is not there. What the gate lets through never breaks off.
-/

namespace SparseProgram

/-! ## Parts -/

namespace Rendering

theorem breaksOff_append_iff {a b : Rendering} :
    (a ++ b).breaksOff = true ↔ a.breaksOff = true ∨ b.breaksOff = true := by
  rw [breaksOff_append, Bool.or_eq_true]

@[simp] theorem breaksOff_nothing : nothing.breaksOff = false :=
  rfl

@[simp] theorem breaksOff_ofPieces (pieces : List String) : (ofPieces pieces).breaksOff = false :=
  rfl

theorem breaksOff_concat_iff {parts : List Rendering} :
    (concat parts).breaksOff = true ↔ ∃ part ∈ parts, part.breaksOff = true := by
  induction parts with
  | nil => simp [concat, nothing]
  | cons part rest ih =>
      rw [List.exists_mem_cons_iff, ← ih, ← breaksOff_append_iff]
      rfl

theorem breaksOff_withFound_iff {α : Type} {found : Option α} {render : α → Rendering} :
    (withFound found render).breaksOff = true
      ↔ found = none ∨ ∃ a, found = some a ∧ (render a).breaksOff = true := by
  cases found with
  | none => simp [withFound, breakOff]
  | some a => simp [withFound]

theorem text?_eq_none_iff {r : Rendering} : r.text? = none ↔ r.breaksOff = true := by
  unfold text?
  split <;> simp_all

end Rendering

open Rendering

theorem mapM_getElem?_eq_none_iff {α : Type} {l : List α} {positions : List Nat} :
    (positions.mapM fun i => l[i]?) = none ↔ ∃ i ∈ positions, l.length ≤ i := by
  induction positions with
  | nil => simp
  | cons i rest ih =>
      rw [List.mapM_cons, List.exists_mem_cons_iff, ← ih]
      cases hi : l[i]? with
      | none =>
          have hle := List.getElem?_eq_none_iff.1 hi
          simp [hle]
      | some a =>
          have hlt := (List.getElem?_eq_some_iff.1 hi).1
          cases rest.mapM fun i => l[i]? <;> simp [Nat.not_le.2 hlt]

variable {τ : Type} [Term τ]

/-! ## Terms -/

theorem breaksOff_renderNames_iff {vars : List Variable} {columns : List Nat} :
    (renderNames vars columns).breaksOff = true ↔ ∃ column ∈ columns, vars.length ≤ column := by
  rw [renderNames, breaksOff_withFound_iff, mapM_getElem?_eq_none_iff]
  simp

@[simp] theorem breaksOff_renderMagnitude (magnitude : Binary64) :
    (renderMagnitude magnitude).breaksOff = false := by
  unfold renderMagnitude
  split <;> rfl

/-- A term that is written looks up its columns, and one of coefficient zero looks up nothing. -/
theorem breaksOff_renderTerm_iff {vars : List Variable} {t : τ} {coefficient : Binary64} :
    (renderTerm vars t coefficient).breaksOff = true
      ↔ ¬coefficient.IsEitherZero ∧ Term.Dangles vars.length t := by
  rw [Binary64.IsEitherZero, ← Binary64.isZero_iff_eq, renderTerm]
  by_cases hzero : coefficient.isZero = true
  · simp [hzero]
  · simp [hzero, breaksOff_append_iff, breaksOff_renderNames_iff, Term.Dangles]

/-! ## Rows -/

namespace RowStore

theorem breaksOff_renderCells_iff {vars : List Variable} {cells : List (Cell τ)} :
    (renderCells vars cells).breaksOff = true
      ↔ ∃ cell ∈ cells, ¬cell.coefficient.IsEitherZero ∧ Term.Dangles vars.length cell.term := by
  have hzero : (if cells.all (·.coefficient.isZero) then ofPieces [" 0"]
      else nothing).breaksOff = false := by
    split <;> rfl
  rw [renderCells, breaksOff_append_iff, hzero, or_iff_left Bool.false_ne_true,
    breaksOff_concat_iff]
  simp only [List.mem_map, exists_exists_and_eq_and, breaksOff_renderTerm_iff]

theorem breaksOff_renderRow_iff {s : RowStore τ} {vars : List Variable} {row : Nat}
    {cells : List (Cell τ)} {rightSide : Binary64} :
    (s.renderRow vars row cells rightSide).breaksOff = true
      ↔ s.names.length ≤ row ∨ s.relations.length ≤ row
        ∨ ∃ cell ∈ cells, ¬cell.coefficient.IsEitherZero ∧ Term.Dangles vars.length cell.term := by
  rw [renderRow, breaksOff_withFound_iff, List.getElem?_eq_none_iff]
  simp only [breaksOff_append_iff, breaksOff_ofPieces, Bool.false_eq_true, false_or,
    breaksOff_renderCells_iff, breaksOff_withFound_iff, List.getElem?_eq_none_iff, and_false,
    exists_false, or_false]
  rcases Nat.lt_or_ge row s.names.length with hlt | hle
  · simp [Nat.not_le.2 hlt, hlt, or_comm]
  · simp [hle]

/-- Each row looks up its name and its relation, and its slice is all that is written of the cells. -/
theorem breaksOff_renderRows_iff {s : RowStore τ} {vars : List Variable} :
    (s.renderRows vars).breaksOff = true
      ↔ s.names.length < s.rightSides.length ∨ s.relations.length < s.rightSides.length
        ∨ ∃ slice ∈ s.slices, ∃ cell ∈ slice,
          ¬cell.coefficient.IsEitherZero ∧ Term.Dangles vars.length cell.term := by
  rw [renderRows, breaksOff_concat_iff, exists_mem_mapIdx]
  simp only [Prod.exists, List.getElem?_zip_eq_some, breaksOff_renderRow_iff]
  have hrow (i : Nat) (hi : i < s.rightSides.length) :
      ∃ slice rightSide, s.slices[i]? = some slice ∧ s.rightSides[i]? = some rightSide :=
    ⟨_, _, List.getElem?_eq_getElem (by simpa [size] using hi), List.getElem?_eq_getElem hi⟩
  constructor
  · rintro ⟨i, slice, rightSide, ⟨hslice, hright⟩, hname | hrelation | hcell⟩
    · exact .inl (Nat.lt_of_le_of_lt hname (List.getElem?_eq_some_iff.1 hright).1)
    · exact .inr (.inl (Nat.lt_of_le_of_lt hrelation (List.getElem?_eq_some_iff.1 hright).1))
    · exact .inr (.inr ⟨slice, List.mem_of_getElem? hslice, hcell⟩)
  · -- The first row that has no name, or no relation, is the one behind the last that has.
    rintro (hname | hrelation | ⟨slice, hslice, hcell⟩)
    · obtain ⟨slice, rightSide, hfound⟩ := hrow _ hname
      exact ⟨_, slice, rightSide, hfound, .inl (Nat.le_refl _)⟩
    · obtain ⟨slice, rightSide, hfound⟩ := hrow _ hrelation
      exact ⟨_, slice, rightSide, hfound, .inr (.inl (Nat.le_refl _))⟩
    · obtain ⟨i, hi⟩ := List.mem_iff_getElem?.1 hslice
      have hlt : i < s.rightSides.length := by
        simpa [size] using (List.getElem?_eq_some_iff.1 hi).1
      obtain ⟨-, rightSide, -, hright⟩ := hrow i hlt
      exact ⟨i, slice, rightSide, ⟨hi, hright⟩, .inr (.inr hcell)⟩

end RowStore

/-! ## Models -/

namespace Model

variable {m : Model τ}

theorem breaksOff_renderObjective_iff :
    m.renderObjective.breaksOff = true
      ↔ ∃ cell ∈ m.objective.cells,
        ¬cell.coefficient.IsEitherZero ∧ Term.Dangles m.vars.length cell.term := by
  rw [renderObjective, breaksOff_append_iff, breaksOff_append_iff, breaksOff_concat_iff]
  simp only [breaksOff_ofPieces, Bool.false_eq_true, false_or, or_false, List.mem_map,
    exists_exists_and_eq_and, breaksOff_renderTerm_iff]

theorem breaksOff_render_iff : m.render.breaksOff = true ↔ m.ReachesDangling := by
  have hbounds : (concat (m.vars.map Variable.renderBounds)).breaksOff = false := by
    rw [← Bool.not_eq_true, breaksOff_concat_iff]
    simp [(Variable.writes_renderBounds _).1]
  rw [render]
  simp only [breaksOff_append_iff, breaksOff_ofPieces, hbounds, m.writes_renderBinaries.1,
    m.writes_renderGenerals.1, Bool.false_eq_true, or_false, breaksOff_renderObjective_iff,
    RowStore.breaksOff_renderRows_iff]
  constructor
  · rintro (⟨cell, hcell, hzero, hdangles⟩ | hname | hrelation
      | ⟨slice, hslice, cell, hcell, hzero, hdangles⟩)
    · exact .objective cell hcell hzero hdangles
    · exact .rowName hname
    · exact .rowRelation hrelation
    · exact .row slice cell hslice hcell hzero hdangles
  · intro h
    cases h with
    | rowName hname => exact .inr (.inl hname)
    | rowRelation hrelation => exact .inr (.inr (.inl hrelation))
    | objective cell hcell hzero hdangles => exact .inl ⟨cell, hcell, hzero, hdangles⟩
    | row slice cell hslice hcell hzero hdangles =>
        exact .inr (.inr (.inr ⟨slice, hslice, cell, hcell, hzero, hdangles⟩))

/-- Every reference of a well-formed model is to something. -/
theorem WellFormed.not_reachesDangling (h : m.WellFormed) : ¬m.ReachesDangling := by
  obtain ⟨-, ⟨harrays, -, hcells⟩, hobjective⟩ := h
  intro hdangling
  cases hdangling with
  | rowName hname => exact absurd hname (Nat.not_lt.2 (Nat.le_of_eq harrays.2.symm))
  | rowRelation hrelation => exact absurd hrelation (Nat.not_lt.2 (Nat.le_of_eq harrays.1.symm))
  | objective cell hcell _ hdangles =>
      obtain ⟨column, hcolumn, hle⟩ := hdangles
      exact absurd (hobjective cell hcell column hcolumn) (Nat.not_lt.2 hle)
  | row slice cell hslice hcell _ hdangles =>
      obtain ⟨column, hcolumn, hle⟩ := hdangles
      have hmem : cell ∈ m.constraints.cells :=
        m.constraints.flatten_slices_front.mem (List.mem_flatten.2 ⟨slice, hslice, hcell⟩)
      exact absurd ((hcells cell hmem).2 column hcolumn) (Nat.not_lt.2 hle)

/-- A model has a text unless that comes to a dangling reference, so a model that passes the gate
has one. -/
theorem lpText?_eq_none_iff_reachesDangling (m : Model τ) :
    (m.lpText? = none ↔ m.ReachesDangling)
      ∧ (m.firstDefect = none → ∃ text, m.lpText? = some text) := by
  have hnone : m.lpText? = none ↔ m.ReachesDangling :=
    text?_eq_none_iff.trans breaksOff_render_iff
  refine ⟨hnone, ?_⟩
  intro hvalid
  have hwell : m.WellFormed := firstDefect_eq_none_iff.1 hvalid
  exact Option.ne_none_iff_exists'.1 fun h => hwell.not_reachesDangling (hnone.1 h)

def frayed (last : Cell QuadraticTerm) (cost : ObjectiveCell QuadraticTerm)
    (names : List String) : Model QuadraticTerm where
  name := "frayed"
  vars := [⟨0, .free, .continuous, "x", none⟩]
  constraints := ⟨[⟨1, .product 0 0, .one⟩, last], [.equal, .lessEqual], [.zero, .one], names⟩
  objective := ⟨.minimum, [cost]⟩

/-- A well-formed model; one whose missing columns are out of reach, the one in a cell out of order
and the other under a negative zero; and models in which a cost, a row or a name is missing. -/
theorem lpText?_eq_none_iff_reachesDangling_frayed :
    (∃ text, (frayed ⟨1, .linear 0, .one⟩ ⟨.product 0 0, .nan⟩ ["r", "s"]).lpText? = some text)
      ∧ (frayed ⟨0, .linear 7, .one⟩ ⟨.product 0 3, -.zero⟩ ["r", "s"]).lpText?
        = some "Minimum\n\n\nSubject To\n r: 0 = 0\n s: + x * x <= 1\n\nBounds\n x free\n\nEnd\n"
      ∧ ¬(frayed ⟨0, .linear 7, .one⟩ ⟨.product 0 3, -.zero⟩ ["r", "s"]).ReachesDangling
      ∧ (frayed ⟨0, .linear 7, .one⟩ ⟨.product 0 3, .nan⟩ ["r", "s"]).lpText? = none
      ∧ (frayed ⟨1, .linear 7, .one⟩ ⟨.linear 0, .one⟩ ["r", "s"]).lpText? = none
      ∧ (frayed ⟨1, .linear 0, .one⟩ ⟨.linear 0, .one⟩ ["r"]).lpText? = none := by
  refine ⟨?_, by decide +kernel, ?_, ?_, ?_, ?_⟩
  · exact (lpText?_eq_none_iff_reachesDangling _).2 (by decide +kernel)
  · rw [← (lpText?_eq_none_iff_reachesDangling _).1]
    decide +kernel
  · exact (lpText?_eq_none_iff_reachesDangling _).1.2
      (.objective ⟨.product 0 3, .nan⟩ (by decide) (by decide) (by decide))
  · exact (lpText?_eq_none_iff_reachesDangling _).1.2
      (.row [⟨1, .product 0 0, .one⟩, ⟨1, .linear 7, .one⟩] ⟨1, .linear 7, .one⟩
        (by decide +kernel) (by simp) (by decide +kernel) (by decide))
  · exact (lpText?_eq_none_iff_reachesDangling _).1.2 (.rowName (by decide))

end Model

end SparseProgram
