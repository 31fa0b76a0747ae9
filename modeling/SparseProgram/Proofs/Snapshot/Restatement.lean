import SparseProgram.Proofs.Number.Addition
import SparseProgram.Proofs.Positions
import SparseProgram.Proofs.RowStore.Rows
import SparseProgram.Proofs.Snapshot.Failure
import SparseProgram.Proofs.Snapshot.Preference
import SparseProgram.Proofs.Snapshot.Totals
import SparseProgram.Semantics.Restatement

/-!
# Compilation is canonical

A tally is its sorted terms with their totals, and both depend on the cells by the monomials that
they mention and by exact sums alone. So snapshots that say the same compile to the same model, or
fail both, whatever order their cells have and however they are split.
-/

namespace SparseProgram

variable {τ : Type} [Term τ]

/-! ## Like monomials -/

namespace Term

variable {s t : τ} {handle : Nat}

theorem mem_columnList_iff :
    handle ∈ columnList t
      ↔ handle = (sortedColumns t).1 ∨ (sortedColumns t).2 = some handle := by
  unfold columnList sortedColumns
  match columns t with
  | (column, none) => simp [sortedPair]
  | (first, some second) =>
      simp only [sortedPair, Option.toList_some, List.mem_cons, List.not_mem_nil, or_false,
        Option.some.injEq]
      omega

theorem mem_columnList_of_sortedColumns (h : sortedColumns s = sortedColumns t) :
    handle ∈ columnList s ↔ handle ∈ columnList t := by
  rw [mem_columnList_iff, mem_columnList_iff, h]

end Term

variable {cells others more moreOthers : List (SymbolicCell τ)} {cell : SymbolicCell τ}
  {monomial : τ} {handle : Nat}

theorem mem_mentionedHandles_iff :
    handle ∈ mentionedHandles cells
      ↔ ∃ monomial, Mentions cells monomial ∧ handle ∈ Term.columnList monomial := by
  rw [mentionedHandles, List.mem_flatMap]
  constructor
  · rintro ⟨cell, hcell, hhandle⟩
    exact ⟨cell.monomial, ⟨cell, hcell, rfl⟩, hhandle⟩
  · rintro ⟨monomial, ⟨cell, hcell, hlike⟩, hhandle⟩
    exact ⟨cell, hcell, (Term.mem_columnList_of_sortedColumns hlike).2 hhandle⟩

theorem mentions_append :
    Mentions (cells ++ more) monomial ↔ Mentions cells monomial ∨ Mentions more monomial := by
  simp only [Mentions, List.mem_append, or_and_right, exists_or]

theorem mentions_cons :
    Mentions (cell :: cells) monomial
      ↔ Term.sortedColumns cell.monomial = Term.sortedColumns monomial
        ∨ Mentions cells monomial :=
  List.exists_mem_cons_iff _ _ _

theorem exactTotal_append :
    exactTotal (cells ++ more) monomial = exactTotal cells monomial + exactTotal more monomial := by
  simp [exactTotal, likeCoefficients]

theorem exactTotal_cons :
    exactTotal (cell :: cells) monomial
      = (if Term.sortedColumns cell.monomial = Term.sortedColumns monomial
          then cell.coefficient.value else 0) + exactTotal cells monomial := by
  unfold exactTotal
  by_cases hlike : Term.sortedColumns cell.monomial = Term.sortedColumns monomial
  · rw [if_pos hlike, ← likeCoefficients_of_sortedColumns hlike,
      ← likeCoefficients_of_sortedColumns hlike, likeCoefficients_cons_self, List.map_cons,
      List.sum_cons]
  · rw [if_neg hlike, likeCoefficients_cons_of_ne hlike, zero_add]

theorem exactTotal_neg :
    exactTotal (cells.map fun cell => { cell with coefficient := -cell.coefficient }) monomial
      = -exactTotal cells monomial := by
  induction cells with
  | nil => simp [exactTotal, likeCoefficients]
  | cons cell rest ih =>
      rw [List.map_cons, exactTotal_cons, exactTotal_cons, ih]
      split
      · rw [Binary64.value_neg]
        ring
      · ring

namespace SameTotals

theorem refl (cells : List (SymbolicCell τ)) : SameTotals cells cells :=
  ⟨fun _ => Iff.rfl, fun _ => rfl⟩

theorem symm (h : SameTotals cells others) : SameTotals others cells :=
  ⟨fun monomial => (h.mentions monomial).symm, fun monomial => (h.totals monomial).symm⟩

theorem trans (h : SameTotals cells others) (h' : SameTotals others more) :
    SameTotals cells more :=
  ⟨fun monomial => (h.mentions monomial).trans (h'.mentions monomial),
    fun monomial => (h.totals monomial).trans (h'.totals monomial)⟩

theorem append (h : SameTotals cells others) (h' : SameTotals more moreOthers) :
    SameTotals (cells ++ more) (others ++ moreOthers) := by
  constructor
  · intro monomial
    rw [mentions_append, mentions_append, h.mentions, h'.mentions]
  · intro monomial
    rw [exactTotal_append, exactTotal_append, h.totals, h'.totals]

theorem of_perm (h : cells.Perm others) : SameTotals cells others := by
  constructor
  · intro monomial
    exact exists_congr fun cell => and_congr_left' h.mem_iff
  · intro monomial
    exact (((h.filter _).map _).map _).sum_eq

theorem mem_mentionedHandles (h : SameTotals cells others) :
    handle ∈ mentionedHandles cells ↔ handle ∈ mentionedHandles others := by
  rw [mem_mentionedHandles_iff, mem_mentionedHandles_iff]
  exact exists_congr fun monomial => and_congr_left' (h.mentions monomial)

/-- Negating every coefficient negates every total. -/
theorem foldedCells {goal : Goal τ} (h : SameTotals goal.cells others) (sense : Sense) :
    SameTotals (goal.foldedCells sense) (Goal.foldedCells sense { goal with cells := others }) := by
  unfold Goal.foldedCells
  split
  · exact h
  · constructor
    · intro monomial
      simpa [Mentions] using h.mentions monomial
    · intro monomial
      rw [exactTotal_neg, exactTotal_neg, h.totals]

end SameTotals

theorem RewordedCells.sameTotals (h : RewordedCells cells others) : SameTotals cells others := by
  cases h with
  | permuted hperm => exact .of_perm hperm.symm
  | @split before after cell x y hsum =>
      -- Both parts are like the cell that they replace.
      apply SameTotals.append (.refl before)
      constructor
      · intro monomial
        simp only [mentions_cons, or_self_left]
      · intro monomial
        simp only [exactTotal_cons, ← hsum]
        split <;> ring
  | @turned before after cell monomial hlike =>
      apply SameTotals.append (.refl before)
      constructor
      · intro other
        simp only [mentions_cons, hlike]
      · intro other
        simp only [exactTotal_cons, hlike]

/-! ## One tally -/

variable {registry : Registry} {a b : Tally τ} {t : τ}

theorem mem_terms_tallyCells_iff_mentions
    (ht : registry.term monomial = .ok t)
    (h : tallyCells registry .one [] cells = .ok a) : t ∈ a.terms ↔ Mentions cells monomial := by
  rw [mem_terms_tallyCells_nil h]
  exact exists_congr fun cell => and_congr_right' (Registry.term_eq_ok_iff_of_term ht)

theorem MergesExactly.total_tallyCells (hexact : MergesExactly cells)
    (ht : registry.term monomial = .ok t) (h : tallyCells registry .one [] cells = .ok a) :
    Binary64.zero.SumsExactly (likeCoefficients monomial cells)
      ∧ a.total t = (likeCoefficients monomial cells).foldl (· + ·) .zero := by
  constructor
  · exact hexact.takesExactly_nil ht
  · simpa only [Binary64.one_mul, Tally.total_nil]
      using SparseProgram.total_tallyCells Tally.isSorted_nil ht h

/-- Cells with the same totals are merged into the same tally, bit for bit. -/
theorem SameTotals.tally_eq (hsame : SameTotals cells others) (hexact : MergesExactly cells)
    (hexact' : MergesExactly others) (ha : tallyCells registry .one [] cells = .ok a)
    (hb : tallyCells registry .one [] others = .ok b) : a = b := by
  have hmentions {monomial t : τ} (ht : registry.term monomial = .ok t) :
      t ∈ a.terms ↔ t ∈ b.terms := by
    rw [mem_terms_tallyCells_iff_mentions ht ha, mem_terms_tallyCells_iff_mentions ht hb,
      hsame.mentions]
  apply (isSorted_tallyCells Tally.isSorted_nil ha).eq_of_totals
    (isSorted_tallyCells Tally.isSorted_nil hb)
  · intro t
    constructor
    · intro hmem
      obtain ⟨cell, -, ht⟩ := (mem_terms_tallyCells_nil ha).1 hmem
      exact (hmentions ht).1 hmem
    · intro hmem
      obtain ⟨cell, -, ht⟩ := (mem_terms_tallyCells_nil hb).1 hmem
      exact (hmentions ht).2 hmem
  · intro t hmem
    obtain ⟨cell, -, ht⟩ := (mem_terms_tallyCells_nil ha).1 hmem
    obtain ⟨hsum, htotal⟩ := hexact.total_tallyCells ht ha
    obtain ⟨hsum', htotal'⟩ := hexact'.total_tallyCells ht hb
    rw [htotal, htotal']
    exact hsum.foldl_eq hsum' (hsame.totals cell.monomial)

/-! ## Snapshots -/

theorem mentionedHandles_flatMap {α : Type} (f : α → List (SymbolicCell τ)) (l : List α) :
    mentionedHandles (l.flatMap f) = l.flatMap fun a => mentionedHandles (f a) :=
  List.flatMap_assoc

theorem Goal.mentionedHandles_foldedCells (goal : Goal τ) (sense : Sense) :
    mentionedHandles (goal.foldedCells sense) = mentionedHandles goal.cells := by
  unfold foldedCells
  split
  · rfl
  · rw [mentionedHandles, List.flatMap_map]
    rfl

namespace SymbolicConstraint

variable {c d e : SymbolicConstraint τ}

theorem Restates.refl (c : SymbolicConstraint τ) : c.Restates c :=
  ⟨rfl, rfl, .refl c.cells⟩

theorem Restates.symm (h : d.Restates c) : c.Restates d :=
  ⟨h.relation.symm, h.name.symm, h.cells.symm⟩

theorem Restates.trans (h : e.Restates d) (h' : d.Restates c) : e.Restates c :=
  ⟨h.relation.trans h'.relation, h.name.trans h'.name, h.cells.trans h'.cells⟩

end SymbolicConstraint

namespace Snapshot

variable {s t u : Snapshot τ}

theorem references_eq (s : Snapshot τ) :
    s.references
      = (s.constraints.flatMap fun c => mentionedHandles c.cells)
        ++ mentionedHandles s.foldedCells := by
  simp only [references, foldedCells, mentionedHandles_flatMap, Goal.mentionedHandles_foldedCells]

theorem forall_references_iff {P : Nat → Prop} :
    (∀ handle ∈ s.references, P handle)
      ↔ (∀ c ∈ s.constraints, ∀ handle ∈ mentionedHandles c.cells, P handle)
        ∧ ∀ handle ∈ mentionedHandles s.foldedCells, P handle := by
  simp only [references_eq, List.forall_mem_append, List.forall_mem_flatMap]

theorem Restates.refl (s : Snapshot τ) : s.Restates s :=
  ⟨rfl, rfl, rfl, List.forall₂_same.2 fun c _ => .refl c, .refl s.foldedCells⟩

theorem Restates.symm (h : t.Restates s) : s.Restates t where
  name := h.name.symm
  tokens := h.tokens.symm
  effectiveSense := h.effectiveSense.symm
  constraints := (h.constraints.imp fun _ _ hc => hc.symm).flip
  goals := h.goals.symm

theorem Restates.trans (h : u.Restates t) (h' : t.Restates s) : u.Restates s where
  name := h.name.trans h'.name
  tokens := h.tokens.trans h'.tokens
  effectiveSense := h.effectiveSense.trans h'.effectiveSense
  constraints :=
    forall₂_of_forall₂ h.symm.constraints h'.constraints fun _ _ _ hd hc => hd.symm.trans hc
  goals := h.goals.trans h'.goals

theorem Restates.compiles (h : t.Restates s) (hs : s.Compiles) : t.Compiles := by
  have hhandles : t.handles = s.handles := by rw [handles, handles, h.tokens]
  constructor
  case distinct => exact hhandles ▸ hs.distinct
  case ordered => exact h.tokens ▸ hs.ordered
  case registered =>
    rw [hhandles, forall_references_iff]
    obtain ⟨hrows, hgoals⟩ := forall_references_iff.1 hs.registered
    constructor
    · refine (forall_iff_of_forall₂ h.constraints ?_).2 hrows
      intro d _ c hd
      exact forall_congr' fun handle => imp_congr_left hd.cells.mem_mentionedHandles
    · intro handle hhandle
      exact hgoals handle (h.goals.mem_mentionedHandles.1 hhandle)

end Snapshot

/-! ## Models -/

omit [Term τ] in
/-- Rows that differ in nothing but their right-hand sides make stores that differ in nothing
else. -/
theorem RowStore.ofRows_of_rightSides {rows others : List (Row τ)}
    (h : List.Forall₂ (fun other row => other = { row with rightSide := other.rightSide })
      others rows) :
    ofRows others = { ofRows rows with rightSides := others.map (·.rightSide) } := by
  have hfield {β : Type} (f : Row τ → β)
      (hf : ∀ (row : Row τ) (rightSide : Binary64), f { row with rightSide } = f row) :
      others.map f = rows.map f := by
    symm
    apply map_eq_map_of_forall₂ h
    intro other row hrow
    rw [hrow]
    exact (hf row _).symm
  apply RowStore.ext
  case cells =>
    have hcells : List.Forall₂ Eq (others.mapIdx fun i row => row.cellsAt i)
        (rows.mapIdx fun i row => row.cellsAt i) := by
      apply forall₂_mapIdx h
      intro i other row hrow
      rw [hrow]
      rfl
    rw [List.forall₂_eq_eq_eq] at hcells
    rw [cells_ofRows, cells_ofRows, hcells]
  case relations =>
    rw [relations_ofRows, relations_ofRows]
    exact hfield _ fun _ _ => rfl
  case rightSides => rw [rightSides_ofRows]
  case names =>
    rw [names_ofRows, names_ofRows]
    exact hfield _ fun _ _ => rfl

theorem SymbolicConstraint.Restates.row_eq {c d : SymbolicConstraint τ} {row other : Row τ}
    (h : d.Restates c) (hd : MergesExactly d.cells) (hc : MergesExactly c.cells)
    (hother : d.toRow registry = .ok other) (hrow : c.toRow registry = .ok row) :
    other = { row with rightSide := other.rightSide } := by
  obtain ⟨tally', htally', rfl⟩ := toRow_eq_ok_iff.1 hother
  obtain ⟨tally, htally, rfl⟩ := toRow_eq_ok_iff.1 hrow
  rw [h.cells.tally_eq hd hc htally' htally, h.relation, h.name]

namespace Snapshot

variable {s t : Snapshot τ}

theorem Restates.rows {rows others : List (Row τ)} (h : t.Restates s) (ht : t.IsExact)
    (hs : s.IsExact)
    (hothers : List.Forall₂ (fun d row => d.toRow registry = .ok row) t.constraints others)
    (hrows : List.Forall₂ (fun c row => c.toRow registry = .ok row) s.constraints rows) :
    List.Forall₂ (fun other row => other = { row with rightSide := other.rightSide })
      others rows := by
  have hexact := (List.forall₂_and_left _ _).2 ⟨ht.constraints, h.constraints⟩
  have hmiddle : List.Forall₂
      (fun c other => ∃ d : SymbolicConstraint τ,
        MergesExactly d.cells ∧ d.Restates c ∧ d.toRow registry = .ok other)
      s.constraints others :=
    forall₂_of_forall₂ hexact hothers fun d _ _ hd hother => ⟨d, hd.1, hd.2, hother⟩
  apply forall₂_of_forall₂ hmiddle ((List.forall₂_and_left _ _).2 ⟨hs.constraints, hrows⟩)
  rintro c other row ⟨d, hd, hrestates, hother⟩ ⟨hc, hrow⟩
  exact hrestates.row_eq hd hc hother hrow

theorem rightSides_of_rows {rows : List (Row τ)}
    (h : List.Forall₂ (fun c row => c.toRow registry = .ok row) s.constraints rows) :
    rows.map (·.rightSide) = s.rightSides := by
  apply map_eq_map_of_forall₂ h
  intro c row hrow
  obtain ⟨tally, -, rfl⟩ := SymbolicConstraint.toRow_eq_ok_iff.1 hrow
  rfl

theorem Restates.compile_eq {options options' : CompileOptions} {m n : Model τ}
    (h : t.Restates s) (ht : t.IsExact) (hs : s.IsExact) (hm : s.compile options = .ok m)
    (hn : t.compile options' = .ok n) : n = m.withRightSides t.rightSides := by
  obtain ⟨registry, rows, objective, hregistry, -, hrows, hobjective, rfl⟩ :=
    compile_eq_ok_iff.1 hm
  obtain ⟨registry', others, objective', hregistry', -, hothers, hobjective', rfl⟩ :=
    compile_eq_ok_iff.1 hn
  obtain rfl : registry' = registry := by
    rw [h.tokens, hregistry, Except.ok.injEq] at hregistry'
    exact hregistry'.symm
  have hstore := RowStore.ofRows_of_rightSides (h.rows ht hs hothers hrows)
  have hobjectives : objective' = objective := by
    obtain ⟨tally, htally, rfl⟩ := compileObjective_eq_ok_iff.1 hobjective
    obtain ⟨tally', htally', rfl⟩ := compileObjective_eq_ok_iff.1 hobjective'
    rw [h.goals.tally_eq ht.goals hs.goals htally' htally, h.effectiveSense]
  rw [Model.withRightSides, hstore, rightSides_of_rows hothers, hobjectives, h.name, h.tokens]

theorem withRightSides_compile {options : CompileOptions} {m : Model τ}
    (hm : s.compile options = .ok m) : m.withRightSides s.rightSides = m := by
  obtain ⟨registry, rows, objective, -, -, hrows, -, rfl⟩ := compile_eq_ok_iff.1 hm
  rw [Model.withRightSides, ← rightSides_of_rows hrows, ← RowStore.rightSides_ofRows]

/-! ## Rewordings -/

omit [Term τ] in
theorem effectiveSense_of_perm (hsense : t.sense = s.sense)
    (hgoals : (t.goals.map (·.sense)).Perm (s.goals.map (·.sense))) :
    t.effectiveSense = s.effectiveSense := by
  have hlength : t.goals.length = s.goals.length := by simpa using hgoals.length_eq
  have hlone (u : Snapshot τ) (goal : Goal τ) (h : u.goals = [goal]) :
      u.effectiveSense = goal.sense := by
    rw [effectiveSense, h]
  by_cases hcount : s.goals.length = 1
  · obtain ⟨goal, hgoal⟩ := List.length_eq_one_iff.1 hcount
    obtain ⟨other, hother⟩ := List.length_eq_one_iff.1 (hlength.trans hcount)
    rw [hlone s goal hgoal, hlone t other hother]
    rw [hgoal, hother] at hgoals
    simpa using hgoals
  · rw [effectiveSense_of_length_ne_one hcount, ← hsense]
    exact effectiveSense_of_length_ne_one (hlength ▸ hcount)

theorem Reworded.restates (h : s.Reworded t) : t.Restates s ∧ t.rightSides = s.rightSides := by
  cases h with
  | @constraint before after c cells hconstraints hcells =>
      refine ⟨⟨rfl, rfl, rfl, ?_, .refl _⟩, ?_⟩
      · rw [hconstraints]
        apply List.rel_append (List.forall₂_same.2 fun d _ => .refl d)
        exact .cons ⟨rfl, rfl, hcells.sameTotals.symm⟩ (List.forall₂_same.2 fun d _ => .refl d)
      · simp [rightSides, hconstraints]
  | @goal before after goal cells hgoals hcells =>
      have hsense : effectiveSense { s with goals := before ++ { goal with cells } :: after }
          = s.effectiveSense :=
        effectiveSense_of_perm rfl (by simp [hgoals])
      refine ⟨⟨rfl, rfl, hsense, List.forall₂_same.2 fun c _ => .refl c, ?_⟩, rfl⟩
      simp only [foldedCells, hsense, hgoals, List.flatMap_append, List.flatMap_cons]
      exact (SameTotals.refl _).append
        ((hcells.sameTotals.foldedCells _).symm.append (.refl _))
  | @goals goals hgoals =>
      have hsense : effectiveSense { s with goals } = s.effectiveSense :=
        effectiveSense_of_perm rfl (hgoals.map _)
      refine ⟨⟨rfl, rfl, hsense, List.forall₂_same.2 fun c _ => .refl c, ?_⟩, rfl⟩
      simp only [foldedCells, hsense]
      exact .of_perm (hgoals.flatMap_right _)

theorem restates_of_eqvGen (h : Relation.EqvGen Reworded s t) :
    t.Restates s ∧ t.rightSides = s.rightSides := by
  induction h with
  | rel s t hstep => exact hstep.restates
  | refl s => exact ⟨.refl s, rfl⟩
  | symm s t _ ih => exact ⟨ih.1.symm, ih.2.symm⟩
  | trans s t u _ _ ih ih' => exact ⟨ih'.1.trans ih.1, ih'.2.trans ih.2⟩

/-! ## One outcome -/

variable {options options' : CompileOptions}

theorem Restates.outcome (h : t.Restates s) (ht : t.IsExact) (hs : s.IsExact) :
    (∃ m, s.compile options = .ok m ∧ t.compile options' = .ok (m.withRightSides t.rightSides))
      ∨ (∃ e, s.compile options = .error e) ∧ ∃ e, t.compile options' = .error e := by
  have hcompiles : (∃ n, t.compile options' = .ok n) ↔ ∃ m, s.compile options = .ok m := by
    rw [exists_compile_iff_compiles, exists_compile_iff_compiles]
    exact ⟨h.symm.compiles, h.compiles⟩
  cases hm : s.compile options with
  | ok m =>
      obtain ⟨n, hn⟩ := hcompiles.2 ⟨m, hm⟩
      left
      exact ⟨m, rfl, h.compile_eq ht hs hm hn ▸ hn⟩
  | error e =>
      right
      refine ⟨⟨e, rfl⟩, ?_⟩
      cases hn : t.compile options' with
      | error e' => exact ⟨e', rfl⟩
      | ok n =>
          obtain ⟨m, hm'⟩ := hcompiles.1 ⟨n, hn⟩
          rw [hm] at hm'
          cases hm'

/-- Compilation is canonical: where no addition rounds, snapshots with the same totals compile to
the same model, each with its own right-hand sides, or fail both. A chain of rewordings changes
nothing about a model. -/
theorem compile_canonical (hs : s.IsExact) (ht : t.IsExact) (options options' : CompileOptions) :
    (t.Restates s →
        (∃ m, s.compile options = .ok m
          ∧ t.compile options' = .ok (m.withRightSides t.rightSides)
          ∧ (t.rightSides = s.rightSides → m.withRightSides t.rightSides = m))
        ∨ (∃ e, s.compile options = .error e) ∧ ∃ e, t.compile options' = .error e)
      ∧ (Relation.EqvGen Reworded s t →
        ∀ m, s.compile options = .ok m → t.compile options' = .ok m) := by
  constructor
  · intro h
    rcases h.outcome ht hs with ⟨m, hm, hn⟩ | hfail
    · left
      refine ⟨m, hm, hn, ?_⟩
      intro hrightSides
      rw [hrightSides, withRightSides_compile hm]
    · exact .inr hfail
  · intro h m hm
    obtain ⟨hrestates, hrightSides⟩ := restates_of_eqvGen h
    have hcompiles := (exists_compile_iff_compiles s options).1 ⟨m, hm⟩
    obtain ⟨n, hn⟩ := (hrestates.compiles hcompiles).exists_compile options'
    rw [hn, hrestates.compile_eq ht hs hm hn, hrightSides, withRightSides_compile hm]

def barter (cells : List (SymbolicCell QuadraticTerm)) (goals : List (Goal QuadraticTerm)) :
    Snapshot QuadraticTerm where
  name := "barter"
  sense := .minimum
  tokens :=
    [⟨7, "a", .continuous, ⟨.zero, .infinity⟩, none⟩,
      ⟨3, "b", .signedInteger, ⟨-.one, .ofInt 4⟩, some .one⟩]
  constraints := [⟨cells, .lessEqual, .ofInt 5, "cap"⟩]
  goals := goals

def barterCost : Goal QuadraticTerm :=
  ⟨[⟨.one, .linear 7⟩], .minimum, "cost"⟩

def barterGain : Goal QuadraticTerm :=
  ⟨[⟨.ofInt 3, .linear 3⟩], .maximum, "gain"⟩

def barterGathered : Snapshot QuadraticTerm :=
  barter [⟨.ofInt 2, .product 7 3⟩, ⟨.one, .linear 3⟩, ⟨-.one, .linear 3⟩] [barterCost, barterGain]

def barterScattered : Snapshot QuadraticTerm :=
  barter [⟨-.one, .linear 3⟩, ⟨.one, .product 3 7⟩, ⟨.one, .linear 3⟩, ⟨.one, .product 7 3⟩]
    [barterGain, barterCost]

def barterModel : Model QuadraticTerm where
  name := "barter"
  vars :=
    [⟨0, ⟨.zero, .infinity⟩, .continuous, "a", none⟩,
      ⟨1, ⟨-.one, .ofInt 4⟩, .signedInteger, "b", some .one⟩]
  constraints :=
    .ofRows [⟨[(.product 0 1, .ofInt 2), (.linear 1, .zero)], .lessEqual, .ofInt 5, "cap"⟩]
  objective := ⟨.minimum, [⟨.linear 0, .one⟩, ⟨.linear 1, .ofInt (-3)⟩]⟩

theorem reworded_barter {cells others : List (SymbolicCell QuadraticTerm)}
    (goals : List (Goal QuadraticTerm)) (h : RewordedCells cells others) :
    Relation.EqvGen Reworded (barter cells goals) (barter others goals) := by
  have hlone : (barter cells goals).constraints
      = [] ++ ⟨cells, .lessEqual, .ofInt 5, "cap"⟩ :: [] := rfl
  exact .rel _ _ (.constraint hlone h)

theorem reworded_barterScattered : Relation.EqvGen Reworded barterGathered barterScattered := by
  let rest : List (SymbolicCell QuadraticTerm) := [⟨.one, .linear 3⟩, ⟨-.one, .linear 3⟩]
  let half : SymbolicCell QuadraticTerm := ⟨.one, .product 7 3⟩
  let turned : SymbolicCell QuadraticTerm := ⟨.one, .product 3 7⟩
  have hsplit : RewordedCells ([] ++ ⟨.ofInt 2, .product 7 3⟩ :: rest)
      ([] ++ half :: half :: rest) :=
    .split .one .one (by decide +kernel)
  have hturned : RewordedCells ([] ++ half :: half :: rest) ([] ++ turned :: half :: rest) :=
    .turned turned.monomial rfl
  have hmoved : RewordedCells (turned :: half :: rest)
      [⟨-.one, .linear 3⟩, turned, ⟨.one, .linear 3⟩, half] :=
    .permuted (by decide +kernel)
  have hgoals : Reworded
      (barter [⟨-.one, .linear 3⟩, turned, ⟨.one, .linear 3⟩, half] [barterCost, barterGain])
      barterScattered :=
    .goals (.swap _ _ _)
  have hcells := ((reworded_barter [barterCost, barterGain] hsplit).trans _ _ _
    (reworded_barter _ hturned)).trans _ _ _ (reworded_barter _ hmoved)
  exact hcells.trans _ _ _ (.rel _ _ hgoals)

theorem compile_canonical_barter :
    barterGathered.compile .default = .ok barterModel
      ∧ barterScattered.compile .sequential = .ok barterModel := by
  have hgathered : barterGathered.IsExact :=
    ⟨by decide +kernel, by decide +kernel⟩
  have hscattered : barterScattered.IsExact :=
    ⟨by decide +kernel, by decide +kernel⟩
  have hmodel : barterGathered.compile .default = .ok barterModel := by decide +kernel
  exact ⟨hmodel, (compile_canonical hgathered hscattered .default .sequential).2
    reworded_barterScattered barterModel hmodel⟩

end Snapshot

end SparseProgram
