import SparseProgram.Proofs.LpText.Reading

/-!
# What LP text tells of a model

Two models with the same text look alike. The text does not tell cells of zero, the sign of a zero
beside an equal bound, the name of the model, the values that variables hold, or the kinds of
variables beyond the listed ones.
-/

namespace SparseProgram

variable {τ : Type} [Term τ]

theorem map_eq_map_of_inj {α β γ : Type} {f : α → β} {g : α → γ} {P : α → Prop}
    (hinj : ∀ a b, P a → P b → f a = f b → g a = g b) {l more : List α} (hl : ∀ a ∈ l, P a)
    (hmore : ∀ a ∈ more, P a) (h : l.map f = more.map f) : l.map g = more.map g := by
  induction l generalizing more with
  | nil =>
      cases more with
      | nil => rfl
      | cons b others => cases h
  | cons a rest ih =>
      cases more with
      | nil => cases h
      | cons b others =>
          rw [List.forall_mem_cons] at hl hmore
          obtain ⟨hfirst, hrest⟩ := List.cons.inj h
          rw [List.map_cons, List.map_cons, hinj a b hl.1 hmore.1 hfirst, ih hl.2 hmore.2 hrest]

theorem append_cons_inj_of_not_mem {α : Type} {a : α} {l l' rest more : List α} (hl : a ∉ l)
    (hl' : a ∉ l') (h : l ++ a :: rest = l' ++ a :: more) : l = l' ∧ rest = more := by
  induction l generalizing l' with
  | nil =>
      cases l' with
      | nil => exact ⟨rfl, (List.cons.inj h).2⟩
      | cons b others => exact absurd ((List.cons.inj h).1 ▸ List.mem_cons_self) hl'
  | cons b others ih =>
      cases l' with
      | nil => exact absurd ((List.cons.inj h).1 ▸ List.mem_cons_self) hl
      | cons b' others' =>
          rw [List.mem_cons, not_or] at hl hl'
          obtain ⟨hfirst, hrest⟩ := List.cons.inj h
          obtain ⟨hothers, hmore⟩ := ih hl.2 hl'.2 hrest
          exact ⟨by rw [hfirst, hothers], hmore⟩

omit [Term τ] in
theorem RowStore.name_mem_of_mem_toRows {s : RowStore τ} {row : Row τ} (h : row ∈ s.toRows) :
    row.name ∈ s.names := by
  obtain ⟨line, hline, rfl⟩ := List.mem_map.1 h
  exact (List.of_mem_zip hline).2

namespace Model

/-- Names that lines of words can hold. -/
structure HasPlainNames (m : Model τ) : Prop where
  columns : PlainNames (m.vars.map (·.name))
  rows : ∀ name ∈ m.constraints.names, IsWord name

/-- All that the text of a model tells. Numbers are the same, those of bounds only compare equal. -/
structure LooksLike (m n : Model τ) : Prop where
  sense : m.objective.sense = n.objective.sense
  objective : withoutZeros m.objectiveEntries = withoutZeros n.objectiveEntries
  rows : m.constraints.toRows.map Row.withoutZeros = n.constraints.toRows.map Row.withoutZeros
  names : m.vars.map (·.name) = n.vars.map (·.name)
  bounds : List.Forall₂ Bounds.Matches (m.vars.map (·.bounds)) (n.vars.map (·.bounds))
  generals : m.vars.map (·.kind.isGeneral) = n.vars.map (·.kind.isGeneral)
  binaries : Term.isQuadratic τ = true →
    m.vars.map (·.kind.isBinary) = n.vars.map (·.kind.isBinary)

variable {m n : Model τ}

theorem HasPlainNames.isLine_of_mem_lines (h : m.HasPlainNames) :
    ∀ line ∈ m.lines, IsLine line := by
  have hnames := h.columns.areWords
  have hvars : ∀ v ∈ m.vars, IsWord v.name := List.forall_mem_map.1 hnames
  have hsense : IsLine [Named.name m.objective.sense] := by
    cases m.objective.sense <;> decide
  have hobjective : IsLine m.objectiveLine :=
    ⟨List.cons_ne_nil _ _, List.forall_mem_cons.2 ⟨by decide, isWord_of_mem_flatMap hnames _⟩⟩
  have hrows : ∀ line ∈ m.rowLines, IsLine line :=
    List.forall_mem_map.2 fun row hrow =>
      isLine_rowLine hnames (h.rows row.name (RowStore.name_mem_of_mem_toRows hrow))
  have hbounds : ∀ line ∈ m.vars.map Variable.boundLine, IsLine line :=
    List.forall_mem_map.2 fun v hv => isLine_boundLine (hvars v hv)
  have hbinaries : ∀ line ∈ m.binaryLines, IsLine line := by
    unfold binaryLines
    split
    · exact isLine_of_mem_listing (by decide) hvars
    · simp
  have hgenerals : ∀ line ∈ m.generalLines, IsLine line :=
    isLine_of_mem_listing (by decide) hvars
  have hfixed : IsLine [""] ∧ IsLine ["Subject", "To"] ∧ IsLine ["Bounds"] ∧ IsLine ["End"] := by
    decide
  simp only [lines, List.forall_mem_cons, List.forall_mem_append]
  exact ⟨hsense, hobjective, hfixed.1, hfixed.2.1, hrows, hfixed.1, hfixed.2.2.1, hbounds,
    hfixed.1, hbinaries, hgenerals, hfixed.2.2.2, by simp⟩

/-- Models of the same text have the same lines. -/
theorem lines_eq_of_same_text (hm : m.WellFormed) (hn : n.WellFormed) (hnames : m.HasPlainNames)
    (hnames' : n.HasPlainNames) (h : m.lpText? = n.lpText?) : m.lines = n.lines := by
  apply linesText_inj hnames.isLine_of_mem_lines hnames'.isLine_of_mem_lines
  rw [lpText?, lpText?, (writes_render hm).text?_eq, (writes_render hn).text?_eq] at h
  exact String.ofList_injective (Option.some.inj h)

/-- The lines of rows and of bounds have several words, so the empty lines behind them are found. -/
theorem sections_of_lines_eq (h : m.lines = n.lines) :
    m.objective.sense = n.objective.sense ∧ m.objectiveLine = n.objectiveLine
      ∧ m.rowLines = n.rowLines
      ∧ m.vars.map Variable.boundLine = n.vars.map Variable.boundLine
      ∧ m.binaryLines ++ (m.generalLines ++ [["End"]])
        = n.binaryLines ++ (n.generalLines ++ [["End"]]) := by
  have hrows : ∀ k : Model τ, [""] ∉ k.rowLines := by
    intro k hmem
    obtain ⟨row, -, hrow⟩ := List.mem_map.1 hmem
    cases (List.cons.inj hrow).2
  have hbounds : ∀ k : Model τ, [""] ∉ k.vars.map Variable.boundLine := by
    intro k hmem
    obtain ⟨v, -, hv⟩ := List.mem_map.1 hmem
    have hwords := (List.cons.inj hv).2
    cases hform : v.bounds.form <;> simp [hform, BoundForm.words] at hwords
  simp only [lines, List.cons.injEq, true_and, and_true] at h
  obtain ⟨hsense, hobjective, hrest⟩ := h
  obtain ⟨hrow, hlast⟩ := append_cons_inj_of_not_mem (hrows m) (hrows n) hrest
  obtain ⟨hbound, hlistings⟩ :=
    append_cons_inj_of_not_mem (hbounds m) (hbounds n) (List.cons.inj hlast).2
  refine ⟨?_, hobjective, hrow, hbound, hlistings⟩
  revert hsense
  cases m.objective.sense <;> cases n.objective.sense <;> decide

theorem listings_of_append_eq
    (h : m.binaryLines ++ (m.generalLines ++ [["End"]])
      = n.binaryLines ++ (n.generalLines ++ [["End"]])) :
    (Term.isQuadratic τ = true →
        (m.vars.filter (·.kind.isBinary)).map (·.name)
          = (n.vars.filter (·.kind.isBinary)).map (·.name))
      ∧ (m.vars.filter (·.kind.isGeneral)).map (·.name)
          = (n.vars.filter (·.kind.isGeneral)).map (·.name) := by
  have hend : ([["End"]] : List Line).head? ≠ some ["Generals"] := by decide
  have hlater : ∀ k : Model τ, (k.generalLines ++ [["End"]]).head? ≠ some ["Binaries"] := by
    intro k
    unfold generalLines listing
    split
    · exact by simp
    · exact by decide
  unfold binaryLines at h
  split at h
  · obtain ⟨hbinaries, hgenerals⟩ := listing_append_inj (hlater m) (hlater n) h
    exact ⟨fun _ => hbinaries, (listing_append_inj hend hend hgenerals).1⟩
  · rename_i hlinear
    exact ⟨fun hquadratic => absurd hquadratic hlinear, (listing_append_inj hend hend h).1⟩

/-- LP text is faithful: it can be read back up to what it does not show. -/
theorem looksLike_of_same_text (hm : m.firstDefect = none) (hn : n.firstDefect = none)
    (hnames : m.HasPlainNames) (hnames' : n.HasPlainNames) (h : m.lpText? = n.lpText?) :
    m.LooksLike n := by
  rw [firstDefect_eq_none_iff] at hm hn
  obtain ⟨hsense, hobjective, hrows, hbounds, hlistings⟩ :=
    sections_of_lines_eq (lines_eq_of_same_text hm hn hnames hnames' h)
  -- The bounds give the names of all columns, by which terms and listings are read.
  have hvars : List.Forall₂ (fun v w => v.name = w.name ∧ v.bounds.Matches w.bounds)
      m.vars n.vars := by
    rw [← List.forall₂_eq_eq_eq, List.forall₂_map_left_iff, List.forall₂_map_right_iff] at hbounds
    exact hbounds.imp fun _ _ => Variable.boundLine_inj
  have hcolumns : m.vars.map (·.name) = n.vars.map (·.name) := by
    rw [← List.forall₂_eq_eq_eq, List.forall₂_map_left_iff, List.forall₂_map_right_iff]
    exact hvars.imp fun _ _ hv => hv.1
  have hlength : m.vars.length = (m.vars.map (·.name)).length := by rw [List.length_map]
  have hlength' : n.vars.length = (m.vars.map (·.name)).length := by
    rw [hcolumns, List.length_map]
  obtain ⟨hbinaries, hgenerals⟩ := listings_of_append_eq hlistings
  have hdistinct := hnames.columns.distinct
  refine ⟨hsense, ?_, ?_, hcolumns, ?_, map_isListed_eq hdistinct hcolumns hgenerals,
    fun hquadratic => map_isListed_eq hdistinct hcolumns (hbinaries hquadratic)⟩
  · apply entries_inj hnames.columns (hlength ▸ hm.inRange_of_mem_objectiveEntries)
      (hlength' ▸ hn.inRange_of_mem_objectiveEntries)
    rw [objectiveLine, objectiveLine, ← hcolumns] at hobjective
    exact (List.cons.inj hobjective).2
  · rw [rowLines, rowLines, ← hcolumns] at hrows
    exact map_eq_map_of_inj (fun _ _ => rowLine_inj hnames.columns)
      (hlength ▸ hm.2.1.inRange_of_mem_toRows) (hlength' ▸ hn.2.1.inRange_of_mem_toRows) hrows
  · rw [List.forall₂_map_left_iff, List.forall₂_map_right_iff]
    exact hvars.imp fun _ _ hv => hv.2

def hedge : Model QuadraticTerm where
  name := "hedge"
  vars :=
    [⟨0, ⟨.zero, .ofInt 4⟩, .unsignedInteger, "x", none⟩, ⟨1, ⟨.zero, .zero⟩, .binary, "on", none⟩]
  constraints :=
    ⟨[⟨0, .linear 0, .ofInt 2⟩, ⟨0, .product 1 0, -.one⟩], [.lessEqual, .equal],
      [.ofInt 3, .zero], ["wet:1", "dry"]⟩
  objective := ⟨.maximum, [⟨.product 0 1, .one⟩]⟩

def hedgeTrimmed : Model QuadraticTerm where
  name := "hedge, trimmed"
  vars :=
    [⟨0, ⟨.zero, .ofInt 4⟩, .ternary, "x", some .one⟩, ⟨1, ⟨.zero, -.zero⟩, .binary, "on", none⟩]
  constraints :=
    ⟨[⟨0, .linear 0, .ofInt 2⟩, ⟨0, .product 1 0, -.one⟩, ⟨1, .linear 0, .zero⟩],
      [.lessEqual, .equal], [.ofInt 3, .zero], ["wet:1", "dry"]⟩
  objective := ⟨.maximum, [⟨.linear 1, -.zero⟩, ⟨.product 0 1, .one⟩]⟩

theorem hedge_looksLike_trimmed :
    hedge ≠ hedgeTrimmed ∧ hedge.lpText? = hedgeTrimmed.lpText?
      ∧ hedge.LooksLike hedgeTrimmed := by
  have hnames : hedge.HasPlainNames := ⟨⟨by decide, by decide, by decide⟩, by decide⟩
  have hnames' : hedgeTrimmed.HasPlainNames := ⟨⟨by decide, by decide, by decide⟩, by decide⟩
  have htext : hedge.lpText? = hedgeTrimmed.lpText? := by decide +kernel
  exact ⟨by decide +kernel, htext,
    looksLike_of_same_text (by decide +kernel) (by decide +kernel) hnames hnames' htext⟩

end Model

end SparseProgram
