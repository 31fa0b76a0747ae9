import Mathlib.Data.List.Forall2
import Mathlib.Data.List.Nodup
import SparseProgram.Proofs.LpText.Words
import SparseProgram.Proofs.Number.Negation
import SparseProgram.Proofs.Number.Text
import SparseProgram.Semantics.Exactness

/-!
# Reading LP text back

What each kind of line says: the words of a term tell the term and its coefficient, those of a row
its name, cells, relation and right-hand side, those of a bound line a name and an interval.
-/

namespace SparseProgram

/-! ## Words that are written -/

theorem isWord_text (x : Binary64) : IsWord x.text := by
  match x with
  | .nan => decide
  | .infinite negative => cases negative <;> decide
  | .finite negative m =>
      intro c hc
      rw [Binary64.toList_text_finite] at hc
      exact Decimal.ne_break_of_mem_text hc

theorem isWord_symbol (relation : Relation) : IsWord relation.symbol := by
  cases relation <;> decide

theorem isWord_nameAt {names : List String} (h : ∀ name ∈ names, IsWord name) (column : Nat) :
    IsWord (nameAt names column) := by
  unfold nameAt
  cases hcolumn : names[column]? with
  | none => decide
  | some name => exact h name (List.mem_of_getElem? hcolumn)

def isSign (word : String) : Bool :=
  word == "+" || word == "-"

/-- Names that can be told apart and from the signs of terms. The empty name and the star are no
obstacle. -/
structure PlainNames (names : List String) : Prop where
  distinct : names.Nodup
  areWords : ∀ name ∈ names, IsWord name
  unsigned : ∀ name ∈ names, isSign name = false

theorem isSign_text (x : Binary64) : isSign x.text = false := by
  simp [isSign, x.text_ne_sign]

theorem isSign_signWord (coefficient : Binary64) : isSign (signWord coefficient) = true := by
  unfold signWord
  split <;> decide

variable {τ : Type} [Term τ] {names : List String}

theorem nameWords_eq (names : List String) (term : τ) :
    nameWords names term = nameAt names (Term.columns term).1
      :: (Term.columns term).2.toList.flatMap fun column => ["*", nameAt names column] := by
  unfold nameWords Term.columnList
  cases (Term.columns term).2 <;> rfl

theorem forall_mem_bodyWords {P : String → Prop} {entry : τ × Binary64}
    (htext : P entry.2.abs.text) (hstar : P "*")
    (hname : ∀ column ∈ Term.columnList entry.1, P (nameAt names column)) :
    ∀ word ∈ bodyWords names entry, P word := by
  intro word hword
  rcases List.mem_append.1 hword with hmagnitude | hnames
  · unfold magnitudeWords at hmagnitude
    split at hmagnitude
    · cases hmagnitude
    · rwa [List.mem_singleton.1 hmagnitude]
  · rw [Term.columnList, List.forall_mem_cons] at hname
    rw [nameWords_eq] at hnames
    rcases List.mem_cons.1 hnames with rfl | hrest
    · exact hname.1
    · obtain ⟨column, hcolumn, hmem⟩ := List.mem_flatMap.1 hrest
      rcases List.mem_cons.1 hmem with rfl | hlast
      · exact hstar
      · rw [List.mem_singleton.1 hlast]
        exact hname.2 column hcolumn

theorem isWord_of_mem_entryWords (h : ∀ name ∈ names, IsWord name) {entry : τ × Binary64} :
    ∀ word ∈ entryWords names entry, IsWord word := by
  intro word hword
  unfold entryWords at hword
  split at hword
  · cases hword
  · rcases List.mem_cons.1 hword with rfl | hbody
    · unfold signWord
      split <;> decide
    · exact forall_mem_bodyWords (isWord_text _) (by decide)
        (fun column _ => isWord_nameAt h column) word hbody

theorem isWord_of_mem_flatMap (h : ∀ name ∈ names, IsWord name)
    (entries : List (τ × Binary64)) :
    ∀ word ∈ entries.flatMap (entryWords names), IsWord word := by
  intro word hword
  obtain ⟨entry, -, hentry⟩ := List.mem_flatMap.1 hword
  exact isWord_of_mem_entryWords h word hentry

theorem isLine_rowLine (h : ∀ name ∈ names, IsWord name) {row : Row τ} (hrow : IsWord row.name) :
    IsLine (rowLine names row) := by
  refine ⟨List.cons_ne_nil _ _, ?_⟩
  have hcells : ∀ word ∈ cellWords names row.cells, IsWord word := by
    intro word hword
    rcases List.mem_append.1 hword with hentries | hzero
    · exact isWord_of_mem_flatMap h row.cells word hentries
    · split at hzero
      · rw [List.mem_singleton.1 hzero]
        decide
      · cases hzero
  simp only [rowLine, List.forall_mem_cons, List.forall_mem_append]
  exact ⟨by decide, hrow.append (by decide), hcells, isWord_symbol _, isWord_text _, by simp⟩

theorem isLine_boundLine {v : Variable} (h : IsWord v.name) : IsLine v.boundLine := by
  refine ⟨List.cons_ne_nil _ _, List.forall_mem_cons.2 ⟨by decide, ?_⟩⟩
  have hsymbols : IsWord "free" ∧ IsWord "<=" ∧ IsWord ">=" ∧ IsWord "=" := by decide
  cases v.bounds.form <;> simp [BoundForm.words, h, hsymbols, isWord_text]

theorem isLine_of_mem_listing {title : String} {isListed : Variable → Bool}
    {vars : List Variable} (htitle : IsWord title) (h : ∀ v ∈ vars, IsWord v.name) :
    ∀ line ∈ listing title isListed vars, IsLine line := by
  intro line hline
  unfold listing at hline
  split at hline
  · rcases List.mem_cons.1 hline with rfl | hnames
    · exact ⟨List.cons_ne_nil _ _, by simpa using htitle⟩
    · rw [List.mem_singleton.1 hnames]
      refine ⟨List.cons_ne_nil _ _, List.forall_mem_cons.2 ⟨by decide, ?_⟩⟩
      intro name hname
      obtain ⟨v, hv, rfl⟩ := List.mem_map.1 hname
      exact h v (List.mem_filter.1 hv).1
  · cases hline

/-! ## Terms -/

def withoutZeros (entries : List (τ × Binary64)) : List (τ × Binary64) :=
  entries.filter fun entry => !entry.2.isZero

/-- Items that each begin with a mark, and have no other, can be told apart. -/
theorem flatMap_marked_inj {α β : Type} {isMark : β → Bool} {mark : α → β} {body : α → List β}
    {P : α → Prop} (hmark : ∀ a, isMark (mark a) = true)
    (hbody : ∀ a, P a → ∀ b ∈ body a, isMark b = false)
    (hinj : ∀ a b, P a → P b → mark a = mark b → body a = body b → a = b)
    {l more : List α} (hl : ∀ a ∈ l, P a) (hmore : ∀ a ∈ more, P a)
    (h : (l.flatMap fun a => mark a :: body a) = more.flatMap fun a => mark a :: body a) :
    l = more := by
  -- A body ends where the next mark stands, or with the list.
  have hends : ∀ (a : α) (rest : List α), P a →
      (body a ++ rest.flatMap fun a => mark a :: body a).takeWhile (fun b => !isMark b)
        = body a := by
    intro a rest ha
    rw [List.takeWhile_append_of_pos (by simpa using hbody a ha)]
    cases rest with
    | nil => simp
    | cons next others => simp [hmark]
  induction l generalizing more with
  | nil =>
      cases more with
      | nil => rfl
      | cons b others => cases h
  | cons a rest ih =>
      cases more with
      | nil => cases h
      | cons b others =>
          rw [List.forall_mem_cons] at hl hmore
          rw [List.flatMap_cons, List.flatMap_cons] at h
          obtain ⟨hmarks, htails⟩ := List.cons.inj h
          have hbodies : body a = body b := by
            rw [← hends a rest hl.1, ← hends b others hmore.1]
            exact congrArg _ htails
          have hitem := hinj a b hl.1 hmore.1 hmarks hbodies
          have hrest := ih hl.2 hmore.2 (by
            rw [List.append_eq, List.append_eq, hbodies] at htails
            exact List.append_cancel_left htails)
          rw [hitem, hrest]

theorem flatMap_entryWords (names : List String) (entries : List (τ × Binary64)) :
    entries.flatMap (entryWords names)
      = (withoutZeros entries).flatMap fun entry => signWord entry.2 :: bodyWords names entry := by
  induction entries with
  | nil => rfl
  | cons entry rest ih =>
      rw [List.flatMap_cons, ih, withoutZeros, withoutZeros, List.filter_cons, entryWords]
      cases entry.2.isZero <;> rfl

theorem nameAt_inj (h : names.Nodup) {a b : Nat} (ha : a < names.length) (hb : b < names.length)
    (hname : nameAt names a = nameAt names b) : a = b := by
  rw [nameAt, nameAt, List.getElem?_eq_getElem ha, List.getElem?_eq_getElem hb] at hname
  exact h.getElem_inj_iff.1 hname

theorem nameWords_inj (h : names.Nodup) {s t : τ} (hs : Term.InRange names.length s)
    (ht : Term.InRange names.length t) (hwords : nameWords names s = nameWords names t) :
    s = t := by
  apply Term.columns_injective
  rw [nameWords_eq, nameWords_eq] at hwords
  rw [Term.InRange, Term.columnList, List.forall_mem_cons] at hs ht
  obtain ⟨hfirst, hsecond⟩ := List.cons.inj hwords
  refine Prod.ext (nameAt_inj h hs.1 ht.1 hfirst) ?_
  cases hs' : (Term.columns s).2 with
  | none =>
      cases ht' : (Term.columns t).2 with
      | none => rfl
      | some b => simp [hs', ht'] at hsecond
  | some a =>
      cases ht' : (Term.columns t).2 with
      | none => simp [hs', ht'] at hsecond
      | some b =>
          have hname : nameAt names a = nameAt names b := by simpa [hs', ht'] using hsecond
          rw [nameAt_inj h (hs.2 a (by simp [hs'])) (ht.2 b (by simp [ht'])) hname]

theorem magnitudeWords_inj {x y : Binary64}
    (h : magnitudeWords x.abs = magnitudeWords y.abs) : x.abs = y.abs := by
  unfold magnitudeWords at h
  split at h
  · rename_i hx
    split at h
    · rename_i hy
      rw [Binary64.abs_eq_one_of_sameNumber hx, Binary64.abs_eq_one_of_sameNumber hy]
    · cases h
  · split at h
    · cases h
    · exact Binary64.text_inj (List.cons.inj h).1

theorem signWord_inj {x y : Binary64} (h : signWord x = signWord y) :
    x.isNegative = y.isNegative := by
  revert h
  unfold signWord
  cases x.isNegative <;> cases y.isNegative <;> decide

theorem length_magnitudeWords_le (magnitude : Binary64) :
    (magnitudeWords magnitude).length ≤ 1 := by
  unfold magnitudeWords
  split <;> simp

theorem length_nameWords (names : List String) (term : τ) :
    (nameWords names term).length = 2 * (Term.columns term).2.toList.length + 1 := by
  rw [nameWords_eq]
  cases (Term.columns term).2 <;> rfl

/-- Names and stars are odd in number, so the number of words tells whether a magnitude is there. -/
theorem split_bodyWords {entry other : τ × Binary64}
    (h : bodyWords names entry = bodyWords names other) :
    magnitudeWords entry.2.abs = magnitudeWords other.2.abs
      ∧ nameWords names entry.1 = nameWords names other.1 := by
  apply List.append_inj h
  have hlength := congrArg List.length h
  have hmagnitude := length_magnitudeWords_le entry.2.abs
  have hmagnitude' := length_magnitudeWords_le other.2.abs
  rw [bodyWords, bodyWords, List.length_append, List.length_append, length_nameWords,
    length_nameWords] at hlength
  omega

theorem entries_inj (hnames : PlainNames names) {entries more : List (τ × Binary64)}
    (h : ∀ entry ∈ entries, Term.InRange names.length entry.1)
    (h' : ∀ entry ∈ more, Term.InRange names.length entry.1)
    (hwords : entries.flatMap (entryWords names) = more.flatMap (entryWords names)) :
    withoutZeros entries = withoutZeros more := by
  have hwritten : ∀ {l : List (τ × Binary64)},
      (∀ entry ∈ l, Term.InRange names.length entry.1) →
      ∀ entry ∈ withoutZeros l, entry.2.isZero = false ∧ Term.InRange names.length entry.1 := by
    intro l hl entry hentry
    rw [withoutZeros, List.mem_filter] at hentry
    exact ⟨by simpa using hentry.2, hl entry hentry.1⟩
  rw [flatMap_entryWords, flatMap_entryWords] at hwords
  refine flatMap_marked_inj (fun entry => isSign_signWord entry.2) ?_ ?_
    (hwritten h) (hwritten h') hwords
  · intro entry hentry
    apply forall_mem_bodyWords (P := fun word => isSign word = false) (isSign_text _) (by decide)
    intro column hcolumn
    apply hnames.unsigned
    simp [nameAt, hentry.2 column hcolumn]
  · intro entry other hentry hother hsign hbody
    obtain ⟨hmagnitude, hterm⟩ := split_bodyWords hbody
    exact Prod.ext (nameWords_inj hnames.distinct hentry.2 hother.2 hterm)
      (Binary64.eq_of_isNegative_of_abs hentry.1 hother.1 (signWord_inj hsign)
        (magnitudeWords_inj hmagnitude))

/-! ## Rows -/

def Row.withoutZeros (row : Row τ) : Row τ :=
  { row with cells := SparseProgram.withoutZeros row.cells }

theorem symbol_inj {r s : Relation} (h : r.symbol = s.symbol) : r = s := by
  revert h
  cases r <;> cases s <;> decide

omit [Term τ] in
theorem withoutZeros_eq_nil_iff {entries : List (τ × Binary64)} :
    withoutZeros entries = [] ↔ entries.all (·.2.isZero) = true := by
  simp [withoutZeros, List.filter_eq_nil_iff]

/-- The zero of a row without terms is not mistaken for the sign of one. -/
theorem cells_inj (hnames : PlainNames names) {entries more : List (τ × Binary64)}
    (h : ∀ entry ∈ entries, Term.InRange names.length entry.1)
    (h' : ∀ entry ∈ more, Term.InRange names.length entry.1)
    (hwords : cellWords names entries = cellWords names more) :
    withoutZeros entries = withoutZeros more := by
  have hzero : ∀ {l l' : List (τ × Binary64)}, l.all (·.2.isZero) = true →
      cellWords names l = cellWords names l' → l'.all (·.2.isZero) = true := by
    intro l l' hl heq
    by_contra hl'
    rw [cellWords, cellWords, if_pos hl, if_neg hl', flatMap_entryWords, flatMap_entryWords,
      withoutZeros_eq_nil_iff.2 hl] at heq
    obtain ⟨entry, rest, hcons⟩ := List.exists_cons_of_ne_nil (mt withoutZeros_eq_nil_iff.1 hl')
    rw [hcons] at heq
    have hsign := isSign_signWord entry.2
    rw [← (List.cons.inj heq).1] at hsign
    exact absurd hsign (by decide)
  by_cases hall : entries.all (·.2.isZero) = true
  · rw [withoutZeros_eq_nil_iff.2 hall, withoutZeros_eq_nil_iff.2 (hzero hall hwords)]
  · have hall' : ¬ more.all (·.2.isZero) = true := fun h => hall (hzero h hwords.symm)
    apply entries_inj hnames h h'
    simpa [cellWords, if_neg hall, if_neg hall'] using hwords

theorem rowLine_inj (hnames : PlainNames names) {row other : Row τ}
    (h : ∀ entry ∈ row.cells, Term.InRange names.length entry.1)
    (h' : ∀ entry ∈ other.cells, Term.InRange names.length entry.1)
    (hline : rowLine names row = rowLine names other) :
    row.withoutZeros = other.withoutZeros := by
  obtain ⟨hname, hwords⟩ := List.cons.inj (List.cons.inj hline).2
  -- The last two words are the relation and the right-hand side.
  obtain ⟨hcells, hlast⟩ := List.append_inj' hwords rfl
  obtain ⟨hsymbol, hright⟩ := List.cons.inj hlast
  have hcolon : row.name = other.name := by
    apply String.toList_injective
    have hchars := congrArg String.toList hname
    rw [String.toList_append, String.toList_append] at hchars
    exact List.append_cancel_right hchars
  rw [Row.withoutZeros, Row.withoutZeros, cells_inj hnames h h' hcells, symbol_inj hsymbol,
    Binary64.text_inj (List.cons.inj hright).1, hcolon]

/-! ## Variables -/

theorem BoundForm.words_inj {name other : String} {form form' : BoundForm}
    (h : form.words name = form'.words other) : name = other ∧ form = form' := by
  cases form <;> cases form' <;> simp [words] at h
  case free.free => exact ⟨h, rfl⟩
  case atMost.atMost => exact ⟨h.1, congrArg _ (Binary64.text_inj h.2)⟩
  case atLeast.atLeast => exact ⟨h.1, congrArg _ (Binary64.text_inj h.2)⟩
  case fixed.fixed => exact ⟨h.1, congrArg _ (Binary64.text_inj h.2)⟩
  case between.between =>
    exact ⟨h.2.1, congr (congrArg _ (Binary64.text_inj h.1)) (Binary64.text_inj h.2.2)⟩

namespace Bounds

def Matches (b c : Bounds) : Prop :=
  b.lower.Matches c.lower ∧ b.upper.Matches c.upper

def HasForm (b : Bounds) : BoundForm → Prop
  | .free => b.lowerIsFree = true ∧ b.upperIsFree = true
  | .atMost upper => b.lowerIsFree = true ∧ b.upper = upper
  | .atLeast lower => b.lower = lower ∧ b.upperIsFree = true
  | .fixed value => b.lower = value ∧ b.upper.sameNumber value = true
  | .between lower upper => b.lower = lower ∧ b.upper = upper

theorem hasForm_form (b : Bounds) : b.HasForm b.form := by
  unfold form
  split
  · exact ⟨‹_›, ‹_›⟩
  · exact ⟨‹_›, rfl⟩
  · exact ⟨rfl, ‹_›⟩
  · split
    · rename_i hfixed
      exact ⟨rfl, Binary64.sameNumber_comm _ _ ▸ hfixed⟩
    · exact ⟨rfl, rfl⟩

theorem matches_of_hasForm {b c : Bounds} {form : BoundForm} (hb : b.HasForm form)
    (hc : c.HasForm form) : b.Matches c := by
  have hequal : ∀ {x y z : Binary64}, x = z → y = z → x.Matches y :=
    fun hx hy => Binary64.matches_of_eq (hx.trans hy.symm)
  cases form with
  | free =>
      exact ⟨Binary64.matches_of_sameNumber hb.1 hc.1, Binary64.matches_of_sameNumber hb.2 hc.2⟩
  | atMost upper => exact ⟨Binary64.matches_of_sameNumber hb.1 hc.1, hequal hb.2 hc.2⟩
  | atLeast lower => exact ⟨hequal hb.1 hc.1, Binary64.matches_of_sameNumber hb.2 hc.2⟩
  | fixed value => exact ⟨hequal hb.1 hc.1, Binary64.matches_of_sameNumber hb.2 hc.2⟩
  | between lower upper => exact ⟨hequal hb.1 hc.1, hequal hb.2 hc.2⟩

end Bounds

theorem Variable.boundLine_inj {v w : Variable} (h : v.boundLine = w.boundLine) :
    v.name = w.name ∧ v.bounds.Matches w.bounds := by
  obtain ⟨hname, hform⟩ := BoundForm.words_inj (List.cons.inj h).2
  exact ⟨hname, Bounds.matches_of_hasForm v.bounds.hasForm_form (hform ▸ w.bounds.hasForm_form)⟩

/-! ## Listings -/

/-- A listing is read back up to lines that cannot begin one of its own title. -/
theorem listing_append_inj {title : String} {isListed : Variable → Bool}
    {vars others : List Variable} {rest more : List Line} (hrest : rest.head? ≠ some [title])
    (hmore : more.head? ≠ some [title])
    (h : listing title isListed vars ++ rest = listing title isListed others ++ more) :
    (vars.filter isListed).map (·.name) = (others.filter isListed).map (·.name)
      ∧ rest = more := by
  have hnone : ∀ {l : List Variable}, ¬ l.any isListed = true → l.filter isListed = [] := by
    intro l hl
    simpa [List.filter_eq_nil_iff] using hl
  unfold listing at h
  split at h
  · split at h
    · obtain ⟨hnames, hlines⟩ := List.cons.inj (List.cons.inj h).2
      exact ⟨(List.cons.inj hnames).2, hlines⟩
    · rw [List.nil_append] at h
      exact absurd (h ▸ rfl) hmore
  · rename_i hvars
    split at h
    · rw [List.nil_append] at h
      exact absurd (h ▸ rfl) hrest
    · rename_i hothers
      rw [hnone hvars, hnone hothers]
      exact ⟨rfl, h⟩

theorem name_mem_filter_iff {isListed : Variable → Bool} {vars : List Variable}
    (hdistinct : (vars.map (·.name)).Nodup) {v : Variable} (hv : v ∈ vars) :
    v.name ∈ (vars.filter isListed).map (·.name) ↔ isListed v = true := by
  constructor
  · intro h
    obtain ⟨w, hw, hname⟩ := List.mem_map.1 h
    obtain ⟨hmem, hlisted⟩ := List.mem_filter.1 hw
    rwa [← List.inj_on_of_nodup_map hdistinct hmem hv hname]
  · intro h
    exact List.mem_map_of_mem (List.mem_filter.2 ⟨hv, h⟩)

theorem map_isListed_eq {isListed : Variable → Bool} {vars others : List Variable}
    (hdistinct : (vars.map (·.name)).Nodup)
    (hnames : vars.map (·.name) = others.map (·.name))
    (h : (vars.filter isListed).map (·.name) = (others.filter isListed).map (·.name)) :
    vars.map isListed = others.map isListed := by
  have hdistinct' := hnames ▸ hdistinct
  apply List.ext_getElem
  · simpa using congrArg List.length hnames
  · intro i hi hi'
    rw [List.length_map] at hi hi'
    have hname : vars[i].name = others[i].name := by
      have hget := List.getElem_of_eq hnames (by simpa using hi)
      simpa using hget
    rw [List.getElem_map, List.getElem_map, Bool.eq_iff_iff,
      ← name_mem_filter_iff hdistinct (List.getElem_mem hi),
      ← name_mem_filter_iff hdistinct' (List.getElem_mem hi'), h, hname]

end SparseProgram
