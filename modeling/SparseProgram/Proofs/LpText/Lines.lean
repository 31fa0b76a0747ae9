import SparseProgram.LpText.Rendering

/-!
# Lines of words

Text laid out in lines of words. No word has a blank or a line break in it, so splitting a text at
line breaks and its lines at blanks reads the words back.
-/

namespace SparseProgram

/-- No blank and no line break. The empty word is one. -/
def IsWord (s : String) : Prop :=
  ∀ c ∈ s.toList, c ≠ ' ' ∧ c ≠ '\n'

instance (s : String) : Decidable (IsWord s) :=
  List.decidableBAll (fun c => c ≠ ' ' ∧ c ≠ '\n') s.toList

theorem IsWord.append {s t : String} (hs : IsWord s) (ht : IsWord t) : IsWord (s ++ t) := by
  intro c hc
  rw [String.toList_append, List.mem_append] at hc
  exact hc.elim (hs c) (ht c)

/-- The words of one line. A line that begins with a blank has an empty first word. -/
abbrev Line := List String

def lineText (line : Line) : List Char :=
  [' '].intercalate (line.map String.toList)

def spaced (words : List String) : List Char :=
  words.flatMap fun word => ' ' :: word.toList

/-- Lines with a line break behind each. -/
def linesText (lines : List Line) : List Char :=
  lines.flatMap fun line => lineText line ++ ['\n']

@[simp] theorem spaced_nil : spaced [] = [] :=
  rfl

@[simp] theorem spaced_cons (word : String) (words : List String) :
    spaced (word :: words) = ' ' :: word.toList ++ spaced words :=
  rfl

@[simp] theorem spaced_append (words more : List String) :
    spaced (words ++ more) = spaced words ++ spaced more :=
  List.flatMap_append

@[simp] theorem linesText_nil : linesText [] = [] :=
  rfl

@[simp] theorem linesText_cons (line : Line) (lines : List Line) :
    linesText (line :: lines) = lineText line ++ '\n' :: linesText lines := by
  simp [linesText]

@[simp] theorem linesText_append (lines more : List Line) :
    linesText (lines ++ more) = linesText lines ++ linesText more :=
  List.flatMap_append

theorem lineText_cons (word : String) (words : List String) :
    lineText (word :: words) = word.toList ++ spaced words := by
  induction words generalizing word with
  | nil => simp [lineText]
  | cons next rest ih =>
      have hrest := ih next
      rw [lineText, List.map_cons] at hrest
      rw [lineText, List.map_cons, List.map_cons, List.intercalate_cons_cons, hrest, spaced_cons]
      simp

@[simp] theorem lineText_indented (words : List String) : lineText ("" :: words) = spaced words :=
  lineText_cons "" words

@[simp] theorem lineText_single (word : String) : lineText [word] = word.toList := by
  simp [lineText_cons]

theorem spaced_eq_cons {words : List String} (h : words ≠ []) :
    spaced words = ' ' :: lineText words := by
  cases words with
  | nil => exact absurd rfl h
  | cons word rest => rw [spaced_cons, lineText_cons, List.cons_append]

/-! ## Reading back -/

def IsLine (line : Line) : Prop :=
  line ≠ [] ∧ ∀ word ∈ line, IsWord word

instance (line : Line) : Decidable (IsLine line) :=
  have := List.decidableBAll IsWord line
  inferInstanceAs (Decidable (_ ∧ _))

theorem splitOn_lineText {line : Line} (h : IsLine line) :
    (lineText line).splitOn ' ' = line.map String.toList := by
  apply List.splitOn_intercalate
  · intro chars hchars hblank
    obtain ⟨word, hword, rfl⟩ := List.mem_map.1 hchars
    exact (h.2 word hword ' ' hblank).1 rfl
  · simpa using h.1

theorem not_mem_lineText {line : Line} (h : IsLine line) : '\n' ∉ lineText line := by
  obtain ⟨first, rest, rfl⟩ := List.exists_cons_of_ne_nil h.1
  have hword := List.forall_mem_cons.1 h.2
  rw [lineText_cons, List.mem_append, spaced, List.mem_flatMap]
  rintro (hfirst | ⟨word, hmem, hbreak⟩)
  · exact (hword.1 '\n' hfirst).2 rfl
  · rcases List.mem_cons.1 hbreak with hblank | hrest
    · exact absurd hblank (by decide)
    · exact (hword.2 word hmem '\n' hrest).2 rfl

theorem linesText_eq_intercalate (lines : List Line) :
    linesText lines = ['\n'].intercalate (lines.map lineText ++ [[]]) := by
  induction lines with
  | nil => rfl
  | cons line rest ih =>
      obtain ⟨next, more, hnext⟩ := List.exists_cons_of_ne_nil
        (List.append_ne_nil_of_right_ne_nil (rest.map lineText) (List.cons_ne_nil [] []))
      rw [linesText_cons, ih, List.map_cons, List.cons_append, hnext, List.intercalate_cons_cons]
      simp

/-- The lines and words of a text. -/
def readLines (text : List Char) : List (List (List Char)) :=
  (text.splitOn '\n').map (·.splitOn ' ')

/-- Behind the last line break stands one more line, which is empty. -/
theorem readLines_linesText {lines : List Line} (h : ∀ line ∈ lines, IsLine line) :
    readLines (linesText lines) = lines.map (·.map String.toList) ++ [[[]]] := by
  have hsplit : (linesText lines).splitOn '\n' = lines.map lineText ++ [[]] := by
    rw [linesText_eq_intercalate]
    apply List.splitOn_intercalate
    · intro text htext
      rcases List.mem_append.1 htext with hline | hlast
      · obtain ⟨line, hmem, rfl⟩ := List.mem_map.1 hline
        exact not_mem_lineText (h line hmem)
      · simp [List.mem_singleton.1 hlast]
    · simp
  rw [readLines, hsplit, List.map_append, List.map_map]
  congr 1
  apply List.map_congr_left
  intro line hline
  exact splitOn_lineText (h line hline)

theorem linesText_inj {lines more : List Line} (h : ∀ line ∈ lines, IsLine line)
    (h' : ∀ line ∈ more, IsLine line) (heq : linesText lines = linesText more) : lines = more := by
  have hread : lines.map (·.map String.toList) ++ [[[]]]
      = more.map (·.map String.toList) ++ [[[]]] := by
    rw [← readLines_linesText h, ← readLines_linesText h', heq]
  apply (List.map_inj_right ?_).1 (List.append_cancel_right hread)
  intro line other hwords
  exact (List.map_inj_right fun _ _ => String.toList_injective).1 hwords

end SparseProgram
