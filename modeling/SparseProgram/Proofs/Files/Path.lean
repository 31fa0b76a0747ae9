import SparseProgram.Files.Shape

/-!
# Laws of paths

The names of a path, read where it is put together, and those of the directory that holds what it
names. Dots in a path are names that lead nowhere.
-/

namespace SparseProgram

namespace Path

variable {path directory name before after : String} {location : List String}

theorem segments_append_slash (before after : String) :
    segments (before ++ "/" ++ after) = segments before ++ segments after := by
  simp [segments, List.splitOn, List.splitOnP_append_cons]

theorem names_append_slash (before after : String) :
    names (before ++ "/" ++ after) = names before ++ names after := by
  rw [names, segments_append_slash, List.filter_append]
  rfl

theorem segments_of_not_mem (h : '/' ∉ path.toList) : segments path = [path] := by
  simp [segments, List.splitOn_eq_singleton h]

theorem names_of_isName (h : IsName name) : names name = [name] := by
  rw [names, segments_of_not_mem h.2.2.2]
  simp [h.1]

theorem not_isAbsolute_of_not_mem (h : '/' ∉ path.toList) : isAbsolute path = false := by
  rw [isAbsolute, beq_eq_false_iff_ne]
  exact fun hhead => h (List.mem_of_mem_head? hhead)

theorem eq_append_slash (h : endsInSlash path = true) : ∃ before, path = before ++ "/" := by
  rw [endsInSlash, beq_iff_eq] at h
  obtain ⟨before, hbefore⟩ := List.getLast?_eq_some_iff.1 h
  refine ⟨String.ofList before, ?_⟩
  rw [← String.toList_inj, hbefore]
  simp

/-! ## Joining -/

theorem join_of_isAbsolute (h : isAbsolute name = true) (directory : String) :
    join directory name = name :=
  if_pos h

theorem names_join (h : isAbsolute name = false) :
    names (join directory name) = names directory ++ names name := by
  rw [join, if_neg (by simp [h])]
  split
  case isFalse => exact names_append_slash directory name
  case isTrue hend =>
    rw [Bool.or_eq_true, decide_eq_true_eq] at hend
    obtain rfl | hslash := hend
    · simp [names, segments]
    · obtain ⟨before, rfl⟩ := eq_append_slash hslash
      have hbefore := names_append_slash before ""
      rw [String.append_empty] at hbefore
      rw [names_append_slash, hbefore]
      simp [names, segments]

theorem isAbsolute_join (h : isAbsolute directory = true) (name : String) :
    isAbsolute (join directory name) = true := by
  rw [join]
  split
  case isTrue hname => exact hname
  case isFalse =>
    obtain ⟨rest, hrest⟩ : ∃ rest, directory.toList = '/' :: rest := by
      rw [isAbsolute, beq_iff_eq] at h
      exact List.head?_eq_some_iff.1 h
    split <;> simp [isAbsolute, hrest]

/-! ## Segments -/

theorem segments_intercalate {parts : List String} (hne : parts ≠ [])
    (h : ∀ part ∈ parts, '/' ∉ part.toList) :
    segments (String.intercalate "/" parts) = parts := by
  have hslash : ∀ part ∈ parts.map String.toList, '/' ∉ part := by
    rwa [List.forall_mem_map]
  rw [segments, String.toList_intercalate]
  have hsplit := List.splitOn_intercalate '/' hslash (by simpa using hne)
  rw [show "/".toList = ['/'] from rfl, hsplit]
  simp

theorem names_ofLocation (h : ∀ name ∈ location, IsName name) :
    names (ofLocation location) = location := by
  have hkeep : location.filter (· != "") = location :=
    List.filter_eq_self.2 fun name hname => by simpa using (h name hname).1
  have hfront : ofLocation location = "" ++ "/" ++ String.intercalate "/" location := by
    simp [ofLocation]
  rw [hfront, names_append_slash]
  cases location with
  | nil => rfl
  | cons first rest =>
      rw [names, names, segments_intercalate (by simp) fun name hname => (h name hname).2.2.2, hkeep]
      rfl

theorem isAbsolute_ofLocation (location : List String) :
    isAbsolute (ofLocation location) = true := by
  simp [isAbsolute, ofLocation]

theorem not_mem_of_mem_splitOn {letters part : List Char} (h : part ∈ letters.splitOn '/') :
    '/' ∉ part := by
  induction letters generalizing part with
  | nil => simp_all [List.splitOn]
  | cons letter rest ih =>
      rw [List.splitOn, List.splitOnP_cons_eq_if_modifyHead] at h
      split at h
      case isTrue =>
        obtain rfl | hrest := List.mem_cons.1 h
        · exact List.not_mem_nil
        · exact ih hrest
      case isFalse hletter =>
        obtain ⟨first, others, hsplit⟩ := List.exists_cons_of_ne_nil (List.splitOn_ne_nil '/' rest)
        rw [List.splitOn] at hsplit
        rw [hsplit, List.modifyHead_cons] at h
        obtain rfl | hothers := List.mem_cons.1 h
        · rw [List.mem_cons, not_or]
          refine ⟨fun heq => hletter (beq_iff_eq.2 heq.symm), ih ?_⟩
          rw [List.splitOn, hsplit]
          exact List.mem_cons_self
        · refine ih ?_
          rw [List.splitOn, hsplit]
          exact List.mem_cons_of_mem _ hothers

theorem not_mem_of_mem_segments {part : String} (h : part ∈ segments path) :
    '/' ∉ part.toList := by
  obtain ⟨letters, hletters, rfl⟩ := List.mem_map.1 h
  simpa using not_mem_of_mem_splitOn hletters

theorem isAbsolute_iff_of_segments {first : String} {rest : List String}
    (h : segments path = first :: rest) : isAbsolute path = true ↔ first = "" ∧ rest ≠ [] := by
  rw [segments] at h
  rw [isAbsolute]
  cases hletters : path.toList with
  | nil =>
      rw [hletters] at h
      obtain ⟨-, rfl⟩ := List.cons.inj h
      simp
  | cons letter letters =>
      rw [hletters, List.splitOn, List.splitOnP_cons_eq_if_modifyHead] at h
      obtain ⟨next, others, hsplit⟩ :=
        List.exists_cons_of_ne_nil (List.splitOnP_ne_nil (· == '/') letters)
      rw [hsplit] at h
      split at h
      case isTrue hslash =>
        obtain ⟨rfl, rfl⟩ := List.cons.inj h
        simpa using hslash
      case isFalse hslash =>
        obtain ⟨rfl, rfl⟩ := List.cons.inj h
        simpa using hslash

/-- A path is one segment, or a path and its last segment. -/
theorem eq_or_append_slash (path : String) :
    '/' ∉ path.toList ∨ ∃ before last, path = before ++ "/" ++ last ∧ '/' ∉ last.toList := by
  by_cases h : '/' ∈ path.toList.reverse
  case neg => exact .inl (by simpa using h)
  case pos =>
    obtain ⟨after, before, hsplit, hafter⟩ := List.eq_append_cons_of_mem h
    refine .inr ⟨String.ofList before.reverse, String.ofList after.reverse, ?_, by simpa using hafter⟩
    rw [← String.toList_inj, ← List.reverse_inj, hsplit]
    simp

/-! ## The directory of a path -/

theorem dropIdleEnd_concat {parts : List String} (h : isIdle name = false) :
    dropIdleEnd (parts ++ [name]) = parts ++ [name] := by
  simp [dropIdleEnd, h]

theorem dropIdleEnd_append (parts : List String) :
    ∃ idle, parts = dropIdleEnd parts ++ idle ∧ ∀ part ∈ idle, isIdle part = true := by
  refine ⟨(parts.reverse.takeWhile isIdle).reverse, ?_, ?_⟩
  · rw [dropIdleEnd, ← List.reverse_append, List.takeWhile_append_dropWhile, List.reverse_reverse]
  · intro part hpart
    exact List.all_eq_true.1 List.all_takeWhile part (List.mem_reverse.1 hpart)

theorem eq_dot_of_isIdle {part : String} (h : isIdle part = true) (hne : part ≠ "") :
    part = "." := by
  rw [isIdle, Bool.or_eq_true, decide_eq_true_eq, decide_eq_true_eq] at h
  exact h.resolve_left hne

theorem parent_of_not_mem (h : '/' ∉ path.toList) : parent path = "." := by
  rw [parent, segments_of_not_mem h]
  rfl

theorem parent_of_segments {first : String} {middle : List String}
    (h : segments path = first :: (middle ++ [name])) (hidle : isIdle name = false) :
    parent path = if String.intercalate "/" (first :: dropIdleEnd middle) = "" then "/"
      else String.intercalate "/" (first :: dropIdleEnd middle) := by
  have hkeep : dropIdleEnd (middle ++ [name]) = middle ++ [name] := dropIdleEnd_concat hidle
  rw [parent, h]
  dsimp only
  rw [hkeep]
  cases hcons : middle ++ [name] with
  | nil => simp at hcons
  | cons head tail =>
      dsimp only
      rw [← hcons, List.dropLast_concat]

theorem names_parent_of_segments {first : String} {middle : List String}
    (h : segments path = first :: (middle ++ [name])) (hidle : isIdle name = false) :
    names (parent path) = (first :: dropIdleEnd middle).filter (· != "")
      ∧ (isAbsolute (parent path) = true ↔ first = "") := by
  obtain ⟨idle, hmiddle, -⟩ := dropIdleEnd_append middle
  have hparts : ∀ part ∈ first :: dropIdleEnd middle, '/' ∉ part.toList := by
    intro part hpart
    have hpath : part ∈ segments path := by
      rw [h, hmiddle, List.append_assoc, ← List.cons_append]
      exact List.mem_append_left _ hpart
    exact not_mem_of_mem_segments hpath
  have hsegments := segments_intercalate (List.cons_ne_nil _ _) hparts
  rw [parent_of_segments h hidle]
  split
  case isTrue hempty =>
    -- only the root has no text before its slash
    rw [hempty] at hsegments
    obtain ⟨rfl, hnone⟩ := List.cons.inj (hsegments.symm.trans (show segments "" = [""] from rfl))
    rw [hnone]
    decide
  case isFalse htext =>
    rw [isAbsolute_iff_of_segments hsegments, names, hsegments]
    refine ⟨rfl, And.left, fun hfirst => ⟨hfirst, fun hnone => htext ?_⟩⟩
    rw [hfirst, hnone]
    rfl

theorem names_parent_append_slash (before : String) (hname : '/' ∉ name.toList)
    (hidle : isIdle name = false) :
    ∃ stem dots, names before = stem ++ dots ∧ (∀ part ∈ dots, part = ".")
      ∧ names (parent (before ++ "/" ++ name)) = stem
      ∧ isAbsolute (parent (before ++ "/" ++ name)) = isAbsolute (before ++ "/" ++ name) := by
  obtain ⟨first, middle, hbefore⟩ := List.exists_cons_of_ne_nil (show segments before ≠ [] by
    simp [segments, List.splitOn_ne_nil])
  have hsegments : segments (before ++ "/" ++ name) = first :: (middle ++ [name]) := by
    rw [segments_append_slash, hbefore, segments_of_not_mem hname]
    rfl
  obtain ⟨hparent, habsolute⟩ := names_parent_of_segments hsegments hidle
  obtain ⟨idle, hmiddle, hall⟩ := dropIdleEnd_append middle
  refine ⟨_, idle.filter (· != ""), ?_, ?_, hparent, ?_⟩
  · rw [names, hbefore, ← List.filter_append, List.cons_append, ← hmiddle]
  · intro part hpart
    rw [List.mem_filter, bne_iff_ne] at hpart
    exact eq_dot_of_isIdle (hall part hpart.1) hpart.2
  · rw [Bool.eq_iff_iff, habsolute, isAbsolute_iff_of_segments hsegments]
    simp

/-- The names of the directory that holds the last name of a path are those before it, up to dots. -/
theorem names_parent {before : List String} (hnames : names path = before ++ [name])
    (hdot : name ≠ ".") (hslash : endsInSlash path = false) :
    ∃ stem left right, before = stem ++ left ∧ names (parent path) = stem ++ right
      ∧ (∀ part ∈ left ++ right, part = ".") ∧ isAbsolute (parent path) = isAbsolute path := by
  obtain hplain | ⟨front, last, rfl, hlast⟩ := eq_or_append_slash path
  · rw [names, segments_of_not_mem hplain] at hnames
    have hbefore : before = [] := by
      have hshort := List.length_filter_le (· != "") [path]
      rw [hnames, List.length_append] at hshort
      exact List.length_eq_zero_iff.1 (by simpa using hshort)
    refine ⟨[], [], ["."], hbefore, ?_, by simp, ?_⟩
    · rw [parent_of_not_mem hplain]
      rfl
    · rw [parent_of_not_mem hplain, not_isAbsolute_of_not_mem hplain]
      rfl
  · have hne : last ≠ "" := by
      rintro rfl
      simp [endsInSlash] at hslash
    have hkeep : names last = [last] := by
      rw [names, segments_of_not_mem hlast]
      simp [hne]
    rw [names_append_slash, hkeep] at hnames
    obtain ⟨rfl, hname⟩ := List.append_inj' hnames rfl
    obtain rfl : last = name := by simpa using hname
    have hidle : isIdle last = false := by
      rw [isIdle, decide_eq_false hne, decide_eq_false hdot]
      rfl
    obtain ⟨stem, dots, hfront, hdots, hparent, habsolute⟩ :=
      names_parent_append_slash front hlast hidle
    refine ⟨stem, dots, [], hfront, ?_, ?_, habsolute⟩
    · rw [hparent, List.append_nil]
    · rwa [List.append_nil]

end Path

end SparseProgram
