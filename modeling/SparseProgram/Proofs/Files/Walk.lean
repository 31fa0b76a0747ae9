import SparseProgram.Proofs.Attempts
import SparseProgram.Proofs.Files.Tree
import SparseProgram.Files.Walk

/-!
# Laws of walks

A walk may be cut before its last name, where it stands in a directory, and along directories it
arrives at their own location. A new file is found where nothing was, and is else not seen.
-/

namespace SparseProgram

/-- What is found at a place once there is a file at `spot`. -/
def Place.beside (spot : Location) : Place → Place
  | existing location => existing location
  | missing directory name =>
      if directory ++ [name] = spot then existing spot else missing directory name

def Progress.beside (spot : Location) : Progress → Progress
  | arrived place => arrived (place.beside spot)
  | progress => progress

namespace FileTree

variable {tree : FileTree} {directory here location : Location} {name hidden target : String}
  {names rest : List String} {followLast : Bool} {links mode : Nat} {text : String} {place : Place}

/-! ## Single steps -/

theorem walk_of_arrived (h : tree.advance followLast here names = .arrived place) :
    tree.walk followLast links here names = .ok place := by
  rw [walk, h]

theorem walk_of_failed {error : FileError}
    (h : tree.advance followLast here names = .failed error) :
    tree.walk followLast links here names = .error error := by
  rw [walk, h]

theorem walk_zero_of_link (h : tree.advance followLast here names = .link directory target rest) :
    tree.walk followLast 0 here names = .error .filesystemLoop := by
  rw [walk, h]

theorem walk_succ_of_link (h : tree.advance followLast here names = .link directory target rest) :
    tree.walk followLast (links + 1) here names
      = tree.walk followLast links (if Path.isAbsolute target then [] else directory)
          (Path.steps target ++ rest) := by
  rw [walk, h]

theorem advance_plain (hhere : ¬(!tree.isDirectoryAt here) = true) (hdot : ¬name = ".")
    (hdots : ¬name = "..") (hlength : ¬longestName < name.utf8ByteSize) :
    tree.advance followLast here (name :: rest)
      = match tree.entryAt (here ++ [name]) with
        | none => if rest = [] then .arrived (.missing here name) else .failed .notFound
        | some (.symlink target) =>
            if rest = [] && !followLast then .arrived (.existing (here ++ [name]))
            else .link here target rest
        | some _ => tree.advance followLast (here ++ [name]) rest := by
  rw [advance]
  exact (if_neg hhere).trans ((if_neg hdot).trans ((if_neg hdots).trans (if_neg hlength)))

/-- A link on the way stands in a directory, and what is left of the names follows. -/
theorem advance_eq_link (h : tree.advance followLast here names = .link directory target rest) :
    tree.isDirectoryAt directory = true
      ∧ (∃ name, tree.entryAt (directory ++ [name]) = some (.symlink target)) ∧ rest ⊆ names := by
  fun_induction advance tree followLast here names with
  | case1 => cases h
  | case2 => cases h
  | case3 here others hhere ih =>
      exact (ih h).imp_right (And.imp_right (List.subset_cons_of_subset _))
  | case4 here others hhere hdot ih =>
      exact (ih h).imp_right (And.imp_right (List.subset_cons_of_subset _))
  | case5 => cases h
  | case6 => cases h
  | case7 => cases h
  | case8 => cases h
  | case9 here name others hhere hdot hdots hlength next link hlink =>
      cases h
      exact ⟨by simpa using hhere, ⟨name, hlink⟩, List.subset_cons_self name rest⟩
  | case10 here name others hhere hdot hdots hlength next entry hentry hnext ih =>
      exact (ih h).imp_right (And.imp_right (List.subset_cons_of_subset _))

/-! ## Before the last names -/

/-- Names are followed without a look at those behind them: to a directory, up to a link, or to an
error. -/
theorem advance_append (tree : FileTree) (here : Location) (names : List String) :
    (∃ directory, ∀ followLast last, last ≠ [] →
        tree.advance followLast here (names ++ last) = tree.advance followLast directory last)
      ∨ (∃ directory target rest, ∀ followLast last, last ≠ [] →
        tree.advance followLast here (names ++ last) = .link directory target (rest ++ last))
      ∨ ∃ error, ∀ followLast last, last ≠ [] →
        tree.advance followLast here (names ++ last) = .failed error := by
  fun_induction advance tree true here names with
  | case1 here => exact .inl ⟨here, fun _ _ _ => rfl⟩
  | case2 here name rest hhere =>
      refine .inr (.inr ⟨.notADirectory, fun followLast last hlast => ?_⟩)
      simp [advance, hhere]
  | case3 here rest hhere ih => simpa [advance, hhere] using ih
  | case4 here rest hhere hdot ih => simpa [advance, hhere] using ih
  | case5 here name rest hhere hdot hdots hlength =>
      refine .inr (.inr ⟨.invalidFilename, fun followLast last hlast => ?_⟩)
      simp [advance, hhere, hdot, hdots, hlength]
  | case6 here name hhere hdot hdots hlength next hentry =>
      refine .inr (.inr ⟨.notFound, fun followLast last hlast => ?_⟩)
      rw [List.cons_append, advance_plain hhere hdot hdots hlength, hentry]
      simp [hlast]
  | case7 here name rest hhere hdot hdots hlength next hentry hrest =>
      refine .inr (.inr ⟨.notFound, fun followLast last hlast => ?_⟩)
      rw [List.cons_append, advance_plain hhere hdot hdots hlength, hentry]
      simp [hlast]
  | case8 here name rest hhere hdot hdots hlength next target hentry hlink =>
      refine .inr (.inl ⟨here, target, rest, fun followLast last hlast => ?_⟩)
      rw [List.cons_append, advance_plain hhere hdot hdots hlength, hentry]
      simp [hlast]
  | case9 here name rest hhere hdot hdots hlength next target hentry hlink =>
      refine .inr (.inl ⟨here, target, rest, fun followLast last hlast => ?_⟩)
      rw [List.cons_append, advance_plain hhere hdot hdots hlength, hentry]
      simp [hlast]
  | case10 here name rest hhere hdot hdots hlength next entry hnolink hentry ih =>
      have hstep : ∀ followLast last, tree.advance followLast here (name :: rest ++ last)
          = tree.advance followLast next (rest ++ last) := by
        intro followLast last
        rw [List.cons_append, advance_plain hhere hdot hdots hlength, hentry]
        cases entry with
        | symlink target => exact absurd rfl (hnolink target)
        | directory => rfl
        | file mode text => rfl
      simpa only [hstep] using ih

theorem walk_congr {other : Location} {others : List String}
    (h : tree.advance followLast here names = tree.advance followLast other others) :
    tree.walk followLast links here names = tree.walk followLast links other others := by
  rw [walk, walk, h]

theorem walk_dot (h : tree.walk followLast links here ["."] = .ok place) :
    place = .existing here ∧ tree.isDirectoryAt here = true := by
  by_cases hhere : tree.isDirectoryAt here = true
  · have harrived : tree.advance followLast here ["."] = .arrived (.existing here) := by
      simp [advance, hhere]
    rw [walk_of_arrived harrived] at h
    cases h
    exact ⟨rfl, hhere⟩
  · have hfailed : tree.advance followLast here ["."] = .failed .notADirectory := by
      simp [advance, hhere]
    rw [walk_of_failed hfailed] at h
    cases h

/-- A walk that stands in a directory before its last names goes on from there. -/
theorem walk_append (h : tree.walk true links here (names ++ ["."]) = .ok place) :
    ∃ directory left, place = .existing directory ∧ tree.isDirectoryAt directory = true
      ∧ ∀ followLast last, last ≠ [] →
        tree.walk followLast links here (names ++ last)
          = tree.walk followLast left directory last := by
  induction links using Nat.strongRecOn generalizing here names with
  | _ links ih =>
    obtain ⟨directory, hgo⟩ | ⟨next, target, rest, hgo⟩ | ⟨error, hgo⟩ :=
      tree.advance_append here names
    · rw [walk_congr (hgo true ["."] (by simp))] at h
      obtain ⟨hplace, hdirectory⟩ := walk_dot h
      exact ⟨directory, links, hplace, hdirectory,
        fun followLast last hlast => walk_congr (hgo followLast last hlast)⟩
    · cases links with
      | zero =>
          rw [walk_zero_of_link (hgo true ["."] (by simp))] at h
          cases h
      | succ links =>
          rw [walk_succ_of_link (hgo true ["."] (by simp)), ← List.append_assoc] at h
          obtain ⟨directory, left, hplace, hdirectory, hrest⟩ := ih links (by omega) h
          refine ⟨directory, left, hplace, hdirectory, fun followLast last hlast => ?_⟩
          rw [walk_succ_of_link (hgo followLast last hlast), ← List.append_assoc]
          exact hrest followLast last hlast
    · rw [walk_of_failed (hgo true ["."] (by simp))] at h
      cases h

/-- Dots before the end of a path to a directory lead nowhere. -/
theorem advance_dots {dots : List String} (hdots : ∀ name ∈ dots, name = ".") :
    tree.advance followLast here (dots ++ ["."]) = tree.advance followLast here ["."] := by
  induction dots with
  | nil => rfl
  | cons dot rest ih =>
      obtain ⟨rfl, hrest⟩ := List.forall_mem_cons.1 hdots
      by_cases hhere : tree.isDirectoryAt here = true
      · rw [← ih hrest]
        simp [advance, hhere]
      · simp [advance, hhere]

theorem walk_dots {dots : List String} (hdots : ∀ name ∈ dots, name = ".") :
    tree.walk true links here (names ++ dots ++ ["."])
      = tree.walk true links here (names ++ ["."]) := by
  induction links using Nat.strongRecOn generalizing here names with
  | _ links ih =>
    rw [List.append_assoc]
    obtain ⟨directory, hgo⟩ | ⟨next, target, rest, hgo⟩ | ⟨error, hgo⟩ :=
      tree.advance_append here names
    · apply walk_congr
      rw [hgo true _ (by simp), hgo true _ (by simp), advance_dots hdots]
    · cases links with
      | zero =>
          rw [walk_zero_of_link (hgo true _ (by simp)), walk_zero_of_link (hgo true _ (by simp))]
      | succ links =>
          rw [walk_succ_of_link (hgo true _ (by simp)), walk_succ_of_link (hgo true _ (by simp)),
            ← List.append_assoc, ← List.append_assoc, ← List.append_assoc]
          exact ih links (by omega)
    · rw [walk_of_failed (hgo true _ (by simp)), walk_of_failed (hgo true _ (by simp))]

/-! ## Beside a new file -/

section Beside

variable {spot : Location} (hfree : tree.entryAt spot = none)
include hfree

/-- Names lead to the same beside a new file, or fail in both trees where they go on behind it. -/
theorem advance_put (mode : Nat) (text : String) (followLast : Bool) (here : Location)
    (names : List String) :
    (tree.put spot (.file mode text)).advance followLast here names
        = (tree.advance followLast here names).beside spot
      ∨ tree.advance followLast here names = .failed .notFound
        ∧ (tree.put spot (.file mode text)).advance followLast here names
          = .failed .notADirectory := by
  have hsame := isDirectoryAt_put_file hfree mode text
  induction names generalizing here with
  | nil => exact .inl rfl
  | cons name rest ih =>
      by_cases hhere : (!tree.isDirectoryAt here) = true
      · exact .inl (by simp [advance, hsame, hhere, Progress.beside])
      by_cases hdot : name = "."
      · simpa [advance, hsame, hhere, hdot] using ih here
      by_cases hdots : name = ".."
      · simpa [advance, hsame, hhere, hdots] using ih here.dropLast
      by_cases hlength : longestName < name.utf8ByteSize
      · exact .inl (by simp [advance, hsame, hhere, hdot, hdots, hlength, Progress.beside])
      rw [advance_plain (by rwa [hsame]) hdot hdots hlength,
        advance_plain hhere hdot hdots hlength]
      by_cases hspot : here ++ [name] = spot
      · have hne : spot ≠ [] := by simp [← hspot]
        rw [hspot, entryAt_put_self hne, hfree]
        cases rest with
        | nil => exact .inl (by simp [advance, Progress.beside, Place.beside, hspot])
        | cons next rest =>
            have hfile : tree.isDirectoryAt spot = false := by simp [isDirectoryAt, hfree]
            exact .inr ⟨rfl, by simp [advance, hsame, hfile]⟩
      · rw [entryAt_put_of_ne hspot]
        cases hentry : tree.entryAt (here ++ [name]) with
        | none =>
            refine .inl ?_
            by_cases hrest : rest = [] <;> simp [hrest, Progress.beside, Place.beside, hspot]
        | some entry =>
            cases entry with
            | directory => exact ih (here ++ [name])
            | file mode text => exact ih (here ++ [name])
            | symlink target =>
                refine .inl ?_
                dsimp only
                split <;> rfl

theorem walk_put_eq_ok_iff :
    (tree.put spot (.file mode text)).walk followLast links here names = .ok place
      ↔ ∃ found, tree.walk followLast links here names = .ok found
        ∧ found.beside spot = place := by
  induction links using Nat.strongRecOn generalizing here names with
  | _ links ih =>
    obtain hsame | ⟨htree, hfilled⟩ :=
      advance_put hfree mode text followLast here names
    · cases hadvance : tree.advance followLast here names with
      | arrived found =>
          rw [hadvance] at hsame
          rw [walk_of_arrived hsame, walk_of_arrived hadvance]
          simp
      | failed error =>
          rw [hadvance] at hsame
          rw [walk_of_failed hsame, walk_of_failed hadvance]
          simp
      | link directory target rest =>
          rw [hadvance] at hsame
          cases links with
          | zero =>
              rw [walk_zero_of_link hsame, walk_zero_of_link hadvance]
              simp
          | succ links =>
              rw [walk_succ_of_link hsame, walk_succ_of_link hadvance]
              exact ih links (by omega)
    · rw [walk_of_failed htree, walk_of_failed hfilled]
      simp

end Beside

/-! ## Well-formed trees -/

/-- A walk that follows its last name does not end at a link. -/
theorem IsTree.advance_ne_symlink (htree : tree.IsTree)
    (hhere : ∀ link, tree.entryAt here ≠ some (.symlink link))
    (h : tree.advance true here names = .arrived (.existing location)) :
    tree.entryAt location ≠ some (.symlink target) := by
  fun_induction advance tree true here names with
  | case1 here =>
      cases h
      exact hhere target
  | case2 => cases h
  | case3 here rest hdirectory ih => exact ih hhere h
  | case4 here rest hdirectory hdot ih =>
      have hup := htree.isDirectoryAt_dropLast (isDirectoryAt_iff.1 (by simpa using hdirectory))
      exact ih (fun link => by simp [isDirectoryAt_iff.1 hup]) h
  | case5 => cases h
  | case6 => cases h
  | case7 => cases h
  | case8 here name rest hdirectory hdot hdots hlength next link hlink hlast => simp at hlast
  | case9 => cases h
  | case10 here name rest hdirectory hdot hdots hlength next entry hnolink hentry ih =>
      refine ih (fun link hlink => hnolink link ?_) h
      rw [hentry] at hlink
      exact Option.some.inj hlink

theorem IsTree.walk_ne_symlink (htree : tree.IsTree) (hhere : tree.isDirectoryAt here = true)
    (h : tree.walk true links here names = .ok (.existing location)) :
    tree.entryAt location ≠ some (.symlink target) := by
  induction links using Nat.strongRecOn generalizing here names with
  | _ links ih =>
    cases hadvance : tree.advance true here names with
    | arrived place =>
        rw [walk_of_arrived hadvance] at h
        cases h
        exact htree.advance_ne_symlink (fun link => by simp [isDirectoryAt_iff.1 hhere]) hadvance
    | failed error =>
        rw [walk_of_failed hadvance] at h
        cases h
    | link directory text rest =>
        have hdirectory := (advance_eq_link hadvance).1
        cases links with
        | zero =>
            rw [walk_zero_of_link hadvance] at h
            cases h
        | succ links =>
            rw [walk_succ_of_link hadvance] at h
            refine ih links (by omega) ?_ h
            split
            · rfl
            · exact hdirectory

/-- Along directories names lead to their location and go on from there, unless one is too long. -/
theorem IsTree.advance_directories (htree : tree.IsTree)
    (h : tree.isDirectoryAt (here ++ names) = true) (rest : List String) :
    tree.advance true here (names ++ rest) = tree.advance true (here ++ names) rest
      ∨ tree.advance true here (names ++ rest) = .failed .invalidFilename := by
  induction names generalizing here with
  | nil => exact .inl (by rw [List.append_nil, List.nil_append])
  | cons name others ih =>
      have hothers : tree.isDirectoryAt (here ++ [name] ++ others) = true := by simpa using h
      have hnext := htree.isDirectoryAt_of_append hothers
      obtain ⟨⟨hempty, hdot, hdots, hslash⟩, hhere⟩ := htree.entry_concat (isDirectoryAt_iff.1 hnext)
      by_cases hlength : longestName < name.utf8ByteSize
      · exact .inr (by simp [advance, hhere, hdot, hdots, hlength])
      · rw [List.cons_append, advance_plain (by simp [hhere]) hdot hdots hlength,
          isDirectoryAt_iff.1 hnext]
        simpa using ih hothers

theorem IsTree.walk_directories (htree : tree.IsTree)
    (hdirectory : tree.isDirectoryAt (here ++ names) = true)
    (h : tree.walk true links here (names ++ rest) = .ok place) :
    tree.walk true links (here ++ names) rest = .ok place := by
  obtain hgo | hfailed := htree.advance_directories hdirectory rest
  · rwa [walk_congr hgo] at h
  · rw [walk_of_failed hfailed] at h
    cases h

end FileTree

end SparseProgram
