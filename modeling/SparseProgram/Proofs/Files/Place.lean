import SparseProgram.Files.Export
import SparseProgram.Proofs.Attempts
import SparseProgram.Proofs.Files.Path
import SparseProgram.Proofs.Files.Walk

/-!
# Where files are put

The location that a move to a path takes is the one that the path leads to, unless the path is a
link. A file under a name that no path mentions is no obstacle.
-/

namespace SparseProgram

namespace FileTree

variable {tree : FileTree} {base directory location other : Location} {name hidden path : String}
  {names : List String} {followLast : Bool} {links mode : Nat} {text : String} {place : Place}

/-- A path whose last name stands in a directory. -/
structure Ends (tree : FileTree) (base : Location) (path : String) (directory : Location)
    (name : String) : Prop where
  isDirectoryAt : tree.isDirectoryAt directory = true
  ne_dot : name ≠ "."
  ne_dots : name ≠ ".."
  short : ¬longestName < name.utf8ByteSize
  pathError : pathError path = none
  walk : ∃ before, Path.names path = before ++ [name]
    ∧ tree.walk true linkLimit (if Path.isAbsolute path then [] else base) (before ++ ["."])
      = .ok (.existing directory)

theorem locateNames_eq_ok (h : tree.locateNames followLast base path names = .ok place) :
    pathError path = none
      ∧ tree.walk followLast linkLimit (if Path.isAbsolute path then [] else base) names
        = .ok place := by
  rw [locateNames] at h
  split at h
  case h_1 => cases h
  case h_2 hpath => exact ⟨hpath, h⟩

theorem inspect_of_existing {entry : FileEntry}
    (h : tree.locate followLast base path = .ok (.existing location))
    (hentry : tree.entryAt location = some entry) :
    tree.inspect followLast base path = .ok (location, entry) := by
  rw [inspect, h]
  simp [bind, Except.bind, hentry, pure, Except.pure]

theorem inspect_of_missing (h : tree.locate followLast base path = .ok (.missing directory name)) :
    tree.inspect followLast base path = .error .notFound := by
  rw [inspect, h]
  rfl

theorem inspect_eq_ok {entry : FileEntry}
    (h : tree.inspect followLast base path = .ok (location, entry)) :
    tree.locate followLast base path = .ok (.existing location)
      ∧ tree.entryAt location = some entry := by
  obtain ⟨place, hlocate, hrest⟩ := bind_eq_ok_iff.1 h
  cases place with
  | missing => cases hrest
  | existing found =>
      dsimp only at hrest
      split at hrest
      case h_1 hentry =>
        cases hrest
        exact ⟨hlocate, hentry⟩
      case h_2 => cases hrest

theorem ends_of_lastName (h : tree.lastName base path = .ok (directory, some name)) :
    tree.Ends base path directory name := by
  obtain ⟨found, hlocate, hrest⟩ := bind_eq_ok_iff.1 h
  obtain ⟨hpath, hwalk⟩ := locateNames_eq_ok hlocate
  cases found with
  | missing => cases hrest
  | existing found =>
      dsimp only at hrest
      split at hrest
      case h_1 => cases hrest
      case h_2 => cases hrest
      case h_3 => cases hrest
      case h_4 last hdot hdots hlast =>
        split at hrest
        case isTrue => cases hrest
        case isFalse hshort =>
          obtain ⟨before, hnames⟩ := List.getLast?_eq_some_iff.1 hlast
          rw [hnames, List.dropLast_concat] at hwalk
          cases hrest
          obtain ⟨_, _, hplace, hdirectory, -⟩ := walk_append hwalk
          cases hplace
          exact ⟨hdirectory, hdot, hdots, hshort, hpath, before, hnames, hwalk⟩

theorem Ends.locate (h : tree.Ends base path directory name)
    (hslash : Path.endsInSlash path = false) :
    ∃ left, ∀ followLast,
      tree.locate followLast base path = tree.walk followLast left directory [name] := by
  obtain ⟨before, hnames, hwalk⟩ := h.walk
  obtain ⟨found, left, hplace, -, hrest⟩ := walk_append hwalk
  cases hplace
  refine ⟨left, fun followLast => ?_⟩
  rw [FileTree.locate, locateNames, h.pathError, Path.steps, hslash, hnames]
  simpa using hrest followLast [name] (by simp)

theorem ends_of_moveTarget (h : tree.moveTarget base path = .ok location) :
    ∃ directory name, location = directory ++ [name] ∧ tree.Ends base path directory name
      ∧ Path.endsInSlash path = false ∧ tree.isDirectoryAt location = false := by
  obtain ⟨⟨directory, last⟩, hlast, hrest⟩ := bind_eq_ok_iff.1 h
  cases last with
  | none => cases hrest
  | some name =>
      dsimp only at hrest
      split at hrest
      case isTrue => cases hrest
      case isFalse hslash =>
        split at hrest
        case isTrue => cases hrest
        case isFalse hdirectory =>
          cases hrest
          exact ⟨directory, name, rfl, ends_of_lastName hlast, by simpa using hslash,
            by simpa using hdirectory⟩

/-- The directory of the place that a file is moved to decides where the path leads. -/
theorem advance_of_moveTarget (h : tree.moveTarget base path = .ok location) :
    ∃ directory name left, location = directory ++ [name]
      ∧ tree.isDirectoryAt location = false
      ∧ (∀ followLast,
        tree.locate followLast base path = tree.walk followLast left directory [name])
      ∧ ∀ followLast, tree.advance followLast directory [name]
        = match tree.entryAt location with
          | none => .arrived (.missing directory name)
          | some (.symlink target) =>
              if followLast then .link directory target [] else .arrived (.existing location)
          | some _ => .arrived (.existing location) := by
  obtain ⟨directory, name, rfl, hends, hslash, hnodirectory⟩ := ends_of_moveTarget h
  obtain ⟨left, hlocate⟩ := hends.locate hslash
  refine ⟨directory, name, left, rfl, hnodirectory, hlocate, fun followLast => ?_⟩
  rw [advance_plain (by simp [hends.isDirectoryAt]) hends.ne_dot hends.ne_dots hends.short]
  cases followLast <;> rfl

theorem isSymlink_iff_of_moveTarget (h : tree.moveTarget base path = .ok location) :
    tree.isSymlink base path = true ↔ ∃ target, tree.entryAt location = some (.symlink target) := by
  obtain ⟨directory, name, left, -, hnodirectory, hlocate, hadvance⟩ := advance_of_moveTarget h
  have hlast := hadvance false
  rw [isSymlink]
  cases hentry : tree.entryAt location with
  | none =>
      rw [hentry] at hlast
      rw [inspect_of_missing ((hlocate false).trans (walk_of_arrived hlast))]
      simp
  | some entry =>
      rw [hentry] at hlast
      cases entry with
      | directory => rw [isDirectoryAt, hentry] at hnodirectory; cases hnodirectory
      | file mode text =>
          rw [inspect_of_existing ((hlocate false).trans (walk_of_arrived hlast)) hentry]
          simp
      | symlink target =>
          rw [inspect_of_existing ((hlocate false).trans (walk_of_arrived hlast)) hentry]
          simp

/-- A path that is no link leads to where a file is moved: there is a file or nothing. -/
theorem locate_of_moveTarget (h : tree.moveTarget base path = .ok location)
    (hlink : tree.isSymlink base path = false) :
    (tree.entryAt location = none ∧ ∃ directory name, location = directory ++ [name]
        ∧ tree.locate true base path = .ok (.missing directory name))
      ∨ ∃ mode text, tree.entryAt location = some (.file mode text)
        ∧ tree.locate true base path = .ok (.existing location) := by
  obtain ⟨directory, name, left, hlocation, hnodirectory, hlocate, hadvance⟩ :=
    advance_of_moveTarget h
  have hlast := hadvance true
  cases hentry : tree.entryAt location with
  | none =>
      rw [hentry] at hlast
      exact .inl ⟨rfl, directory, name, hlocation, (hlocate true).trans (walk_of_arrived hlast)⟩
  | some entry =>
      rw [hentry] at hlast
      cases entry with
      | directory => rw [isDirectoryAt, hentry] at hnodirectory; cases hnodirectory
      | file mode text =>
          exact .inr ⟨mode, text, rfl, (hlocate true).trans (walk_of_arrived hlast)⟩
      | symlink target =>
          rw [(isSymlink_iff_of_moveTarget h).2 ⟨target, hentry⟩] at hlink
          cases hlink

theorem leadsTo_of_moveTarget (h : tree.moveTarget base path = .ok location)
    (hlink : tree.isSymlink base path = false) : tree.LeadsTo base path location := by
  obtain ⟨-, directory, name, hlocation, hlocate⟩ | ⟨mode, text, -, hlocate⟩ :=
    locate_of_moveTarget h hlink
  · exact ⟨_, hlocate, hlocation.symm⟩
  · exact ⟨_, hlocate, rfl⟩

/-! ## Absolute paths -/

/-- A move to the absolute path of an entry takes its location. -/
theorem IsTree.moveTarget_ofLocation {entry : FileEntry} (htree : tree.IsTree)
    (hentry : tree.entryAt location = some entry)
    (h : tree.moveTarget base (Path.ofLocation location) = .ok other) : other = location := by
  obtain ⟨directory, name, rfl, hends, -, -⟩ := ends_of_moveTarget h
  obtain ⟨before, hnames, hwalk⟩ := hends.walk
  rw [Path.names_ofLocation (htree.isName_of_mem hentry)] at hnames
  subst hnames
  have hbefore : tree.isDirectoryAt ([] ++ before) = true := (htree.entry_concat hentry).2
  rw [Path.isAbsolute_ofLocation, if_pos rfl] at hwalk
  obtain ⟨hplace, -⟩ := walk_dot (htree.walk_directories hbefore hwalk)
  cases hplace
  rfl

/-! ## Next to a path -/

theorem newLocation_eq_ok (h : tree.newLocation base path = .ok location) :
    ∃ directory name, location = directory ++ [name] ∧ tree.Ends base path directory name
      ∧ tree.entryAt location = none := by
  obtain ⟨⟨directory, last⟩, hlast, hrest⟩ := bind_eq_ok_iff.1 h
  cases last with
  | none => cases hrest
  | some name =>
      dsimp only at hrest
      split at hrest
      case isTrue hfree =>
        cases hrest
        exact ⟨directory, name, rfl, ends_of_lastName hlast, hfree⟩
      case isFalse => cases hrest

/-- The directory of a new file next to a path, reached by way of the absolute path, is the one that
the names of the path's parent lead to. -/
theorem IsTree.walk_parent (htree : tree.IsTree) (hbase : tree.isDirectoryAt base = true)
    (hname : Path.IsName name)
    (h : tree.temporaryLocation base path name = .ok location) :
    ∃ directory, location = directory ++ [name]
      ∧ tree.walk true linkLimit (if Path.isAbsolute (Path.parent path) then [] else base)
        (Path.names (Path.parent path) ++ ["."]) = .ok (.existing directory) := by
  obtain ⟨directory, last, rfl, hends, -⟩ := newLocation_eq_ok h
  obtain ⟨before, hnames, hwalk⟩ := hends.walk
  rw [Path.names_join (Path.not_isAbsolute_of_not_mem hname.2.2.2), Path.names_of_isName hname]
    at hnames
  obtain ⟨hbefore, hlast⟩ := List.append_inj' hnames rfl
  cases hlast
  rw [← hbefore] at hwalk
  refine ⟨directory, rfl, ?_⟩
  by_cases hroot : Path.isAbsolute (Path.parent path) = true
  · rw [Path.join_of_isAbsolute hroot, Path.isAbsolute_join hroot, if_pos rfl] at hwalk
    rw [if_pos hroot]
    exact hwalk
  · have hbasenames : Path.names (Path.ofLocation base) = base :=
      Path.names_ofLocation (htree.isName_of_mem (isDirectoryAt_iff.1 hbase))
    have habove := Path.isAbsolute_join (Path.isAbsolute_ofLocation base) (Path.parent path)
    have hfrom : tree.isDirectoryAt ([] ++ base) = true := hbase
    rw [Path.isAbsolute_join habove, if_pos rfl, Path.names_join (by simpa using hroot),
      hbasenames, List.append_assoc] at hwalk
    rw [if_neg hroot]
    exact htree.walk_directories hfrom hwalk

/-- A temporary file lies in the directory of the file that it is to replace. -/
theorem IsTree.temporaryLocation_eq_ok (htree : tree.IsTree)
    (hbase : tree.isDirectoryAt base = true) (hname : Path.IsName name)
    (h : tree.temporaryLocation base path name = .ok other)
    (hmove : tree.moveTarget base path = .ok location) :
    other = location.dropLast ++ [name] := by
  obtain ⟨directory, rfl, hbeside⟩ := htree.walk_parent hbase hname h
  obtain ⟨holder, last, rfl, hends, hslash, -⟩ := ends_of_moveTarget hmove
  obtain ⟨before, hnames, hwalk⟩ := hends.walk
  obtain ⟨stem, left, right, rfl, hparent, hdots, habsolute⟩ :=
    Path.names_parent hnames hends.ne_dot hslash
  obtain ⟨hleft, hright⟩ := List.forall_mem_append.1 hdots
  -- the parent's names and those before the last one differ in dots, which lead nowhere
  rw [hparent, habsolute, walk_dots hright] at hbeside
  rw [walk_dots hleft, hbeside] at hwalk
  cases hwalk
  rw [List.dropLast_concat]

/-! ## Beside a new file -/

section Beside

variable {spot : Location} (hfree : tree.entryAt spot = none)
include hfree

theorem locate_put (h : tree.locate followLast base path = .ok place) :
    (tree.put spot (.file mode text)).locate followLast base path = .ok (place.beside spot) := by
  obtain ⟨hpath, hwalk⟩ := locateNames_eq_ok h
  rw [locate, locateNames, hpath]
  exact (walk_put_eq_ok_iff hfree).2 ⟨place, hwalk, rfl⟩

theorem locateNames_dot_put_eq_ok_iff :
    (tree.put spot (.file mode text)).locateNames true base path (names ++ ["."]) = .ok place
      ↔ tree.locateNames true base path (names ++ ["."]) = .ok place := by
  rw [locateNames, locateNames]
  split
  case h_1 => rfl
  case h_2 =>
    rw [walk_put_eq_ok_iff hfree]
    constructor
    · rintro ⟨found, hfound, rfl⟩
      obtain ⟨directory, _, rfl, -⟩ := walk_append hfound
      exact hfound
    · intro h
      obtain ⟨directory, _, rfl, -⟩ := walk_append h
      exact ⟨_, h, rfl⟩

theorem lastName_put_eq_ok_iff {last : Location × Option String} :
    (tree.put spot (.file mode text)).lastName base path = .ok last
      ↔ tree.lastName base path = .ok last := by
  rw [lastName, lastName, bind_eq_ok_iff, bind_eq_ok_iff]
  simp only [locateNames_dot_put_eq_ok_iff hfree]

theorem moveTarget_put_eq_ok_iff :
    (tree.put spot (.file mode text)).moveTarget base path = .ok location
      ↔ tree.moveTarget base path = .ok location := by
  rw [moveTarget, moveTarget, bind_eq_ok_iff, bind_eq_ok_iff]
  simp only [lastName_put_eq_ok_iff hfree, isDirectoryAt_put_file hfree]

end Beside

end FileTree

end SparseProgram
