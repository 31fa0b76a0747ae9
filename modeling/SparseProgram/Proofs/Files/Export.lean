import SparseProgram.Files.Export
import SparseProgram.Proofs.Files.Place
import SparseProgram.Proofs.LpText.Words

/-!
# Exports are atomic

An export that fails leaves every file as it was. One that succeeds replaces the file that its
target leads to, or creates it, and touches nothing else.
-/

namespace SparseProgram

namespace FileTree

variable {faults : Faults} {tree after : FileTree} {base temporary location : Location}
  {name destination target text : String} {mode : Nat}

theorem calling_eq_ok_iff {α : Type} {call : FileCall} {result : Except FileError α} {a : α} :
    calling faults call result = .ok a ↔ faults call = none ∧ result = .ok a := by
  rw [calling]
  cases faults call with
  | none => simp
  | some error => simp

/-! ## The steps of a replacement -/

theorem fillTemporary_eq_ok (h : tree.fillTemporary faults base temporary destination text
      = .ok after) :
    ∃ mode, (tree.put temporary (.file temporaryMode text)).replacementMode faults base destination
        = .ok mode ∧ after = tree.put temporary (.file mode text) := by
  obtain ⟨written, hwritten, hrest⟩ := bind_eq_ok_iff.1 h
  obtain ⟨-, -, hrest⟩ := bind_eq_ok_iff.1 hrest
  obtain ⟨mode, hmode, hset⟩ := bind_eq_ok_iff.1 hrest
  cases (calling_eq_ok_iff.1 hwritten).2
  cases (calling_eq_ok_iff.1 hset).2
  exact ⟨mode, hmode, by rw [put_put]⟩

theorem moveTemporary_eq_ok (h : tree.moveTemporary faults base temporary destination = .ok after) :
    ∃ location entry, tree.moveTarget base destination = .ok location
      ∧ tree.entryAt temporary = some entry
      ∧ after = (tree.remove temporary).put location entry := by
  obtain ⟨location, hlocation, hrest⟩ := bind_eq_ok_iff.1 (calling_eq_ok_iff.1 h).2
  split at hrest
  case h_1 entry hentry =>
    cases hrest
    exact ⟨location, entry, hlocation, hentry, rfl⟩
  case h_2 => cases hrest

/-- A target that is a link stays one: what is replaced is the file it leads to. -/
theorem leadsTo_of_destination (htree : tree.IsTree) (hbase : tree.isDirectoryAt base = true)
    (hdestination : tree.destination faults base target = .ok destination)
    (hmove : tree.moveTarget base destination = .ok location) :
    tree.LeadsTo base target location ∧ tree.isSymlink base destination = false := by
  rw [FileTree.destination] at hdestination
  split at hdestination
  case isTrue =>
    obtain ⟨⟨found, entry⟩, hinspect, hpath⟩ :=
      bind_eq_ok_iff.1 (calling_eq_ok_iff.1 hdestination).2
    cases hpath
    obtain ⟨hlocate, hentry⟩ := inspect_eq_ok hinspect
    obtain rfl := htree.moveTarget_ofLocation hentry hmove
    refine ⟨⟨_, hlocate, rfl⟩, ?_⟩
    rw [← Bool.not_eq_true, isSymlink_iff_of_moveTarget hmove]
    rintro ⟨link, hlink⟩
    have hstart : tree.isDirectoryAt (if Path.isAbsolute target then [] else base) = true := by
      split
      · rfl
      · exact hbase
    exact htree.walk_ne_symlink hstart (locateNames_eq_ok hlocate).2 hlink
  case isFalse hlink =>
    cases hdestination
    have hnolink : tree.isSymlink base destination = false := by simpa using hlink
    exact ⟨leadsTo_of_moveTarget hmove hnolink, hnolink⟩

theorem replacementMode_of_missing (hinspect : tree.inspect true base destination = .error .notFound)
    (h : tree.replacementMode faults base destination = .ok mode) : mode = newFileMode := by
  rw [replacementMode, calling, hinspect] at h
  cases hfault : faults .inspectTarget with
  | none => simp_all
  | some error => cases error <;> simp_all

/-- An inspection that is made to find nothing is taken at its word. -/
theorem replacementMode_of_file {oldMode : Nat} {oldText : String}
    (hinspect : tree.inspect true base destination = .ok (location, .file oldMode oldText))
    (h : tree.replacementMode faults base destination = .ok mode) :
    mode = if faults .inspectTarget = some .notFound then newFileMode else oldMode := by
  rw [replacementMode, calling, hinspect] at h
  cases hfault : faults .inspectTarget with
  | none => simp_all
  | some error => cases error <;> simp_all

section Beside

/-! Beside the temporary file a destination that is no link is found as it was, unless that file
has its very name. -/

variable (hfree : tree.entryAt temporary = none)
  (hmove : tree.moveTarget base destination = .ok location)
  (hlink : tree.isSymlink base destination = false)
include hfree hmove hlink

theorem inspect_put (text : String) :
    let filled := tree.put temporary (.file temporaryMode text)
    (tree.entryAt location = none ∧ location ≠ temporary
        ∧ filled.inspect true base destination = .error .notFound)
      ∨ (tree.entryAt location = none ∧ location = temporary
        ∧ filled.inspect true base destination = .ok (location, .file temporaryMode text))
      ∨ ∃ oldMode oldText, tree.entryAt location = some (.file oldMode oldText)
        ∧ filled.inspect true base destination = .ok (location, .file oldMode oldText) := by
  intro filled
  obtain ⟨hentry, directory, name, rfl, hlocate⟩ | ⟨oldMode, oldText, hentry, hlocate⟩ :=
    locate_of_moveTarget hmove hlink
  · have hfound : filled.locate true base destination = _ := locate_put hfree hlocate
    rw [Place.beside] at hfound
    by_cases hspot : directory ++ [name] = temporary
    · rw [if_pos hspot, ← hspot] at hfound
      have hnew : filled.entryAt (directory ++ [name]) = some (.file temporaryMode text) := by
        rw [hspot]
        exact entryAt_put_self (by simp [← hspot]) tree _
      exact .inr (.inl ⟨hentry, hspot, inspect_of_existing hfound hnew⟩)
    · rw [if_neg hspot] at hfound
      exact .inl ⟨hentry, hspot, inspect_of_missing hfound⟩
  · have hne : location ≠ temporary := by
      rintro rfl
      rw [hfree] at hentry
      cases hentry
    have hkept : filled.entryAt location = some (.file oldMode oldText) :=
      (entryAt_put_of_ne hne tree _).trans hentry
    exact .inr (.inr ⟨oldMode, oldText, hentry,
      inspect_of_existing (locate_put hfree hlocate) hkept⟩)

theorem exists_replacementMode (text : String) :
    ∃ mode, (tree.put temporary (.file temporaryMode text)).replacementMode noFaults base
      destination = .ok mode := by
  obtain ⟨-, -, hinspect⟩ | ⟨-, -, hinspect⟩ | ⟨oldMode, oldText, -, hinspect⟩ :=
    inspect_put hfree hmove hlink text
  · exact ⟨newFileMode, by rw [replacementMode, hinspect]; rfl⟩
  · exact ⟨temporaryMode, by rw [replacementMode, hinspect]; rfl⟩
  · exact ⟨oldMode, by rw [replacementMode, hinspect]; rfl⟩

/-- The mode of a file is that of the one it replaces, unless the inspection is made to find none.
Where there is none it is that of a new file, unless the inspection finds the temporary one. -/
theorem replacementMode_put
    (h : (tree.put temporary (.file temporaryMode text)).replacementMode faults base destination
      = .ok mode) :
    (tree.entryAt location = none
        ∧ mode = if faults .inspectTarget ≠ some .notFound ∧ location = temporary
          then temporaryMode else newFileMode)
      ∨ ∃ oldMode oldText, tree.entryAt location = some (.file oldMode oldText)
        ∧ mode = if faults .inspectTarget = some .notFound then newFileMode else oldMode := by
  obtain ⟨hentry, hne, hinspect⟩ | ⟨hentry, heq, hinspect⟩ | ⟨oldMode, oldText, hentry, hinspect⟩ :=
    inspect_put hfree hmove hlink text
  · refine .inl ⟨hentry, ?_⟩
    rw [if_neg fun hfound => hne hfound.2]
    exact replacementMode_of_missing hinspect h
  · refine .inl ⟨hentry, ?_⟩
    rw [replacementMode_of_file hinspect h]
    by_cases hfault : faults .inspectTarget = some .notFound <;> simp [hfault, heq]
  · exact .inr ⟨oldMode, oldText, hentry, replacementMode_of_file hinspect h⟩

end Beside

/-! ## Replacing a file -/

theorem entryAt_of_temporaryLocation
    (h : tree.temporaryLocation base destination name = .ok temporary) :
    temporary ≠ [] ∧ tree.entryAt temporary = none := by
  obtain ⟨directory, last, rfl, -, hfree⟩ := newLocation_eq_ok h
  exact ⟨by simp, hfree⟩

/-- A replacement undoes what it did, or goes through to the move of the complete file. -/
theorem replaceFile_cases {result : Except ExportError Unit}
    (h : tree.replaceFile faults name base target text = (after, result)) :
    (after = tree ∧ ∃ error, result = .error error)
      ∨ ∃ destination temporary mode location,
        result = .ok () ∧ tree.destination faults base target = .ok destination
          ∧ tree.temporaryLocation base destination name = .ok temporary
          ∧ (tree.put temporary (.file temporaryMode text)).replacementMode faults base destination
            = .ok mode
          ∧ tree.moveTarget base destination = .ok location
          ∧ after = tree.put location (.file mode text) := by
  rw [replaceFile] at h
  split at h
  case h_1 =>
    cases h
    exact .inl ⟨rfl, _, rfl⟩
  case h_2 destination temporary hbegun =>
    obtain ⟨path, hdestination, hrest⟩ := bind_eq_ok_iff.1 hbegun
    obtain ⟨fresh, hfresh, hpair⟩ := bind_eq_ok_iff.1 hrest
    cases hpair
    have htemporary := (calling_eq_ok_iff.1 hfresh).2
    obtain ⟨hne, hfree⟩ := entryAt_of_temporaryLocation htemporary
    dsimp only at h
    split at h
    case h_1 =>
      cases h
      exact .inl ⟨by rw [remove_put, remove_of_entryAt hfree], _, rfl⟩
    case h_2 filled hfilled =>
      obtain ⟨mode, hmode, rfl⟩ := fillTemporary_eq_ok hfilled
      rw [put_put] at hmode h
      split at h
      case h_1 =>
        cases h
        exact .inl ⟨by rw [remove_put, remove_of_entryAt hfree], _, rfl⟩
      case h_2 moved hmoved =>
        cases h
        obtain ⟨location, entry, hmove, hentry, rfl⟩ := moveTemporary_eq_ok hmoved
        rw [entryAt_put_self hne] at hentry
        cases hentry
        exact .inr ⟨_, _, _, _, rfl, hdestination, htemporary, hmode,
          (moveTarget_put_eq_ok_iff hfree).1 hmove, by rw [remove_put, remove_of_entryAt hfree]⟩

theorem replaceFile_eq_error {error : ExportError}
    (h : tree.replaceFile faults name base target text = (after, .error error)) : after = tree := by
  obtain ⟨hsame, -⟩ | ⟨_, _, _, _, hok, -⟩ := replaceFile_cases h
  · exact hsame
  · cases hok

theorem replaceFile_eq_ok (htree : tree.IsTree) (hbase : tree.isDirectoryAt base = true)
    (hname : Path.IsName name)
    (h : tree.replaceFile faults name base target text = (after, .ok ())) :
    ∃ location mode, tree.LeadsTo base target location
      ∧ after = tree.put location (.file mode text)
      ∧ ((tree.entryAt location = none
          ∧ mode = if faults .inspectTarget ≠ some .notFound ∧ location.getLast? = some name
            then temporaryMode else newFileMode)
        ∨ ∃ oldMode oldText, tree.entryAt location = some (.file oldMode oldText)
          ∧ mode = if faults .inspectTarget = some .notFound then newFileMode else oldMode) := by
  obtain ⟨-, _, herror⟩ | ⟨destination, temporary, mode, location, -, hdestination, htemporary,
    hmode, hmove, hafter⟩ := replaceFile_cases h
  · cases herror
  · obtain ⟨hleads, hlink⟩ := leadsTo_of_destination htree hbase hdestination hmove
    have hbeside := htree.temporaryLocation_eq_ok hbase hname htemporary hmove
    have hsame : location = temporary ↔ location.getLast? = some name := by
      obtain ⟨directory, last, rfl, -⟩ := ends_of_moveTarget hmove
      rw [hbeside]
      simp
    have hfree := (entryAt_of_temporaryLocation htemporary).2
    have hcases := replacementMode_put hfree hmove hlink hmode
    simp only [hsame] at hcases
    exact ⟨location, mode, hleads, hafter, hcases⟩

/-! ## Replacing without faults -/

theorem fillTemporary_of_mode
    (h : (tree.put temporary (.file temporaryMode text)).replacementMode noFaults base destination
      = .ok mode) :
    (tree.put temporary (.file temporaryMode "")).fillTemporary noFaults base temporary destination
      text = .ok (tree.put temporary (.file mode text)) := by
  rw [fillTemporary, put_put]
  simp only [calling, noFaults, bind, Except.bind]
  rw [h]
  simp only [put_put]

theorem moveTemporary_of_moveTarget (mode : Nat) (text : String) (hne : temporary ≠ [])
    (hfree : tree.entryAt temporary = none)
    (hmove : tree.moveTarget base destination = .ok location) :
    ∃ moved, (tree.put temporary (.file mode text)).moveTemporary noFaults base temporary
      destination = .ok moved := by
  rw [moveTemporary, (moveTarget_put_eq_ok_iff hfree).2 hmove]
  simp only [calling, noFaults, bind, Except.bind]
  rw [entryAt_put_self hne]
  exact ⟨_, rfl⟩

/-- Where no call is made to fail, only the files and the target decide about a replacement. -/
theorem replaceFile_noFaults_ok_iff (htree : tree.IsTree) (hbase : tree.isDirectoryAt base = true)
    (name target text : String) :
    (∃ after, tree.replaceFile noFaults name base target text = (after, .ok ()))
      ↔ ∃ destination, tree.destination noFaults base target = .ok destination
        ∧ (∃ temporary, tree.temporaryLocation base destination name = .ok temporary)
        ∧ ∃ location, tree.moveTarget base destination = .ok location := by
  constructor
  · rintro ⟨after, h⟩
    obtain ⟨-, _, herror⟩ | ⟨destination, _, _, location, -, hdestination, htemporary, -, hmove, -⟩ :=
      replaceFile_cases h
    · cases herror
    · exact ⟨destination, hdestination, ⟨_, htemporary⟩, location, hmove⟩
  · rintro ⟨destination, hdestination, ⟨temporary, htemporary⟩, location, hmove⟩
    obtain ⟨hne, hfree⟩ := entryAt_of_temporaryLocation htemporary
    obtain ⟨-, hlink⟩ := leadsTo_of_destination htree hbase hdestination hmove
    obtain ⟨mode, hmode⟩ := exists_replacementMode hfree hmove hlink text
    obtain ⟨moved, hmoved⟩ := moveTemporary_of_moveTarget mode text hne hfree hmove
    have hbegun : (do
        let destination ← tree.destination noFaults base target
        let temporary ← calling noFaults .createTemporary
          (tree.temporaryLocation base destination name)
        return (destination, temporary)) = .ok (destination, temporary) :=
      bind_eq_ok_iff.2 ⟨destination, hdestination,
        bind_eq_ok_iff.2 ⟨_, calling_eq_ok_iff.2 ⟨rfl, htemporary⟩, rfl⟩⟩
    refine ⟨moved, ?_⟩
    rw [replaceFile, hbegun]
    dsimp only
    rw [fillTemporary_of_mode hmode]
    dsimp only
    rw [hmoved]

end FileTree

namespace Model

open FileTree

variable {τ : Type} [Term τ]

/-- Exports are all or nothing, whichever calls fail and whatever free name the temporary file gets.
One that fails leaves all files as they were. One that succeeds changes a single entry: a regular
file where its target leads, with the text of the model. Its mode is that of the file in its place,
or else that of a new file; an inspection that is made to find nothing is taken at its word, and
one that finds the temporary file under the name of the missing file takes that for the old one. -/
theorem exportWith_all_or_nothing (faults : Faults) {name : String} (hname : Path.IsName name)
    (m : Model τ) {tree : FileTree} {base : Location} (htree : tree.IsTree)
    (hbase : tree.isDirectoryAt base = true) (path : String) :
    (∀ defect, m.firstDefect = some defect →
        m.exportWith faults name tree base path = (tree, .error (.invalid defect)))
      ∧ (∀ after error,
        m.exportWith faults name tree base path = (after, .error error) → after = tree)
      ∧ ∀ after target, m.exportWith faults name tree base path = (after, .ok target) →
        target = (if tree.isDirectory base path then Path.join path (m.name ++ ".lp") else path)
          ∧ ∃ location mode text,
            tree.LeadsTo base target location ∧ m.lpText? = some text
              ∧ after = tree.put location (.file mode text)
              ∧ after.entryAt location = some (.file mode text)
              ∧ (∀ other, other ≠ location → after.entryAt other = tree.entryAt other)
              ∧ (∀ link goal, tree.entryAt link = some (.symlink goal) →
                after.entryAt link = some (.symlink goal))
              ∧ ((tree.entryAt location = none
                  ∧ mode = if faults .inspectTarget ≠ some .notFound ∧ location.getLast? = some name
                    then temporaryMode else newFileMode)
                ∨ ∃ oldMode oldText, tree.entryAt location = some (.file oldMode oldText)
                  ∧ mode = if faults .inspectTarget = some .notFound then newFileMode
                    else oldMode) := by
  refine ⟨fun defect hdefect => by rw [exportWith, hdefect], ?_, ?_⟩
  · intro after error h
    rw [exportWith] at h
    split at h
    case h_1 =>
      cases h
      rfl
    case h_2 =>
      dsimp only at h
      split at h
      case h_1 => cases h
      case h_2 hreplace =>
        cases h
        exact replaceFile_eq_error hreplace
  · intro after target h
    rw [exportWith] at h
    split at h
    case h_1 => cases h
    case h_2 hvalid =>
      dsimp only at h
      split at h
      case h_2 => cases h
      case h_1 hreplace =>
        cases h
        obtain ⟨location, mode, hleads, rfl, hmode⟩ := replaceFile_eq_ok htree hbase hname hreplace
        have hplain : tree.entryAt location ≠ some .directory
            ∧ ∀ goal, tree.entryAt location ≠ some (.symlink goal) := by
          obtain ⟨hnone, -⟩ | ⟨oldMode, oldText, hfile, -⟩ := hmode
          · simp [hnone]
          · simp [hfile]
        have htext : m.lpText? = some m.render.writtenText := by
          rw [lpText?, Rendering.text?, (writes_render (firstDefect_eq_none_iff.1 hvalid)).1]
          rfl
        refine ⟨rfl, location, mode, _, hleads, htext, rfl,
          entryAt_put_self (ne_nil_of_entryAt hplain.1) tree _,
          fun other hother => entryAt_put_of_ne hother tree _, ?_, hmode⟩
        intro link goal hlink
        rw [entryAt_put_of_ne, hlink]
        rintro rfl
        exact hplain.2 goal hlink

def crew : Model Nat where
  name := "crew"
  vars := [⟨0, ⟨.one, .infinity⟩, .unsignedInteger, "shift", none⟩]
  constraints := .ofRows []
  objective := ⟨.minimum, [⟨0, .ofInt 8⟩]⟩

def crewFiles : FileTree :=
  ⟨[(["plans"], .directory), (["plans", "crew.lp"], .file 0o600 "draft"),
    (["latest"], .symlink "plans/crew.lp")]⟩

/-- The file behind a link is replaced, and is not where the last call fails. -/
theorem crew_replaced_behind_link :
    let done := crew.exportWith noFaults ".tmp4f" crewFiles [] "latest"
    let stopped := crew.exportWith
      (fun call => if call = .rename then some .permissionDenied else none) ".tmp4f" crewFiles []
      "latest"
    done.2 = .ok "latest"
      ∧ done.1.entryAt ["plans", "crew.lp"] = (crew.lpText?.map (.file 0o600 ·))
      ∧ done.1.entryAt ["latest"] = some (.symlink "plans/crew.lp")
      ∧ stopped.2 = .error (.replacing "latest" .permissionDenied)
      ∧ stopped.1 = crewFiles := by
  have hname : Path.IsName ".tmp4f" := by decide
  have htree : crewFiles.IsTree := by decide
  have hbase : crewFiles.isDirectoryAt [] = true := rfl
  intro done stopped
  have hdone : done.2 = .ok "latest" := by decide +kernel
  have hstopped : stopped.2 = .error (.replacing "latest" .permissionDenied) := by decide +kernel
  obtain ⟨-, -, hok⟩ := crew.exportWith_all_or_nothing noFaults hname htree hbase "latest"
  obtain ⟨-, _, _, _, -, -, -, -, -, hlinks, -⟩ := hok done.1 "latest" (Prod.ext rfl hdone)
  obtain ⟨-, herror, -⟩ := crew.exportWith_all_or_nothing
    (fun call => if call = .rename then some .permissionDenied else none) hname htree hbase
    "latest"
  exact ⟨hdone, by decide +kernel, hlinks _ _ (by decide), hstopped,
    herror stopped.1 _ (Prod.ext rfl hstopped)⟩

/-- The mode need not be that of the file replaced, where the inspection is made to find none, nor
that of a new file, where the temporary file gets its very name. A model with an absolute name is
not written into the directory that it is exported to. -/
theorem crew_exported_otherwise :
    let unseen := crew.exportWith
      (fun call => if call = .inspectTarget then some .notFound else none) ".tmp4f" crewFiles []
      "latest"
    let mistaken := crew.exportWith noFaults "next.lp" crewFiles [] "plans/next.lp"
    let abroad := { crew with name := "/tmp/crew" }.exportWith noFaults ".tmp4f"
      ((crewFiles.put ["tmp"] .directory).put ["plans", "tmp"] .directory) [] "plans"
    (crewFiles.entryAt ["plans", "crew.lp"] = some (.file 0o600 "draft")
        ∧ unseen.2 = .ok "latest"
        ∧ unseen.1.entryAt ["plans", "crew.lp"] = (crew.lpText?.map (.file 0o644 ·)))
      ∧ (crewFiles.entryAt ["plans", "next.lp"] = none
        ∧ mistaken.2 = .ok "plans/next.lp"
        ∧ mistaken.1.entryAt ["plans", "next.lp"] = (crew.lpText?.map (.file 0o600 ·)))
      ∧ abroad.2 = .ok "/tmp/crew.lp"
        ∧ abroad.1.entryAt ["plans", "tmp", "crew.lp"] = none := by
  decide +kernel

/-- An export succeeds if its model is valid, its target leads somewhere, the directory there can
take a temporary file, and a file can be moved to the target. -/
theorem exportTo_ok_iff (m : Model τ) {tree : FileTree} {base : Location} (htree : tree.IsTree)
    (hbase : tree.isDirectoryAt base = true) (path : String) :
    (∃ after target, m.exportTo tree base path = (after, .ok target))
      ↔ m.firstDefect = none
        ∧ ∃ destination,
          tree.destination noFaults base (tree.exportTarget base path m.name) = .ok destination
            ∧ (∃ temporary, tree.temporaryLocation base destination
              (tree.unusedName (tree.exportTarget base path m.name)) = .ok temporary)
            ∧ ∃ location, tree.moveTarget base destination = .ok location := by
  rw [← replaceFile_noFaults_ok_iff htree hbase _ _ m.render.writtenText]
  constructor
  · rintro ⟨after, target, h⟩
    rw [exportTo, exportWith] at h
    split at h
    case h_1 => cases h
    case h_2 hvalid =>
      dsimp only at h
      split at h
      case h_1 moved hreplace => exact ⟨hvalid, moved, hreplace⟩
      case h_2 => cases h
  · rintro ⟨hvalid, after, hreplace⟩
    refine ⟨after, tree.exportTarget base path m.name, ?_⟩
    rw [exportTo, exportWith, hvalid]
    dsimp only
    rw [hreplace]

end Model

end SparseProgram
