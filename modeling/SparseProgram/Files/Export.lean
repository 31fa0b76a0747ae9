import SparseProgram.Files.Walk
import SparseProgram.LpText.Layout

/-!
# Exporting models

The LP text of a model as a file. It is written to a temporary file next to the target, which
takes the target's place once it is complete; on any failure the temporary file is removed. Each
call to the file system may fail.
-/

namespace SparseProgram

inductive ExportError where
  | invalid (defect : Defect)
  | writing (path : String) (cause : FileError)
  | replacing (path : String) (cause : FileError)
  deriving DecidableEq

namespace ExportError

def message : ExportError → String
  | invalid _ => "model is not exportable"
  | writing path _ => s!"failed to write `{path}`"
  | replacing path _ => s!"failed to replace `{path}`"

end ExportError

inductive FileCall where
  | canonicalize
  | createTemporary
  | write
  | flush
  | inspectTarget
  | setMode
  | rename
  deriving DecidableEq

/-- Which calls fail, whatever the state of the files. -/
abbrev Faults := FileCall → Option FileError

def noFaults : Faults :=
  fun _ => none

/-- The result of a call that may be made to fail. -/
def calling {α : Type} (faults : Faults) (call : FileCall) (result : Except FileError α) :
    Except FileError α :=
  match faults call with
  | some error => .error error
  | none => result

def temporaryMode : Nat :=
  0o600

/-- The names of temporary files; all have the same length. -/
def temporaryName (k : Nat) : String :=
  ".tmp" ++ String.ofList (lastDigits 6 k)

def newFileMode : Nat :=
  0o644

namespace FileTree

/-- A name for a temporary file that no entry has and no path of the export mentions. -/
def unusedName (tree : FileTree) (path : String) : String :=
  let used := tree.entries.filterMap (·.1.getLast?) ++ Path.names path
  let names := (List.range (used.length + 1)).map temporaryName
  (names.find? fun name => !used.contains name).getD (temporaryName 0)

/-- Where the temporary file for a destination is created: next to it, under a name that must be
free. It is created by its absolute path, which may be too long where the destination's own is
not. -/
def temporaryLocation (tree : FileTree) (base : Location) (destination name : String) :
    Except FileError Location :=
  let directory := Path.join (Path.ofLocation base) (Path.parent destination)
  tree.newLocation base (Path.join directory name)

/-- The mode for a file in place of what a path leads to. An inspection that finds nothing is no
failure: the file is then a new one. -/
def replacementMode (faults : Faults) (tree : FileTree) (base : Location) (path : String) :
    Except FileError Nat :=
  match calling faults .inspectTarget (tree.inspect true base path) with
  | .ok (_, .file mode _) => .ok mode
  | .ok _ => .ok 0o755
  | .error .notFound => .ok newFileMode
  | .error error => .error error

/-- The path of the file to replace: a link is not replaced, but what it leads to. -/
def destination (faults : Faults) (tree : FileTree) (base : Location) (target : String) :
    Except FileError String :=
  if tree.isSymlink base target then
    calling faults .canonicalize (tree.canonicalPath base target)
  else
    .ok target

/-- The temporary file, complete and with the mode of the file it is to replace. -/
def fillTemporary (faults : Faults) (tree : FileTree) (base temporary : Location)
    (destination text : String) : Except FileError FileTree := do
  let written ← calling faults .write (.ok (tree.put temporary (.file temporaryMode text)))
  calling faults .flush (.ok ())
  let mode ← written.replacementMode faults base destination
  calling faults .setMode (.ok (written.put temporary (.file mode text)))

/-- Moves the temporary file over the destination in one step. -/
def moveTemporary (faults : Faults) (tree : FileTree) (base temporary : Location)
    (destination : String) : Except FileError FileTree :=
  calling faults .rename do
    let location ← tree.moveTarget base destination
    match tree.entryAt temporary with
    | some entry => return (tree.remove temporary).put location entry
    | none => throw .notFound

/-- Replaces the file of a target by a text, by way of a temporary file of the given name. If that
was created it is gone afterwards, whatever happened to it. -/
def replaceFile (faults : Faults) (name : String) (tree : FileTree) (base : Location)
    (target text : String) : FileTree × Except ExportError Unit :=
  let begun : Except FileError (String × Location) := do
    let destination ← tree.destination faults base target
    let temporary ← calling faults .createTemporary (tree.temporaryLocation base destination name)
    return (destination, temporary)
  match begun with
  | .error error => (tree, .error (.writing target error))
  | .ok (destination, temporary) =>
      let created := tree.put temporary (.file temporaryMode "")
      match created.fillTemporary faults base temporary destination text with
      | .error error => (created.remove temporary, .error (.writing target error))
      | .ok filled =>
          match filled.moveTemporary faults base temporary destination with
          | .error error => (filled.remove temporary, .error (.replacing target error))
          | .ok moved => (moved, .ok ())

/-- The path that an export to `path` writes: in a directory, a file of the model's name. -/
def exportTarget (tree : FileTree) (base : Location) (path modelName : String) : String :=
  if tree.isDirectory base path then Path.join path (modelName ++ ".lp") else path

end FileTree

namespace Model

variable {τ : Type} [Term τ]

/-- Exports a model under given faults and by way of a temporary file of the given name; the answer
is the path of the written file. -/
def exportWith (faults : Faults) (name : String) (m : Model τ) (tree : FileTree) (base : Location)
    (path : String) : FileTree × Except ExportError String :=
  match m.firstDefect with
  | some defect => (tree, .error (.invalid defect))
  | none =>
      let target := tree.exportTarget base path m.name
      match tree.replaceFile faults name base target m.render.writtenText with
      | (after, .ok ()) => (after, .ok target)
      | (after, .error error) => (after, .error error)

def exportTo (m : Model τ) (tree : FileTree) (base : Location) (path : String) :
    FileTree × Except ExportError String :=
  m.exportWith noFaults (tree.unusedName (tree.exportTarget base path m.name)) tree base path

end Model

end SparseProgram
