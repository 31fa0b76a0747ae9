import SparseProgram.Event
import SparseProgram.Files.Export
import SparseProgram.Snapshot.Compile

/-!
# Sessions

A snapshot and a current model with the models that were saved, the events that nobody has read
yet, and a file tree to export to. A step that fails leaves the session as it was.
-/

namespace SparseProgram

structure Session (τ : Type) where
  snapshot : Snapshot τ
  model : Model τ
  saved : List (String × Model τ)
  events : List Event
  files : FileTree

namespace Session

variable {τ : Type}

/-- The directory that relative paths start from. -/
def workingDirectory : Location :=
  ["tmp", "scratchdir"]

def initialFiles : FileTree :=
  ⟨[(["tmp"], .directory), (workingDirectory, .directory)]⟩

def initial : Session τ :=
  ⟨.empty, .empty, [], [], initialFiles⟩

def editModel (s : Session τ) (edit : Model τ → Model τ) : Session τ :=
  { s with model := edit s.model }

def advance (s : Session τ) (model : Model τ) (events : List Event) : Session τ :=
  { s with model := model, events := s.events ++ events }

def compile [Term τ] (options : CompileOptions) (s : Session τ) :
    Except CompileError (Session τ) := do
  let model ← s.snapshot.compile options
  return s.advance model model.compiledEvents

def normalize [Term τ] (s : Session τ) : Session τ :=
  s.advance s.model.normalize s.model.normalizedEvents

def relax (s : Session τ) : Session τ :=
  s.advance s.model.relax s.model.relaxedEvents

def dual (s : Session Nat) : Except DualError (Session Nat) := do
  let dual ← s.model.dual
  return s.advance dual (s.model.dualEvents dual)

def exportTo [Term τ] (s : Session τ) (path : String) :
    Session τ × Except ExportError String :=
  match s.model.exportTo s.files workingDirectory path with
  | (files, .ok target) =>
      ({ s with files := files, events := s.events ++ [.exported target] }, .ok target)
  | (files, .error error) => ({ s with files := files }, .error error)

def readEvents (s : Session τ) : Session τ × List Event :=
  ({ s with events := [] }, s.events)

def save (s : Session τ) (slot : String) : Session τ :=
  { s with saved := (slot, s.model) :: s.saved.filter (·.1 != slot) }

def savedModel? (s : Session τ) (slot : String) : Option (Model τ) :=
  s.saved.lookup slot

/-- All entries below the working directory by relative path, in the order of paths. There is no
listing if one of the files cannot be read. -/
def listing (s : Session τ) : Except FileError (List (String × FileEntry)) :=
  let below := s.files.entries.filterMap fun (location, entry) =>
    if workingDirectory.isPrefixOf location && location != workingDirectory then
      some (String.intercalate "/" (location.drop workingDirectory.length), entry)
    else none
  if below.all fun (_, entry) => entry.isReadable then
    .ok (below.mergeSort fun a b => decide (a.1 ≤ b.1))
  else
    .error .permissionDenied

end Session

end SparseProgram
