import SparseProgram.Files.Path
import SparseProgram.Files.Tree
import SparseProgram.Named

/-!
# Following paths

Where a path leads in a file tree. Links are followed up to a limit, every name on the way must
be that of a directory, and only the last name may be missing.
-/

namespace SparseProgram

inductive FileError where
  | notFound
  | permissionDenied
  | notADirectory
  | isADirectory
  | filesystemLoop
  | invalidFilename
  | invalidInput
  | resourceBusy
  | alreadyExists
  | other
  deriving DecidableEq

namespace FileError

instance : Named FileError where
  members :=
    [notFound, permissionDenied, notADirectory, isADirectory, filesystemLoop, invalidFilename,
      invalidInput, resourceBusy, alreadyExists, other]
  name
    | notFound => "NotFound"
    | permissionDenied => "PermissionDenied"
    | notADirectory => "NotADirectory"
    | isADirectory => "IsADirectory"
    | filesystemLoop => "FilesystemLoop"
    | invalidFilename => "InvalidFilename"
    | invalidInput => "InvalidInput"
    | resourceBusy => "ResourceBusy"
    | alreadyExists => "AlreadyExists"
    | other => "Other"

/-- The system's words and its number for a failure. -/
def message : FileError → String
  | notFound => "No such file or directory (os error 2)"
  | permissionDenied => "Permission denied (os error 13)"
  | notADirectory => "Not a directory (os error 20)"
  | isADirectory => "Is a directory (os error 21)"
  | filesystemLoop => "Too many levels of symbolic links (os error 40)"
  | invalidFilename => "File name too long (os error 36)"
  | invalidInput => "file name contained an unexpected NUL byte"
  | resourceBusy => "Device or resource busy (os error 16)"
  | alreadyExists => "File exists (os error 17)"
  | other => "other error"

end FileError

/-- Where a path leads: to an entry, or to a name that a directory does not hold. -/
inductive Place where
  | existing (location : Location)
  | missing (directory : Location) (name : String)
  deriving DecidableEq

/-- How far names lead without following a link. -/
inductive Progress where
  | arrived (place : Place)
  | link (directory : Location) (target : String) (rest : List String)
  | failed (error : FileError)

/-- The longest name, in bytes. -/
def longestName : Nat :=
  255

/-- Paths of so many bytes are too long. -/
def pathLimit : Nat :=
  4096

def linkLimit : Nat :=
  40

namespace FileTree

variable (tree : FileTree)

/-- Follows names up to a link; `followLast` is for one that comes last. -/
def advance (followLast : Bool) (here : Location) : List String → Progress
  | [] => .arrived (.existing here)
  | name :: rest =>
      if !tree.isDirectoryAt here then .failed .notADirectory
      else if name = "." then advance followLast here rest
      else if name = ".." then advance followLast here.dropLast rest
      else if longestName < name.utf8ByteSize then .failed .invalidFilename
      else
        let next := here ++ [name]
        match tree.entryAt next with
        | none => if rest = [] then .arrived (.missing here name) else .failed .notFound
        | some (.symlink target) =>
            if rest = [] && !followLast then .arrived (.existing next)
            else .link here target rest
        | some _ => advance followLast next rest

/-- Follows names and at most `links` links. -/
def walk (followLast : Bool) : Nat → Location → List String → Except FileError Place
  | links, here, names =>
      match tree.advance followLast here names with
      | .arrived place => .ok place
      | .failed error => .error error
      | .link directory target rest =>
          match links with
          | 0 => .error .filesystemLoop
          | links + 1 =>
              let start := if Path.isAbsolute target then [] else directory
              walk followLast links start (Path.steps target ++ rest)

/-- Paths that no walk begins with. -/
def pathError (path : String) : Option FileError :=
  if path.toList.contains '\x00' then some .invalidInput
  else if path = "" then some .notFound
  else if pathLimit ≤ path.utf8ByteSize then some .invalidFilename
  else none

def locateNames (followLast : Bool) (base : Location) (path : String) (names : List String) :
    Except FileError Place :=
  match pathError path with
  | some error => .error error
  | none => tree.walk followLast linkLimit (if Path.isAbsolute path then [] else base) names

def locate (followLast : Bool) (base : Location) (path : String) : Except FileError Place :=
  tree.locateNames followLast base path (Path.steps path)

/-- The entry that a path leads to, and its location. -/
def inspect (followLast : Bool) (base : Location) (path : String) :
    Except FileError (Location × FileEntry) := do
  match ← tree.locate followLast base path with
  | .existing location =>
      match tree.entryAt location with
      | some entry => return (location, entry)
      | none => throw .notFound
  | .missing _ _ => throw .notFound

def isDirectory (base : Location) (path : String) : Bool :=
  match tree.inspect true base path with
  | .ok (_, .directory) => true
  | _ => false

def isSymlink (base : Location) (path : String) : Bool :=
  match tree.inspect false base path with
  | .ok (_, .symlink _) => true
  | _ => false

/-- The absolute path of an entry, free of links. -/
def canonicalPath (base : Location) (path : String) : Except FileError String := do
  let (location, _) ← tree.inspect true base path
  return Path.ofLocation location

/-- The directory in which the last name of a path stands, and that name unless it is made of
dots. -/
def lastName (base : Location) (path : String) : Except FileError (Location × Option String) := do
  let names := Path.names path
  match ← tree.locateNames true base path (names.dropLast ++ ["."]) with
  | .missing _ _ => throw .notFound
  | .existing directory =>
      match names.getLast? with
      | none | some "." | some ".." => return (directory, none)
      | some name =>
          if longestName < name.utf8ByteSize then throw .invalidFilename
          else return (directory, some name)

/-! ## Changing a tree -/

/-- Creates or overwrites a file, through at most `links` links. A path that ends in a slash or in
dots asks for a directory. -/
def writeThrough (mode : Nat) (text : String) :
    Nat → Location → String → Except FileError FileTree
  | links, base, path => do
      match ← tree.lastName base path with
      | (_, none) => throw .isADirectory
      | (directory, some name) =>
          let location := directory ++ [name]
          if Path.endsInSlash path then throw .isADirectory
          match tree.entryAt location, links with
          | none, _ => return tree.put location (.file mode text)
          | some .directory, _ => throw .isADirectory
          | some (.symlink _), 0 => throw .filesystemLoop
          | some (.symlink target), links + 1 => writeThrough mode text links directory target
          | some entry, _ =>
              if entry.isWritable then return tree.put location (.file mode text)
              else throw .permissionDenied

def writeFile (base : Location) (path : String) (mode : Nat) (text : String) :
    Except FileError FileTree :=
  tree.writeThrough mode text linkLimit base path

/-- Where a path creates an entry: under a name that its directory does not hold. -/
def newLocation (base : Location) (path : String) : Except FileError Location := do
  match ← tree.lastName base path with
  | (_, none) => throw .alreadyExists
  | (directory, some name) =>
      if tree.entryAt (directory ++ [name]) = none then return directory ++ [name]
      else throw .alreadyExists

def makeLink (base : Location) (path target : String) : Except FileError FileTree := do
  if let some error := pathError target then throw error
  let location ← tree.newLocation base path
  if Path.endsInSlash path then throw .notFound
  return tree.put location (.symlink target)

def makeDirectory (base : Location) (path : String) : Except FileError FileTree :=
  match tree.newLocation base path with
  | .ok location => .ok (tree.put location .directory)
  | .error error => if tree.isDirectory base path then .ok tree else .error error

/-- Creates the first directory; where the one that is to hold it is missing, the rest first. -/
def makeInnermost (base : Location) : List String → Except FileError FileTree
  | [] => .ok tree
  | path :: outer =>
      match tree.makeDirectory base path with
      | .error .notFound => do (← makeInnermost base outer).makeDirectory base path
      | result => result

def makeDirectories (base : Location) (path : String) : Except FileError FileTree :=
  if path = "" then .ok tree else tree.makeInnermost base (Path.ancestors path)

/-- Where a file can be moved to: a name in a directory, which no directory has. -/
def moveTarget (base : Location) (path : String) : Except FileError Location := do
  match ← tree.lastName base path with
  | (_, none) => throw .resourceBusy
  | (directory, some name) =>
      if Path.endsInSlash path then throw .notADirectory
      else if tree.isDirectoryAt (directory ++ [name]) then throw .isADirectory
      else return directory ++ [name]

end FileTree

end SparseProgram
