/-!
# Paths

Paths as they are written: text with names between slashes. They are kept as given and only cut
into names to follow them.
-/

namespace SparseProgram

namespace Path

def segments (path : String) : List String :=
  (path.toList.splitOn '/').map String.ofList

def isAbsolute (path : String) : Bool :=
  path.toList.head? == some '/'

def endsInSlash (path : String) : Bool :=
  path.toList.getLast? == some '/'

def names (path : String) : List String :=
  (segments path).filter (· != "")

/-- The names to follow. A slash at the end asks for a directory, as a dot behind it would. -/
def steps (path : String) : List String :=
  names path ++ (if endsInSlash path then ["."] else [])

/-- A path inside a directory; an absolute one stands for itself. -/
def join (directory name : String) : String :=
  if isAbsolute name then name
  else if directory = "" || endsInSlash directory then directory ++ name
  else directory ++ "/" ++ name

def isIdle (segment : String) : Bool :=
  segment = "" || segment = "."

def dropIdleEnd (segments : List String) : List String :=
  (segments.reverse.dropWhile isIdle).reverse

/-- The path of the directory that holds what a path names, as it is written there; the current
directory where none is written. -/
def parent (path : String) : String :=
  match segments path with
  | [] => "."
  | first :: rest =>
      match dropIdleEnd rest with
      | [] => "."
      | body =>
          let text := String.intercalate "/" (first :: dropIdleEnd body.dropLast)
          if text = "" then "/" else text

def lineage : Nat → String → List String
  | 0, path => [path]
  | count + 1, path => path :: lineage count (parent path)

/-- A path and all its parents, the innermost first. -/
def ancestors (path : String) : List String :=
  lineage (names path).length path

def ofLocation (location : List String) : String :=
  "/" ++ String.intercalate "/" location

end Path

end SparseProgram
