import SparseProgram.Files.Walk

/-!
# Shapes of file trees

What every tree of a file system satisfies: an entry has a plain name and stands in a directory.
-/

namespace SparseProgram

namespace Path

/-- A name that a directory can have an entry under. -/
def IsName (name : String) : Prop :=
  name ≠ "" ∧ name ≠ "." ∧ name ≠ ".." ∧ '/' ∉ name.toList

instance (name : String) : Decidable (IsName name) :=
  inferInstanceAs (Decidable (_ ∧ _))

end Path

/-- Where a file of a place is or would be. -/
def Place.location : Place → Location
  | existing location => location
  | missing directory name => directory ++ [name]

namespace FileTree

/-- Every entry has a name in a directory. -/
def IsTree (tree : FileTree) : Prop :=
  ∀ entry ∈ tree.entries,
    (∀ name ∈ entry.1.getLast?, Path.IsName name) ∧ tree.isDirectoryAt entry.1.dropLast = true

instance (tree : FileTree) : Decidable tree.IsTree :=
  inferInstanceAs (Decidable (∀ entry ∈ tree.entries, _ ∧ _))

/-- A path leads to a location, or to the free name of a file that may be created there. -/
def LeadsTo (tree : FileTree) (base : Location) (path : String) (location : Location) : Prop :=
  ∃ place, tree.locate true base path = .ok place ∧ place.location = location

end FileTree

end SparseProgram
