/-!
# File trees

Directories, regular files and symbolic links by location. A location lists the names from the
root, which is always a directory. Of two entries at one location the first counts.
-/

namespace SparseProgram

abbrev Location := List String

inductive FileEntry where
  | directory
  | file (mode : Nat) (text : String)
  | symlink (target : String)
  deriving DecidableEq

namespace FileEntry

/-- Files are read with the rights of their owner. -/
def isReadable : FileEntry → Bool
  | file mode _ => mode.testBit 8
  | _ => true

def isWritable : FileEntry → Bool
  | file mode _ => mode.testBit 7
  | _ => true

end FileEntry

structure FileTree where
  entries : List (Location × FileEntry)
  deriving DecidableEq

namespace FileTree

def empty : FileTree :=
  ⟨[]⟩

def entryAt (tree : FileTree) (location : Location) : Option FileEntry :=
  if location = [] then some .directory else tree.entries.lookup location

def isDirectoryAt (tree : FileTree) (location : Location) : Bool :=
  tree.entryAt location == some .directory

def remove (tree : FileTree) (location : Location) : FileTree :=
  ⟨tree.entries.filter fun entry => entry.1 != location⟩

/-- Puts an entry in place of whatever is there. -/
def put (tree : FileTree) (location : Location) (entry : FileEntry) : FileTree :=
  ⟨(location, entry) :: (tree.remove location).entries⟩

theorem remove_of_entryAt {tree : FileTree} {location : Location}
    (h : tree.entryAt location = none) : tree.remove location = tree := by
  have hall : tree.entries.filter (fun entry => entry.1 != location) = tree.entries := by
    rw [entryAt] at h
    split at h
    case isTrue => cases h
    case isFalse =>
      refine List.filter_eq_self.2 fun entry hentry => bne_iff_ne.2 fun heq => ?_
      have hother := List.lookup_eq_none_iff.1 h entry hentry
      simp [heq] at hother
  simp [remove, hall]

@[simp] theorem remove_put (tree : FileTree) (location : Location) (entry : FileEntry) :
    (tree.put location entry).remove location = tree.remove location := by
  simp [put, remove]

theorem entryAt_put_self {location : Location} (h : location ≠ []) (tree : FileTree)
    (entry : FileEntry) : (tree.put location entry).entryAt location = some entry := by
  simp [entryAt, put, h]

theorem lookup_filter_ne {location other : Location} (h : other ≠ location)
    (entries : List (Location × FileEntry)) :
    (entries.filter fun entry => entry.1 != location).lookup other = entries.lookup other := by
  induction entries with
  | nil => rfl
  | cons entry rest ih =>
      obtain ⟨at', found⟩ := entry
      by_cases hat : at' = location
      · subst hat
        have hne : (other == at') = false := beq_false_of_ne h
        simp [List.lookup_cons, hne, ih]
      · simp [List.lookup_cons, hat, ih]

theorem entryAt_put_of_ne {location other : Location} (h : other ≠ location) (tree : FileTree)
    (entry : FileEntry) : (tree.put location entry).entryAt other = tree.entryAt other := by
  have hne : (other == location) = false := beq_false_of_ne h
  have hkeep := lookup_filter_ne h tree.entries
  simp [entryAt, put, remove, List.lookup_cons, hne, hkeep]

end FileTree

end SparseProgram
