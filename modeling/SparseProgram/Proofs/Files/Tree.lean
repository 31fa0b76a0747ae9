import Mathlib.Data.List.Induction
import SparseProgram.Files.Shape

/-!
# Laws of file trees

A file put where nothing is changes no other entry and no directory. In a well-formed tree all that
leads to an entry is made of plain names and directories.
-/

namespace SparseProgram

namespace FileTree

variable {tree : FileTree} {location other directory : Location} {name : String}

@[simp] theorem put_put (tree : FileTree) (location : Location) (first last : FileEntry) :
    (tree.put location first).put location last = tree.put location last := by
  rw [put, remove_put]
  rfl

theorem mem_entries_of_entryAt {entry : FileEntry} (hne : location ≠ [])
    (h : tree.entryAt location = some entry) : (location, entry) ∈ tree.entries := by
  rw [entryAt, if_neg hne] at h
  obtain ⟨before, after, hsplit, -⟩ := List.lookup_eq_some_iff.1 h
  rw [hsplit]
  simp

theorem isDirectoryAt_iff :
    tree.isDirectoryAt location = true ↔ tree.entryAt location = some .directory := by
  rw [isDirectoryAt, beq_iff_eq]

theorem ne_nil_of_entryAt (h : tree.entryAt location ≠ some .directory) : location ≠ [] := by
  rintro rfl
  exact h rfl

theorem isDirectoryAt_put_file (h : tree.entryAt location = none) (mode : Nat) (text : String)
    (other : Location) :
    (tree.put location (.file mode text)).isDirectoryAt other = tree.isDirectoryAt other := by
  have hne : location ≠ [] := ne_nil_of_entryAt (show tree.entryAt location ≠ _ by simp [h])
  rw [isDirectoryAt, isDirectoryAt]
  by_cases hother : other = location
  · rw [hother, entryAt_put_self hne, h]
    rfl
  · rw [entryAt_put_of_ne hother]

/-! ## Well-formed trees -/

namespace IsTree

variable {entry : FileEntry}

theorem entry_concat (h : tree.IsTree) (hentry : tree.entryAt (directory ++ [name]) = some entry) :
    Path.IsName name ∧ tree.isDirectoryAt directory = true := by
  have hshape := h _ (mem_entries_of_entryAt (by simp) hentry)
  rw [List.getLast?_concat, List.dropLast_concat] at hshape
  exact ⟨hshape.1 name rfl, hshape.2⟩

theorem isDirectoryAt_of_append (h : tree.IsTree) {names : List String}
    (hdirectory : tree.isDirectoryAt (directory ++ names) = true) :
    tree.isDirectoryAt directory = true := by
  induction names using List.reverseRecOn with
  | nil => rwa [List.append_nil] at hdirectory
  | append_singleton names last ih =>
      rw [← List.append_assoc] at hdirectory
      exact ih (h.entry_concat (isDirectoryAt_iff.1 hdirectory)).2

theorem isName_of_mem (h : tree.IsTree) (hentry : tree.entryAt location = some entry) :
    ∀ name ∈ location, Path.IsName name := by
  induction location using List.reverseRecOn generalizing entry with
  | nil => simp
  | append_singleton directory last ih =>
      obtain ⟨hlast, hdirectory⟩ := h.entry_concat hentry
      rw [List.forall_mem_append]
      exact ⟨ih (isDirectoryAt_iff.1 hdirectory), by simpa using hlast⟩

theorem isDirectoryAt_dropLast (h : tree.IsTree) (hentry : tree.entryAt location = some entry) :
    tree.isDirectoryAt location.dropLast = true := by
  rcases List.eq_nil_or_concat location with rfl | ⟨directory, last, rfl⟩
  · rfl
  · rw [List.concat_eq_append] at hentry ⊢
    rw [List.dropLast_concat]
    exact (h.entry_concat hentry).2

end IsTree

end FileTree

end SparseProgram
