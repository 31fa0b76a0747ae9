/-!
# Enumerations with names

Finite choices whose members are written as words.
-/

namespace SparseProgram

class Named (α : Type) where
  members : List α
  name : α → String

namespace Named

variable {α : Type} [Named α]

def ofName? (word : String) : Option α :=
  (members : List α).find? fun a => name a == word

end Named

end SparseProgram
