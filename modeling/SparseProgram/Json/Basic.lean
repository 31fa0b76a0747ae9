import SparseProgram.Number.Binary64

/-!
# JSON values

Values keep the order and the repetitions of object members. Two literals that have no value are
kept as what they are, because a reader may skip them: a string with half of a surrogate pair,
and a number beyond the largest finite one, which is infinite.
-/

namespace SparseProgram

/-- The text of a string literal, `none` if an escape leaves half of a surrogate pair. -/
abbrev LiteralText := Option String

/-- A number without fraction and exponent is `int`, except that `-0` is a negative zero. -/
inductive Json where
  | null
  | bool (value : Bool)
  | int (value : Int)
  | real (value : Binary64)
  | str (text : LiteralText)
  | arr (items : List Json)
  | obj (members : List (LiteralText × Json))
  deriving Inhabited

namespace Json

def ofString (s : String) : Json :=
  str (some s)

def ofNat (n : Nat) : Json :=
  int n

def object (members : List (String × Json)) : Json :=
  obj (members.map fun (key, value) => (some key, value))

def ofOption (encode : α → Json) : Option α → Json
  | none => null
  | some a => encode a

def ofList (encode : α → Json) (items : List α) : Json :=
  arr (items.map encode)

end Json

end SparseProgram
