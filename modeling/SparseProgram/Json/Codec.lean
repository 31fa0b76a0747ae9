import SparseProgram.Json.Basic
import SparseProgram.Named

/-!
# Values as JSON

How numbers, words and records are written as JSON values and read from them. A record is an
object of its fields, or an array of all of them in order.
-/

namespace SparseProgram

class JsonCodec (α : Type) where
  encode : α → Json
  decode? : Json → Option α

namespace JsonCodec

def indexLimit : Nat :=
  0x10000000000000000

/-- An index is an integer literal in range. -/
def decodeIndex? : Json → Option Nat
  | .int (.ofNat n) => if n < indexLimit then some n else none
  | _ => none

instance : JsonCodec Nat where
  encode := Json.ofNat
  decode? := decodeIndex?

def encodeNumber (x : Binary64) : Json :=
  if x.isFinite then .real x else .null

def finite? (x : Binary64) : Option Binary64 :=
  if x.isFinite then some x else none

/-- A number is any literal in the range of finite numbers. -/
def decodeNumber? : Json → Option Binary64
  | .int n => finite? (.ofInt n)
  | .real x => finite? x
  | _ => none

instance : JsonCodec Binary64 where
  encode := encodeNumber
  decode? := decodeNumber?

def decodeText? : Json → Option String
  | .str text => text
  | _ => none

instance : JsonCodec String where
  encode := Json.ofString
  decode? := decodeText?

/-- A word, or an object that holds nothing under the word. -/
def decodeWord? : Json → Option String
  | .str text => text
  | .obj [(key, .null)] => key
  | _ => none

instance {α : Type} [Named α] : JsonCodec α where
  encode a := Json.ofString (Named.name a)
  decode? j := (decodeWord? j).bind Named.ofName?

variable {α : Type} [JsonCodec α]

instance : JsonCodec (Option α) where
  encode := Json.ofOption encode
  decode?
    | .null => some none
    | j => (decode? j).map some

instance : JsonCodec (List α) where
  encode := Json.ofList encode
  decode?
    | .arr items => items.mapM decode?
    | _ => none

/-! ## Records -/

def uniqueMember? (members : List (LiteralText × Json)) (key : String) : Option (Option Json) :=
  match members.filter (·.1 == some key) with
  | [] => some none
  | [(_, value)] => some (some value)
  | _ => none

/-- The fields of a record by name. Members of other names are passed over, whatever they hold,
but every key must be text. -/
def fields? (names : List String) : Json → Option (List (Option Json))
  | .arr items => if items.length = names.length then some (items.map some) else none
  | .obj members =>
      if members.all (·.1.isSome) then names.mapM (uniqueMember? members) else none
  | _ => none

def required? (field : Option Json) : Option α :=
  field.bind decode?

/-- A field that counts as none when it is missing. -/
def optional? : Option Json → Option (Option α)
  | none => some none
  | some j => decode? j

end JsonCodec

end SparseProgram
