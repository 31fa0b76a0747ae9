import SparseProgram.Json.Codec
import SparseProgram.Json.Parser
import SparseProgram.Json.Printer
import SparseProgram.Model.Basic

/-!
# Models as JSON

The record form of a model and its parts, and JSON text of models. Numbers without a JSON form
are written as null, which only a variable's current value may be when it is read.
-/

namespace SparseProgram

open JsonCodec

namespace QuadraticTerm

def encode : QuadraticTerm → Json
  | linear column => .object [("Linear", .object [("col", .ofNat column)])]
  | product first second =>
      .object [("Quadratic", .object [("col1", .ofNat first), ("col2", .ofNat second)])]

/-- An object of exactly one key, which says what kind of term it holds. -/
def decode? : Json → Option QuadraticTerm
  | .obj [(some "Linear", inner)] =>
      match fields? ["col"] inner with
      | some [column] => return linear (← required? column)
      | _ => none
  | .obj [(some "Quadratic", inner)] =>
      match fields? ["col1", "col2"] inner with
      | some [first, second] => return product (← required? first) (← required? second)
      | _ => none
  | _ => none

instance : JsonCodec QuadraticTerm where
  encode := encode
  decode? := decode?

end QuadraticTerm

namespace Variable

def encode (v : Variable) : Json :=
  .object [
    ("index", JsonCodec.encode v.index),
    ("lower_bound", JsonCodec.encode v.bounds.lower),
    ("upper_bound", JsonCodec.encode v.bounds.upper),
    ("kind", JsonCodec.encode v.kind),
    ("name", JsonCodec.encode v.name),
    ("value", JsonCodec.encode v.value)]

def decode? (j : Json) : Option Variable :=
  match fields? ["index", "lower_bound", "upper_bound", "kind", "name", "value"] j with
  | some [index, lower, upper, kind, name, value] => do
      let index ← required? index
      let lower ← required? lower
      let upper ← required? upper
      let kind ← required? kind
      let name ← required? name
      let value ← optional? value
      return ⟨index, ⟨lower, upper⟩, kind, name, value⟩
  | _ => none

instance : JsonCodec Variable where
  encode := encode
  decode? := decode?

end Variable

variable {τ : Type} [JsonCodec τ]

namespace Cell

def encode (cell : Cell τ) : Json :=
  .object [
    ("row", JsonCodec.encode cell.row),
    ("term", JsonCodec.encode cell.term),
    ("coefficient", JsonCodec.encode cell.coefficient)]

def decode? (j : Json) : Option (Cell τ) :=
  match fields? ["row", "term", "coefficient"] j with
  | some [row, term, coefficient] =>
      return ⟨← required? row, ← required? term, ← required? coefficient⟩
  | _ => none

instance : JsonCodec (Cell τ) where
  encode := encode
  decode? := decode?

end Cell

namespace ObjectiveCell

def encode (cell : ObjectiveCell τ) : Json :=
  .object [
    ("term", JsonCodec.encode cell.term),
    ("coefficient", JsonCodec.encode cell.coefficient)]

def decode? (j : Json) : Option (ObjectiveCell τ) :=
  match fields? ["term", "coefficient"] j with
  | some [term, coefficient] => return ⟨← required? term, ← required? coefficient⟩
  | _ => none

instance : JsonCodec (ObjectiveCell τ) where
  encode := encode
  decode? := decode?

end ObjectiveCell

namespace RowStore

def encode (s : RowStore τ) : Json :=
  .object [
    ("lhs", JsonCodec.encode s.cells),
    ("signs", JsonCodec.encode s.relations),
    ("rhs", JsonCodec.encode s.rightSides),
    ("names", JsonCodec.encode s.names)]

def decode? (j : Json) : Option (RowStore τ) :=
  match fields? ["lhs", "signs", "rhs", "names"] j with
  | some [cells, relations, rightSides, names] =>
      return ⟨← required? cells, ← required? relations, ← required? rightSides, ← required? names⟩
  | _ => none

instance : JsonCodec (RowStore τ) where
  encode := encode
  decode? := decode?

end RowStore

namespace Objective

def encode (o : Objective τ) : Json :=
  .object [
    ("category", JsonCodec.encode o.sense),
    ("cells", JsonCodec.encode o.cells)]

def decode? (j : Json) : Option (Objective τ) :=
  match fields? ["category", "cells"] j with
  | some [sense, cells] => return ⟨← required? sense, ← required? cells⟩
  | _ => none

instance : JsonCodec (Objective τ) where
  encode := encode
  decode? := decode?

end Objective

namespace Model

def encode (m : Model τ) : Json :=
  .object [
    ("name", JsonCodec.encode m.name),
    ("variables", JsonCodec.encode m.vars),
    ("constraints", JsonCodec.encode m.constraints),
    ("objective", JsonCodec.encode m.objective)]

def decode? (j : Json) : Option (Model τ) :=
  match fields? ["name", "variables", "constraints", "objective"] j with
  | some [name, vars, constraints, objective] =>
      return ⟨← required? name, ← required? vars, ← required? constraints,
        ← required? objective⟩
  | _ => none

def toJsonText (m : Model τ) : String :=
  m.encode.compress

def ofJsonText? (text : String) : Option (Model τ) :=
  (Json.parse? text).bind decode?

end Model

end SparseProgram
