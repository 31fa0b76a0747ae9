import SparseProgram.Json.Basic
import SparseProgram.Number.Decimal

/-!
# Reading JSON

A strict reader: no comments, no trailing commas, no raw control characters in strings, no text
after the value. Each reader takes a run of characters and leaves the rest.
-/

namespace SparseProgram

namespace Json

/-- A reader leaves what follows the value it read. -/
abbrev Reader (α : Type) := List Char → Option (α × List Char)

def isBlank (c : Char) : Bool :=
  c = ' ' || c = '\n' || c = '\t' || c = '\r'

def skipBlanks (cs : List Char) : List Char :=
  cs.dropWhile isBlank

/-! ## Strings -/

def hexValue (c : Char) : Option Nat :=
  if c.isDigit then some (c.toNat - '0'.toNat)
  else if 'a' ≤ c ∧ c ≤ 'f' then some (c.toNat - 'a'.toNat + 10)
  else if 'A' ≤ c ∧ c ≤ 'F' then some (c.toNat - 'A'.toNat + 10)
  else none

def hexCode (a b c d : Char) : Option Nat := do
  let a ← hexValue a
  let b ← hexValue b
  let c ← hexValue c
  let d ← hexValue d
  return ((a * 16 + b) * 16 + c) * 16 + d

def escapeCode : Char → Option Nat
  | '"' => some 34
  | '\\' => some 92
  | '/' => some 47
  | 'b' => some 8
  | 'f' => some 12
  | 'n' => some 10
  | 'r' => some 13
  | 't' => some 9
  | _ => none

/-- The codes of a string literal after its opening quote: code points of the characters as
written, 16-bit units of the numeric escapes. -/
def readCodes : Reader (List Nat)
  | [] => none
  | '"' :: rest => some ([], rest)
  | '\\' :: 'u' :: a :: b :: c :: d :: rest => do
      let code ← hexCode a b c d
      let (codes, rest) ← readCodes rest
      return (code :: codes, rest)
  | '\\' :: e :: rest => do
      let code ← escapeCode e
      let (codes, rest) ← readCodes rest
      return (code :: codes, rest)
  | c :: rest =>
      if c.toNat < 32 then none
      else do
        let (codes, rest) ← readCodes rest
        return (c.toNat :: codes, rest)

def isHighSurrogate (code : Nat) : Bool :=
  decide (0xD800 ≤ code ∧ code < 0xDC00)

def isLowSurrogate (code : Nat) : Bool :=
  decide (0xDC00 ≤ code ∧ code < 0xE000)

/-- The characters of a run of codes; surrogates must come in pairs. -/
def joinSurrogates : List Nat → Option (List Char)
  | [] => some []
  | [code] =>
      if isHighSurrogate code || isLowSurrogate code then none else some [Char.ofNat code]
  | code :: next :: rest =>
      if isHighSurrogate code then
        if isLowSurrogate next then
          (joinSurrogates rest).map
            (Char.ofNat (0x10000 + (code - 0xD800) * 0x400 + (next - 0xDC00)) :: ·)
        else none
      else if isLowSurrogate code then none
      else (joinSurrogates (next :: rest)).map (Char.ofNat code :: ·)

/-- The text of a string literal after its opening quote. -/
def readText : Reader LiteralText := fun cs => do
  let (codes, rest) ← readCodes cs
  return ((joinSurrogates codes).map String.ofList, rest)

/-! ## Numbers -/

def readDigits : Reader (List Char) := fun cs =>
  let digits := cs.takeWhile Char.isDigit
  if digits = [] then none else some (digits, cs.dropWhile Char.isDigit)

def readSign : Reader Bool := fun cs =>
  match cs with
  | '-' :: rest => some (true, rest)
  | _ => some (false, cs)

/-- Digits without a leading zero, a lone zero apart. -/
def readWhole : Reader (List Char) := fun cs => do
  let (digits, rest) ← readDigits cs
  if digits.head? = some '0' ∧ digits.length ≠ 1 then none else return (digits, rest)

def readFraction : Reader (Option (List Char)) := fun cs =>
  match cs with
  | '.' :: rest => (readDigits rest).map fun (digits, rest) => (some digits, rest)
  | _ => some (none, cs)

def readExponentSign : Reader Bool := fun cs =>
  match cs with
  | '-' :: rest => some (true, rest)
  | '+' :: rest => some (false, rest)
  | _ => some (false, cs)

def readExponent : Reader (Option Int) := fun cs =>
  match cs with
  | c :: rest =>
      if c = 'e' ∨ c = 'E' then do
        let (negative, rest) ← readExponentSign rest
        let (digits, rest) ← readDigits rest
        let size := (digitsValue digits : Int)
        return (some (if negative then -size else size), rest)
      else some (none, cs)
  | [] => some (none, cs)

/-- The value of a number literal given by its parts. -/
def numberValue (negative : Bool) (whole : List Char) :
    Option (List Char) → Option Int → Json
  | none, none =>
      let n := digitsValue whole
      if negative && n == 0 then real (-Binary64.zero)
      else int (if negative then -(n : Int) else n)
  | fraction, exponent =>
      let places := fraction.getD []
      let decimal : Decimal := ⟨negative, digitsValue (whole ++ places), places.length⟩
      match exponent with
      | none => real decimal.toBinary64
      | some exponent => real (decimal.scaled exponent)

def readNumber : Reader Json := fun cs => do
  let (negative, cs) ← readSign cs
  let (whole, cs) ← readWhole cs
  let (fraction, cs) ← readFraction cs
  let (exponent, cs) ← readExponent cs
  return (numberValue negative whole fraction exponent, cs)

/-! ## Values -/

mutual

/-- A value at the very start of the characters. Every step spends fuel. -/
def readValue : Nat → Reader Json
  | 0, _ => none
  | fuel + 1, cs =>
      match cs with
      | 'n' :: 'u' :: 'l' :: 'l' :: rest => some (null, rest)
      | 't' :: 'r' :: 'u' :: 'e' :: rest => some (bool true, rest)
      | 'f' :: 'a' :: 'l' :: 's' :: 'e' :: rest => some (bool false, rest)
      | '"' :: rest => (readText rest).map fun (text, rest) => (str text, rest)
      | '[' :: rest =>
          match skipBlanks rest with
          | ']' :: rest => some (arr [], rest)
          | rest => (readItems fuel rest).map fun (items, rest) => (arr items, rest)
      | '\x7b' :: rest =>
          match skipBlanks rest with
          | '\x7d' :: rest => some (obj [], rest)
          | rest => (readMembers fuel rest).map fun (members, rest) => (obj members, rest)
      | cs => readNumber cs

def readItems : Nat → Reader (List Json)
  | 0, _ => none
  | fuel + 1, cs => do
      let (item, cs) ← readValue fuel cs
      match skipBlanks cs with
      | ']' :: rest => return ([item], rest)
      | ',' :: rest =>
          let (items, rest) ← readItems fuel (skipBlanks rest)
          return (item :: items, rest)
      | _ => none

def readMembers : Nat → Reader (List (LiteralText × Json))
  | 0, _ => none
  | fuel + 1, cs =>
      match cs with
      | '"' :: rest => do
          let (key, cs) ← readText rest
          match skipBlanks cs with
          | ':' :: rest =>
              let (value, cs) ← readValue fuel (skipBlanks rest)
              match skipBlanks cs with
              | '\x7d' :: rest => return ([(key, value)], rest)
              | ',' :: rest =>
                  let (members, rest) ← readMembers fuel (skipBlanks rest)
                  return ((key, value) :: members, rest)
              | _ => none
          | _ => none
      | _ => none

end

/-- One value with blanks around it and nothing else. -/
def parse? (text : String) : Option Json := do
  let cs := text.toList
  let (value, rest) ← readValue (2 * cs.length + 2) (skipBlanks cs)
  if skipBlanks rest = [] then some value else none

end Json

end SparseProgram
