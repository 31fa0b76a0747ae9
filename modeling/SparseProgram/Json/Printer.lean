import SparseProgram.Json.Basic
import SparseProgram.Number.Shortest

/-!
# JSON text

Compact text: no blanks, only the escapes that are required, and shortest decimals with at least
one place, so that a whole number stays a number of its kind when it is read.

The spelling is not the usual one throughout, though it reads as the same value: a control character
is always written by its number, a tab as `\u0009` and not as `\t`, and a finite number without an
exponent, 1e300 with its 301 digits.
-/

namespace SparseProgram

namespace Json

def hexDigit (n : Nat) : Char :=
  Nat.digitChar (n % 16)

def escapeChar (c : Char) : List Char :=
  if c = '"' then ['\\', '"']
  else if c = '\\' then ['\\', '\\']
  else if c.toNat < 32 then ['\\', 'u', '0', '0', hexDigit (c.toNat / 16), hexDigit c.toNat]
  else [c]

def printText (s : String) : List Char :=
  '"' :: (s.toList.flatMap escapeChar ++ ['"'])

def printLiteralText : LiteralText → List Char
  | some s => printText s
  | none => ['"', '\\', 'u', 'd', '8', '0', '0', '"']

def printInt (n : Int) : List Char :=
  (if n < 0 then ['-'] else []) ++ wholeDigits n.natAbs

def withPoint (d : Decimal) : Decimal :=
  if d.places = 0 then ⟨d.negative, d.digits * 10, 1⟩ else d

theorem toBinary64_withPoint (d : Decimal) : (withPoint d).toBinary64 = d.toBinary64 := by
  obtain ⟨negative, digits, places⟩ := d
  by_cases h : places = 0
  · subst h
    exact Decimal.toBinary64_succ_places negative digits 0
  · simp [withPoint, h]

theorem withPoint_places_pos (d : Decimal) : 0 < (withPoint d).places := by
  by_cases h : d.places = 0
  · simp [withPoint, h]
  · simp only [withPoint, h, if_false]
    omega

/-- A number without a JSON form is written as one beyond all finite numbers, NaN as null. -/
def printReal : Binary64 → List Char
  | .nan => ['n', 'u', 'l', 'l']
  | .infinite negative => (if negative then ['-'] else []) ++ ['1', 'e', '9', '9', '9']
  | .finite negative m => (withPoint (Binary64.shortest negative m)).text

mutual

def print : Json → List Char
  | null => ['n', 'u', 'l', 'l']
  | bool true => ['t', 'r', 'u', 'e']
  | bool false => ['f', 'a', 'l', 's', 'e']
  | int n => printInt n
  | real x => printReal x
  | str text => printLiteralText text
  | arr items => '[' :: printItems items
  | obj members => '\x7b' :: printMembers members

def printItems : List Json → List Char
  | [] => [']']
  | [item] => print item ++ [']']
  | item :: next :: rest => print item ++ ',' :: printItems (next :: rest)

def printMembers : List (LiteralText × Json) → List Char
  | [] => ['\x7d']
  | [(key, value)] => printLiteralText key ++ ':' :: print value ++ ['\x7d']
  | (key, value) :: next :: rest =>
      printLiteralText key ++ ':' :: print value ++ ',' :: printMembers (next :: rest)

end

def compress (j : Json) : String :=
  String.ofList j.print

end Json

end SparseProgram
