import SparseProgram.Json.Parser
import SparseProgram.Json.Printer

/-!
# Reading printed strings

A string literal reads back code point by code point, whatever follows it.
-/

namespace SparseProgram

namespace Json

theorem hexCode_hexDigit {n : Nat} (h : n < 32) :
    hexCode '0' '0' (hexDigit (n / 16)) (hexDigit n) = some n := by
  have hall : ∀ k : Fin 32, hexCode '0' '0' (hexDigit (k / 16)) (hexDigit k) = some k.val := by
    decide
  exact hall ⟨n, h⟩

/-- A printed character is read as its code point. -/
theorem readCodes_escapeChar (c : Char) (rest : List Char) :
    readCodes (escapeChar c ++ rest)
      = (readCodes rest).map fun (codes, rest) => (c.toNat :: codes, rest) := by
  rw [escapeChar]
  split
  case isTrue hquote =>
    subst hquote
    cases h : readCodes rest <;> simp [readCodes, escapeCode, h]
  case isFalse hquote =>
    split
    case isTrue hbackslash =>
      subst hbackslash
      cases h : readCodes rest <;> simp [readCodes, escapeCode, h]
    case isFalse hbackslash =>
      split
      case isTrue hcontrol =>
        cases h : readCodes rest <;> simp [readCodes, hexCode_hexDigit hcontrol, h]
      case isFalse hcontrol =>
        cases h : readCodes rest <;> simp [readCodes, hbackslash, hcontrol, h]

theorem readCodes_flatMap_escapeChar (cs rest : List Char) :
    readCodes (cs.flatMap escapeChar ++ '"' :: rest) = some (cs.map Char.toNat, rest) := by
  induction cs with
  | nil => simp [readCodes]
  | cons c cs ih =>
      rw [List.flatMap_cons, List.append_assoc, readCodes_escapeChar, ih]
      rfl

theorem not_surrogate (c : Char) :
    isHighSurrogate c.toNat = false ∧ isLowSurrogate c.toNat = false := by
  have hvalid : c.toNat < 0xD800 ∨ 0xDFFF < c.toNat ∧ c.toNat < 0x110000 := c.valid
  simp only [isHighSurrogate, isLowSurrogate, decide_eq_false_iff_not]
  omega

theorem joinSurrogates_toNat (cs : List Char) :
    joinSurrogates (cs.map Char.toNat) = some cs := by
  induction cs with
  | nil => rfl
  | cons c rest ih =>
      obtain ⟨hhigh, hlow⟩ := not_surrogate c
      cases rest with
      | nil => simp [joinSurrogates, hhigh, hlow]
      | cons next rest =>
          rw [List.map_cons] at ih
          simp [joinSurrogates, hhigh, hlow, ih]

theorem readText_printText (s : String) (rest : List Char) :
    readText (s.toList.flatMap escapeChar ++ '"' :: rest) = some (some s, rest) := by
  rw [readText, readCodes_flatMap_escapeChar]
  simp [bind, Option.bind, joinSurrogates_toNat]

theorem readText_printLiteralText (text : LiteralText) (rest : List Char) :
    ∃ body, printLiteralText text ++ rest = '"' :: body ∧ readText body = some (text, rest) := by
  cases text with
  | some s => exact ⟨_, by simp [printLiteralText, printText], readText_printText s rest⟩
  | none => exact ⟨_, rfl, rfl⟩

end Json

end SparseProgram
