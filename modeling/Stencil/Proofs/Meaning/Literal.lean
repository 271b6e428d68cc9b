import Stencil.Code.Literal
import Stencil.Proofs.Meaning.Value

/-!
# Reading literals back

A literal stands for bytes. This file defines:

* `utf8`        : the bytes of a text;
* `readLiteral` : the bytes that a literal stands for, by the rules of the target language.

The literal of a text reads back as the bytes of that text (`readLiteral_literal`).
-/

namespace Stencil
namespace Meaning

open Code (escapeByte escapeChar escapeLetter? hexDigit literal)

def utf8 (text : String) : Bytes :=
  text.toList.flatMap String.utf8EncodeChar

/-! ## The rules of literals -/

def hexValue? (c : Char) : Option Nat :=
  if '0' ≤ c ∧ c ≤ '9' then some (c.toNat - '0'.toNat)
  else if 'a' ≤ c ∧ c ≤ 'f' then some (c.toNat - 'a'.toNat + 10)
  else if 'A' ≤ c ∧ c ≤ 'F' then some (c.toNat - 'A'.toNat + 10)
  else none

/-- The byte that a letter stands for after a backslash. -/
def letterByte? (c : Char) : Option UInt8 :=
  if c = '\\' ∨ c = '\'' ∨ c = '"' then some c.toNat.toUInt8
  else if c = 'n' then some 10
  else if c = 'f' then some 12
  else if c = 'r' then some 13
  else if c = 't' then some 9
  else if c = 'v' then some 11
  else none

/-- The bytes up to the closing quote, with nothing behind it. -/
def readQuoted : List Char → Option Bytes
  | ['"'] => some []
  | '\\' :: 'x' :: high :: low :: rest => do
    let byte := 16 * (← hexValue? high) + (← hexValue? low)
    return byte.toUInt8 :: (← readQuoted rest)
  | '\\' :: letter :: rest => do
    return (← letterByte? letter) :: (← readQuoted rest)
  | c :: rest =>
    -- anything else stands for itself, if it is printable and ends neither text nor literal
    if 32 ≤ c.toNat ∧ c.toNat < 127 ∧ c ≠ '"' ∧ c ≠ '\\' then do
      return c.toNat.toUInt8 :: (← readQuoted rest)
    else none
  | [] => none

/-- The bytes that a literal stands for. -/
def readLiteral (source : String) : Option Bytes :=
  match source.toList with
  | '"' :: rest => readQuoted rest
  | _ => none

/-! ## Reading back -/

theorem hexValue?_hexDigit {n : Nat} (h : n < 16) : hexValue? (hexDigit n) = some n := by
  have hall : ∀ k : Fin 16, hexValue? (hexDigit k) = some k.val := by decide
  exact hall ⟨n, h⟩

theorem readQuoted_escapeByte (b : UInt8) (rest : List Char) :
    readQuoted (escapeByte b ++ rest) = (readQuoted rest).map (b :: ·) := by
  have hb : b.toNat < 256 := b.toNat_lt
  have hhigh : hexValue? (hexDigit (b.toNat / 16)) = some (b.toNat / 16) :=
    hexValue?_hexDigit (by omega)
  have hlow : hexValue? (hexDigit (b.toNat % 16)) = some (b.toNat % 16) :=
    hexValue?_hexDigit (by omega)
  have hbyte : 16 * (b.toNat / 16) + b.toNat % 16 = b.toNat := by omega
  simp only [escapeByte, List.cons_append, List.nil_append, readQuoted, hhigh, hlow]
  cases readQuoted rest with
  | none => rfl
  | some bytes =>
    change some ((16 * (b.toNat / 16) + b.toNat % 16).toUInt8 :: bytes) = some (b :: bytes)
    rw [hbyte]
    simp

theorem readQuoted_escapeBytes (bytes : Bytes) (rest : List Char) :
    readQuoted (bytes.flatMap escapeByte ++ rest) = (readQuoted rest).map (bytes ++ ·) := by
  induction bytes with
  | nil => simp
  | cons b bytes ih =>
    rw [List.flatMap_cons, List.append_assoc, readQuoted_escapeByte, ih]
    cases readQuoted rest <;> rfl

theorem utf8EncodeChar_ascii {c : Char} (h : c.toNat < 128) :
    String.utf8EncodeChar c = [c.toNat.toUInt8] := by
  have hle : c.val.toNat ≤ 0x7f := Nat.le_of_lt_succ h
  simp only [String.utf8EncodeChar, hle, if_true]
  rfl

/-- The letters after a backslash are read as what they are written for. -/
theorem letterByte?_escapeLetter {c letter : Char} (h : escapeLetter? c = some letter) :
    letter ≠ 'x' ∧ letterByte? letter = some c.toNat.toUInt8 ∧ c.toNat < 128 := by
  have hpair : (c, letter) ∈ [('\\', '\\'), ('\'', '\''), ('"', '"'), ('\n', 'n'), ('\x0c', 'f'),
      ('\r', 'r'), ('\t', 't'), ('\x0b', 'v')] := by
    unfold escapeLetter? at h
    grind
  have hall : ∀ p ∈ [('\\', '\\'), ('\'', '\''), ('"', '"'), ('\n', 'n'), ('\x0c', 'f'),
      ('\r', 'r'), ('\t', 't'), ('\x0b', 'v')],
      p.2 ≠ 'x' ∧ letterByte? p.2 = some p.1.toNat.toUInt8 ∧ p.1.toNat < 128 := by
    decide
  exact hall (c, letter) hpair

/-- One character of a text, with anything behind it. -/
theorem readQuoted_escapeChar (c : Char) (rest : List Char) :
    readQuoted (escapeChar c ++ rest) = (readQuoted rest).map (String.utf8EncodeChar c ++ ·) := by
  unfold escapeChar
  cases hletter : escapeLetter? c with
  | some letter =>
    rcases letterByte?_escapeLetter hletter with ⟨hne, hbyte, hascii⟩
    rw [utf8EncodeChar_ascii hascii]
    simp only [List.cons_append, List.nil_append]
    rw [readQuoted, hbyte]
    · cases readQuoted rest <;> rfl
    · intro high low tail hx _
      exact hne hx
  | none =>
    -- the characters that end a text or start an escape have letters
    have hplain : c ≠ '"' ∧ c ≠ '\\' := by
      refine ⟨?_, ?_⟩
      · rintro rfl
        cases hletter
      · rintro rfl
        cases hletter
    by_cases hprint : 32 ≤ c.toNat ∧ c.toNat < 127
    · have hascii : c.toNat < 128 := by omega
      simp only [hprint, decide_true, Bool.and_true, if_true, utf8EncodeChar_ascii hascii]
      simp only [List.cons_append, List.nil_append]
      rw [readQuoted]
      · simp only [hprint, hplain, and_self, ne_eq, not_false_iff, if_true]
        cases readQuoted rest <;> rfl
      · rintro ⟨⟩
        exact absurd rfl hplain.1
      · rintro high low tail ⟨⟩
        exact absurd rfl hplain.2
      · rintro letter tail ⟨⟩
        exact absurd rfl hplain.2
    · have hbool : (decide (32 ≤ c.toNat) && decide (c.toNat < 127)) = false := by
        simpa using hprint
      simp only [hbool, Bool.false_eq_true, if_false]
      exact readQuoted_escapeBytes _ rest

/-- The literal of a text stands for the bytes of the text. -/
theorem readLiteral_literal (text : String) : readLiteral (literal text) = some (utf8 text) := by
  have hread : ∀ cs : List Char,
      readQuoted (cs.flatMap escapeChar ++ ['"']) = some (cs.flatMap String.utf8EncodeChar) := by
    intro cs
    induction cs with
    | nil => rfl
    | cons c cs ih =>
      rw [List.flatMap_cons, List.append_assoc, readQuoted_escapeChar, ih]
      rfl
  have hchars : (literal text).toList = '"' :: (text.toList.flatMap escapeChar ++ ['"']) := by
    simp [literal, Code.escape]
  rw [readLiteral, hchars]
  exact hread text.toList

end Meaning
end Stencil
