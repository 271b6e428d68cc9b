import Stencil.Proofs.Code.Lines
import Stencil.Proofs.Meaning.Literal

/-!
# Escaped text

The text between the quotes of a literal must neither end it nor mean anything else than what was
escaped. This file defines:

* `EndsInEscape` : the next character after a text is escaped;
* `Guarded`      : no quote in a text comes without an escape;
* `Sealed`       : nor does a text escape what comes after it;
* `decode`       : the bytes that escaped text stands for.

An escape takes up the character behind its backslash and ends there (`sealed_escapeChar`), so that
a scanner stays inside a literal up to its last character (`run_guarded`). The main result is
`escape_lossless`.
-/

namespace Stencil
namespace Code

open Meaning (Bytes hexValue? letterByte? readLiteral readQuoted)
open Source (Scan ScanMode)

/-! ## Escaped quotes -/

/-- The next character is escaped: an odd number of backslashes come right before it. -/
def EndsInEscape (before : List Char) : Prop :=
  (before.reverse.takeWhile (· == '\\')).length % 2 = 1

instance (before : List Char) : Decidable (EndsInEscape before) :=
  inferInstanceAs (Decidable (_ = _))

/-- Whether a character escapes the next one, given whether it is escaped itself. -/
def escapes (escaped : Bool) (c : Char) : Bool := !escaped && c == '\\'

/-- Text in which every quote is escaped, given whether its first character is. -/
def Guarded : Bool → List Char → Prop
  | _, [] => True
  | escaped, c :: rest => (c = '"' ∨ c = '\'' → escaped = true) ∧ Guarded (escapes escaped c) rest

/-- Counting the backslashes from the end comes to the same as pairing them from the start. -/
theorem endsInEscape_iff (before : List Char) :
    EndsInEscape before ↔ before.foldl escapes false = true := by
  induction before using List.reverseRecOn with
  | nil => decide
  | append_singleton before c ih =>
    rw [List.foldl_append, List.foldl_cons, List.foldl_nil]
    unfold EndsInEscape at ih ⊢
    rw [List.reverse_append, List.reverse_singleton, List.singleton_append, List.takeWhile_cons]
    by_cases hc : c = '\\'
    · -- one backslash more makes an odd number even
      have hnot : escapes (before.foldl escapes false) c = !before.foldl escapes false := by
        simp [escapes, hc]
      rw [hnot, Bool.not_eq_true', ← Bool.not_eq_true, ← ih, if_pos (by simpa using hc),
        List.length_cons]
      omega
    · simp [escapes, hc]

theorem guarded_append {escaped : Bool} {cs ds : List Char} :
    Guarded escaped (cs ++ ds) ↔ Guarded escaped cs ∧ Guarded (cs.foldl escapes escaped) ds := by
  induction cs generalizing escaped with
  | nil => simp [Guarded]
  | cons c cs ih =>
    rw [List.cons_append, Guarded, Guarded, ih, and_assoc]
    rfl

/-- A text after which the next character is not escaped, and in which every quote is. -/
def Sealed (cs : List Char) : Prop :=
  Guarded false cs ∧ cs.foldl escapes false = false

theorem Sealed.append {cs ds : List Char} (h : Sealed cs) (h' : Sealed ds) : Sealed (cs ++ ds) := by
  refine ⟨guarded_append.2 ⟨h.1, ?_⟩, ?_⟩
  · rw [h.2]
    exact h'.1
  · rw [List.foldl_append, h.2]
    exact h'.2

theorem Sealed.flatMap {α : Type} {xs : List α} {f : α → List Char} (h : ∀ x, Sealed (f x)) :
    Sealed (xs.flatMap f) := by
  induction xs with
  | nil => exact ⟨trivial, rfl⟩
  | cons x xs ih => exact (h x).append ih

/-- An escape ends with the character behind its backslash. -/
theorem sealed_escape (c : Char) : Sealed ['\\', c] := by
  refine ⟨⟨by decide, fun _ => rfl, trivial⟩, ?_⟩
  simp [escapes]

/-- A character that is no quote and no backslash needs no escape. -/
theorem sealed_plain {c : Char} (hescape : c ≠ '\\') (hdouble : c ≠ '"') (hsingle : c ≠ '\'') :
    Sealed [c] := by
  refine ⟨⟨?_, trivial⟩, by simp [escapes, hescape]⟩
  rintro (rfl | rfl)
  · exact absurd rfl hdouble
  · exact absurd rfl hsingle

theorem sealed_hexDigit {n : Nat} (h : n < 16) : Sealed [hexDigit n] := by
  have hall : ∀ k : Fin 16, hexDigit k ≠ '\'' := by decide
  obtain ⟨hescape, hdouble, _⟩ := hexDigit_ne h
  exact sealed_plain hescape hdouble (hall ⟨n, h⟩)

theorem sealed_escapeByte (b : UInt8) : Sealed (escapeByte b) := by
  have hb : b.toNat < 256 := b.toNat_lt
  exact (sealed_escape 'x').append ((sealed_hexDigit (by omega : b.toNat / 16 < 16)).append
    (sealed_hexDigit (by omega : b.toNat % 16 < 16)))

theorem sealed_escapeChar (c : Char) : Sealed (escapeChar c) := by
  unfold escapeChar
  split
  · exact sealed_escape _
  · next hletter =>
    obtain ⟨hescape, hdouble⟩ := ne_of_escapeLetter?_none hletter
    split
    · refine sealed_plain hescape hdouble ?_
      rintro rfl
      cases hletter
    · exact .flatMap sealed_escapeByte

/-! ## Scanning a literal -/

/-- Where a scanner stands inside a literal. -/
def literalMode (escaped : Bool) : ScanMode :=
  if escaped then .escaped '"' else .quoted '"'

/-- In a text whose quotes are escaped, a scanner stays inside the literal. -/
theorem run_guarded {s : Scan} {escaped : Bool} {cs : List Char} (h : Guarded escaped cs)
    (hs : s.mode = literalMode escaped) :
    s.run cs = { s with mode := literalMode (cs.foldl escapes escaped) } := by
  induction cs generalizing s escaped with
  | nil =>
    rw [List.foldl_nil, ← hs]
    rfl
  | cons c cs ih =>
    obtain ⟨hquote, hrest⟩ := h
    have hstep : s.step c = { s with mode := literalMode (escapes escaped c) } := by
      cases escaped with
      | true => simp [Scan.step, hs, literalMode, escapes]
      | false =>
        have hne : c ≠ '"' := by
          intro hc
          cases hquote (.inl hc)
        by_cases hc : c = '\\'
        · simp [Scan.step, hs, literalMode, escapes, hc]
        · have hplain : escapes false c = false := by simp [escapes, hc]
          rw [step_quoted hs hc hne, hplain, ← hs]
    rw [Scan.run_cons, hstep, ih hrest rfl]
    rfl

/-- A scanner that enters a literal leaves it at its last character and not before. -/
theorem run_literal (text : String) {s : Scan} (hs : s.mode = .code ∨ s.mode = .slash) :
    (∀ k, 0 < k → k < (literal text).length →
      (s.run ((literal text).toList.take k)).mode = .quoted '"' ∨
        (s.run ((literal text).toList.take k)).mode = .escaped '"') ∧
      s.run (literal text).toList = { s with mode := .code, leading := false } := by
  have hsealed : Sealed (text.toList.flatMap escapeChar) := .flatMap sealed_escapeChar
  have hchars : (literal text).toList = '"' :: (text.toList.flatMap escapeChar ++ ['"']) := by
    simp [literal, escape]
  have hopen : s.step '"' = { s with mode := literalMode false, leading := false } := by
    obtain hs | hs := hs
    · rw [Scan.step, hs]
      rfl
    · rw [Scan.step, hs]
      rfl
  refine ⟨?_, ?_⟩
  · intro k hpos hk
    obtain ⟨k, rfl⟩ := Nat.exists_eq_succ_of_ne_zero (Nat.ne_of_gt hpos)
    have hle : k ≤ (text.toList.flatMap escapeChar).length := by
      rw [← String.length_toList, hchars] at hk
      simp only [List.length_cons, List.length_append, List.length_nil] at hk
      omega
    have hprefix := hsealed.1
    rw [← List.take_append_drop k (text.toList.flatMap escapeChar), guarded_append] at hprefix
    rw [hchars, List.take_succ_cons, Scan.run_cons, hopen, List.take_append_of_le_length hle,
      run_guarded hprefix.1 rfl]
    unfold literalMode
    split
    · exact .inr rfl
    · exact .inl rfl
  · rw [hchars, Scan.run_cons, hopen, Scan.run_append, run_guarded hsealed.1 rfl, hsealed.2]
    rfl

/-! ## Decoding -/

/-- The bytes that escaped text stands for. -/
def decode : List Char → Option Bytes
  | [] => some []
  | '\\' :: 'x' :: high :: low :: rest => do
    let byte := 16 * (← hexValue? high) + (← hexValue? low)
    return byte.toUInt8 :: (← decode rest)
  | '\\' :: letter :: rest => do
    return (← letterByte? letter) :: (← decode rest)
  | ['\\'] => none
  | c :: rest => do
    return String.utf8EncodeChar c ++ (← decode rest)

/-- What is read from a literal is what the text between its quotes stands for. -/
theorem decode_of_readQuoted {cs : List Char} {bytes : Bytes}
    (h : readQuoted (cs ++ ['"']) = some bytes) : decode cs = some bytes := by
  fun_induction decode cs generalizing bytes with
  | case1 =>
    cases h
    rfl
  | case2 high low rest ih =>
    simp only [List.cons_append, readQuoted, Option.bind_eq_bind, Option.bind_eq_some_iff] at h ⊢
    obtain ⟨a, ha, b, hb, tail, htail, hbytes⟩ := h
    exact ⟨a, ha, b, hb, tail, ih htail, hbytes⟩
  | case3 letter rest hne ih =>
    rw [List.cons_append, List.cons_append] at h
    by_cases hx : letter = 'x'
    · -- two more characters would make this a byte
      subst hx
      rcases rest with _ | ⟨high, _ | ⟨low, rest⟩⟩
      · cases h
      · simp only [List.cons_append, List.nil_append, readQuoted, Option.bind_eq_bind,
          Option.bind_eq_some_iff] at h
        obtain ⟨_, _, _, hquote, _⟩ := h
        cases hquote
      · exact absurd rfl (hne high low rest rfl)
    · rw [readQuoted] at h
      · simp only [Option.bind_eq_bind, Option.bind_eq_some_iff] at h ⊢
        obtain ⟨a, ha, tail, htail, hbytes⟩ := h
        exact ⟨a, ha, tail, ih htail, hbytes⟩
      · exact fun _ _ _ heq _ => hx heq
  | case4 => cases h
  | case5 c rest _ hescape hlast ih =>
    have hne : c ≠ '\\' := by
      intro hc
      cases rest with
      | nil => exact hlast hc rfl
      | cons d rest => exact hescape d rest hc rfl
    rw [List.cons_append, readQuoted] at h
    · split at h
      · next hprint =>
        simp only [Option.bind_eq_bind, Option.bind_eq_some_iff] at h ⊢
        obtain ⟨tail, htail, hbytes⟩ := h
        refine ⟨tail, ih htail, ?_⟩
        rw [Meaning.utf8EncodeChar_ascii (by omega)]
        exact hbytes
      · cases h
    · intro _ hnil
      cases rest <;> cases hnil
    · exact fun _ _ _ hc _ => hne hc
    · exact fun _ _ hc _ => hne hc

/-- What is read from the literal of a text. -/
theorem readQuoted_escape (text : String) :
    readQuoted ((escape text).toList ++ ['"']) = some (Meaning.utf8 text) := by
  have hliteral := Meaning.readLiteral_literal text
  have hchars : (literal text).toList = '"' :: ((escape text).toList ++ ['"']) := by
    simp [literal]
  rw [readLiteral, hchars] at hliteral
  exact hliteral

/-- The bytes of a text are those that it is kept as. -/
theorem utf8_eq (text : String) : Meaning.utf8 text = text.toUTF8.data.toList := by
  rw [Meaning.utf8]
  conv_rhs => rw [← String.ofList_toList (s := text)]
  rw [String.toUTF8_eq_toByteArray, String.toByteArray_ofList, List.utf8Encode,
    List.data_toByteArray]

/-! ## Printable characters -/

/-- A printable ASCII character. -/
def IsPrintable (c : Char) : Prop := 32 ≤ c.toNat ∧ c.toNat < 127

instance (c : Char) : Decidable (IsPrintable c) :=
  inferInstanceAs (Decidable (_ ∧ _))

theorem printable_of_hexValue? {c : Char} {n : Nat} (h : hexValue? c = some n) :
    IsPrintable c := by
  -- in each range of digits, the first one and the last one are printable
  have hrange : ∀ first last : Char, IsPrintable first → IsPrintable last → first ≤ c ∧ c ≤ last →
      IsPrintable c :=
    fun _ _ hfirst hlast hc => ⟨Nat.le_trans hfirst.1 hc.1, Nat.lt_of_le_of_lt hc.2 hlast.2⟩
  unfold hexValue? at h
  split at h
  · next hc => exact hrange _ _ (by decide) (by decide) hc
  · split at h
    · next hc => exact hrange _ _ (by decide) (by decide) hc
    · split at h
      · next hc => exact hrange _ _ (by decide) (by decide) hc
      · cases h

theorem printable_of_letterByte? {c : Char} {byte : UInt8} (h : letterByte? c = some byte) :
    IsPrintable c := by
  have hmem : c ∈ ['\\', '\'', '"', 'n', 'f', 'r', 't', 'v'] := by
    unfold letterByte? at h
    grind
  have hall : (['\\', '\'', '"', 'n', 'f', 'r', 't', 'v'].all fun d =>
      decide (IsPrintable d)) = true := by
    decide
  exact of_decide_eq_true (List.all_eq_true.1 hall c hmem)

/-- A literal that can be read holds printable characters only. -/
theorem printable_of_readQuoted {cs : List Char} {bytes : Bytes} (h : readQuoted cs = some bytes) :
    ∀ c ∈ cs, IsPrintable c := by
  fun_induction readQuoted cs generalizing bytes with
  | case1 => exact List.forall_mem_singleton.2 (by decide)
  | case2 high low rest ih =>
    simp only [Option.bind_eq_bind, Option.bind_eq_some_iff] at h
    obtain ⟨_, hhigh, _, hlow, _, hrest, _⟩ := h
    refine List.forall_mem_cons.2 ⟨by decide, List.forall_mem_cons.2 ⟨by decide, ?_⟩⟩
    exact List.forall_mem_cons.2 ⟨printable_of_hexValue? hhigh,
      List.forall_mem_cons.2 ⟨printable_of_hexValue? hlow, ih hrest⟩⟩
  | case3 letter rest _ ih =>
    simp only [Option.bind_eq_bind, Option.bind_eq_some_iff] at h
    obtain ⟨_, hletter, _, hrest, _⟩ := h
    refine List.forall_mem_cons.2 ⟨by decide, ?_⟩
    exact List.forall_mem_cons.2 ⟨printable_of_letterByte? hletter, ih hrest⟩
  | case4 c rest _ _ _ hprint ih =>
    simp only [Option.bind_eq_bind, Option.bind_eq_some_iff] at h
    obtain ⟨_, hrest, _⟩ := h
    exact List.forall_mem_cons.2 ⟨⟨hprint.1, hprint.2.1⟩, ih hrest⟩
  | case5 => cases h
  | case6 => cases h

/-- Escaped text is printable, no quote in it can end a literal, and it stands for the bytes of the
text, so that different texts are escaped differently. A scanner that enters the literal of a text
leaves it at its last character. -/
theorem escape_lossless (text : String) :
    (∀ c ∈ (escape text).toList, IsPrintable c) ∧
      (∀ before quote after, (escape text).toList = before ++ quote :: after →
        quote = '"' ∨ quote = '\'' → EndsInEscape before) ∧
      decode (escape text).toList = some text.toUTF8.data.toList ∧
      (∀ other, escape text = escape other → text = other) ∧
      ∀ s : Scan, s.mode = .code ∨ s.mode = .slash →
        (∀ k, 0 < k → k < (literal text).length →
          (s.run ((literal text).toList.take k)).mode = .quoted '"' ∨
            (s.run ((literal text).toList.take k)).mode = .escaped '"') ∧
          s.run (literal text).toList = { s with mode := .code, leading := false } := by
  have hdecode : ∀ text, decode (escape text).toList = some text.toUTF8.data.toList := by
    intro text
    rw [decode_of_readQuoted (readQuoted_escape text), utf8_eq]
  refine ⟨?_, ?_, hdecode text, ?_, fun s hs => run_literal text hs⟩
  · have hread := readQuoted_escape text
    exact fun c hc => printable_of_readQuoted hread c (List.mem_append_left _ hc)
  · intro before quote after happend hquote
    have hsealed : Sealed (escape text).toList := by
      rw [escape, String.toList_ofList]
      exact .flatMap sealed_escapeChar
    have hguarded := hsealed.1
    rw [happend, guarded_append] at hguarded
    exact (endsInEscape_iff before).2 (hguarded.2.1 hquote)
  · intro other heq
    have hbytes := hdecode text
    rw [heq, hdecode other, Option.some.injEq] at hbytes
    exact (String.toByteArray_inj.1 (ByteArray.ext (Array.toList_inj.1 hbytes))).symm

end Code
end Stencil
