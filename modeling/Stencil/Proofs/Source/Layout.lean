import Mathlib.Data.List.Chain
import Mathlib.Data.List.DropRight
import Stencil.Proofs.Source.Braces

/-!
# Laying out what is laid out

What layout does to a text depends on the code in its lines: on their braces, and on where blank
lines stand between them. The style only says how far a line is moved. This file defines:

* `Row`, `arrange`         : the lines of code with their depths, and how they are found;
* `textLines`, `codeLines` : the lines of a text, and those with code, without the blanks around it;
* `WellSpaced`             : lines of which no blank one is the first, the last or next to another.

Laying out is arranging, and then writing the rows in a style (`layoutLines_eq`). Rows that have
been written are arranged as they were (`arrange_written`), so laid-out text is laid out in any
style as the text that it was made from (`indent_absorbs`).
-/

namespace Stencil
namespace Source

open Text (dropEndWhile isBlank trim trimEnd trimStart)

/-! ## Blanks around a text -/

theorem trimEnd_eq (cs : List Char) : trimEnd cs = cs.rdropWhile isBlank := rfl

theorem trim_trim (cs : List Char) : trim (trim cs) = trim cs := by
  -- what is cut off at the end leaves the first character where it is
  have hstart : trimStart (trim cs) = trim cs := by
    refine List.dropWhile_eq_self_iff.2 ?_
    intro hlt hblank
    have hinitial : trim cs <+: trimStart cs := List.rdropWhile_prefix isBlank _
    have hlt' : 0 < (trimStart cs).length := Nat.lt_of_lt_of_le hlt hinitial.length_le
    rw [hinitial.getElem hlt] at hblank
    exact List.dropWhile_eq_self_iff.1 (List.dropWhile_idempotent isBlank cs) hlt' hblank
  rw [trim, hstart, trim, trimEnd_eq, trimEnd_eq]
  exact List.rdropWhile_idempotent isBlank _

theorem trim_append_of_blank {indentation : List Char}
    (h : ∀ c ∈ indentation, isBlank c = true) (cs : List Char) :
    trim (indentation ++ cs) = trim cs := by
  rw [trim, trim, trimStart, List.dropWhile_append_of_pos h]
  rfl

theorem mem_of_mem_trim {c : Char} {cs : List Char} (h : c ∈ trim cs) : c ∈ cs :=
  (List.dropWhile_suffix _).subset ((List.rdropWhile_prefix isBlank _).subset h)

/-- A line without code. -/
def Blank (line : List Char) : Prop := ∀ c ∈ line, isBlank c = true

theorem Blank.trim_eq_nil {line : List Char} (h : Blank line) : trim line = [] := by
  rw [trim, trimStart, List.dropWhile_eq_nil_iff.2 h]
  rfl

/-! ## Rows -/

/-- A line of code in its place. -/
structure Row where
  /-- Whether a blank line stands before it. -/
  spaced : Bool
  level : Nat
  code : List Char

namespace Row

/-- The line itself, as far in as its level says. -/
def shown (unit : List Char) (row : Row) : List Char :=
  (List.replicate row.level unit).flatten ++ row.code

def lines (unit : List Char) (row : Row) : List (List Char) :=
  if row.spaced then [[], row.shown unit] else [row.shown unit]

end Row

namespace Layout

/-- The place of a line of code. -/
def row (state : Layout) (line : List Char) : Row :=
  let k := (scanLine state.inComment line).1
  { spaced := state.pendingBlank && !state.afterOpen && k.leadingCloses == 0
    level := state.depth - k.leadingCloses
    code := line }

/-- What the lines after a line of code depend on. -/
def after (state : Layout) (line : List Char) : Layout :=
  let (k, inComment) := scanLine state.inComment line
  { depth := state.depth + k.opens - k.closes
    inComment
    pendingBlank := false
    afterOpen := line.getLast? == some '\x7b' }

/-- Whether a line closes more braces than are open. -/
def overdrawn (state : Layout) (line : List Char) : Bool :=
  let k := (scanLine state.inComment line).1
  k.closes > state.depth + k.opens

end Layout

/-- Finds the places of trimmed lines, of which the first has the given number. -/
def arrange (number : Nat) (state : Layout) : List (List Char) → Except Error (List Row)
  | [] => if state.depth > 0 then .error (.format (.unclosed state.depth)) else .ok []
  | line :: rest =>
    if line.isEmpty then arrange (number + 1) { state with pendingBlank := true } rest
    else if state.overdrawn line then .error (.format (.unmatchedClose number))
    else do
      let later ← arrange (number + 1) (state.after line) rest
      return state.row line :: later

section

variable {unit : List Char} {number : Nat} {state : Layout} {lines : List (List Char)}
  {rows : List Row}

/-- What one line gives: nothing, an error, or its row. -/
theorem layoutLine_eq (unit : List Char) (number : Nat) (state : Layout) (line : List Char) :
    layoutLine unit number state line =
      if line.isEmpty then .ok ({ state with pendingBlank := true }, [])
      else if state.overdrawn line then .error (.format (.unmatchedClose number))
      else .ok (state.after line, (state.row line).lines unit) := by
  simp only [layoutLine, Layout.overdrawn, decide_eq_true_eq]
  rfl

/-- Laying out lines is arranging them, and then writing the rows. -/
theorem layoutLines_eq (unit : List Char) (number : Nat) (state : Layout)
    (lines : List (List Char)) :
    layoutLines unit number state lines =
      (arrange number state lines).map (·.flatMap (Row.lines unit)) := by
  induction lines generalizing number state with
  | nil =>
    rw [layoutLines, arrange]
    split <;> rfl
  | cons line rest ih =>
    rw [layoutLines, arrange, layoutLine_eq]
    split
    · change (layoutLines unit (number + 1) _ rest >>= fun later => pure ([] ++ later)) = _
      rw [ih]
      cases arrange (number + 1) { state with pendingBlank := true } rest <;> rfl
    · split
      · rfl
      · change (layoutLines unit (number + 1) (state.after line) rest >>=
          fun later => pure ((state.row line).lines unit ++ later)) = _
        rw [ih]
        cases arrange (number + 1) (state.after line) rest <;> rfl

/-- The rows have the lines of code, in order. -/
theorem code_of_arrange (h : arrange number state lines = .ok rows) :
    rows.map (·.code) = lines.filter (!·.isEmpty) := by
  induction lines generalizing number state rows with
  | nil =>
    rw [arrange] at h
    split at h
    · cases h
    · cases h
      rfl
  | cons line rest ih =>
    rw [arrange] at h
    split at h
    · next hempty =>
      rw [List.filter_cons_of_neg (by simpa using hempty)]
      exact ih h
    · next hempty =>
      rw [List.filter_cons_of_pos (by simpa using hempty)]
      split at h
      · cases h
      · obtain ⟨later, hlater, h⟩ := Results.bind_eq_ok.1 h
        cases h
        rw [List.map_cons, ih hlater]
        rfl

/-- After an opening brace, no blank line is kept before the first row. -/
theorem head_of_arrange (h : arrange number state lines = .ok rows)
    (hopen : state.afterOpen = true) : ∀ row ∈ rows.head?, row.spaced = false := by
  induction lines generalizing number state with
  | nil =>
    rw [arrange] at h
    split at h
    · cases h
    · cases h
      rintro row ⟨⟩
  | cons line rest ih =>
    rw [arrange] at h
    split at h
    · exact ih h hopen
    · split at h
      · cases h
      · obtain ⟨later, _, h⟩ := Results.bind_eq_ok.1 h
        cases h
        rintro row ⟨⟩
        simp [Layout.row, hopen]

/-! ## Rows that have been written -/

theorem Row.trim_shown (hunit : Blank unit) {row : Row} (hcode : trim row.code = row.code) :
    trim (row.shown unit) = row.code := by
  rw [Row.shown, trim_append_of_blank, hcode]
  intro c hc
  obtain ⟨part, hpart, hc⟩ := List.mem_flatten.1 hc
  rw [List.eq_of_mem_replicate hpart] at hc
  exact hunit c hc

/-- The lines of a row, without the blanks around them. -/
theorem Row.map_trim_lines (hunit : Blank unit) {row : Row} (hcode : trim row.code = row.code) :
    (row.lines unit).map trim = if row.spaced then [[], row.code] else [row.code] := by
  unfold Row.lines
  split
  · rw [List.map_cons, List.map_singleton, row.trim_shown hunit hcode]
    rfl
  · rw [List.map_singleton, row.trim_shown hunit hcode]

/-- The place of a line is the same if blank lines stand before it exactly where its row says. -/
theorem Layout.row_of_written (state : Layout) (line : List Char) :
    { state with pendingBlank := (state.row line).spaced }.row line = state.row line := by
  unfold Layout.row
  grind

/-- A row that has been written is arranged as it was. -/
theorem arrange_row {line : List Char} (hline : line ≠ []) (state : Layout) (number : Nat)
    (rest : List (List Char)) (hover : state.overdrawn line = false)
    (hrest : ∀ number, arrange number (state.after line) rest = .ok rows) :
    arrange number { state with pendingBlank := false }
        ((if (state.row line).spaced then [[], line] else [line]) ++ rest) =
      .ok (state.row line :: rows) := by
  -- both forms come down to the line itself, with a blank line pending where its row says
  have hline : ∀ number, arrange number { state with pendingBlank := (state.row line).spaced }
      (line :: rest) = .ok (state.row line :: rows) := by
    intro number
    rw [arrange, if_neg (by simpa using hline), if_neg (by simpa [Layout.overdrawn] using hover)]
    refine Results.bind_eq_ok.2 ⟨rows, hrest _, ?_⟩
    rw [Layout.row_of_written]
    rfl
  cases hspaced : (state.row line).spaced with
  | true =>
    rw [hspaced] at hline
    exact hline (number + 1)
  | false =>
    rw [hspaced] at hline
    exact hline number

/-- Rows that have been written are arranged as they were, also from a place where no blank line
has been passed over. -/
theorem arrange_written (hunit : Blank unit) (htrim : ∀ line ∈ lines, trim line = line)
    (h : arrange number state lines = .ok rows) (number' : Nat) :
    arrange number' { state with pendingBlank := false }
      ((rows.flatMap (Row.lines unit)).map trim ++ [[]]) = .ok rows := by
  -- on the lines of the source: a blank one leaves no trace, one with code is followed by its row
  induction lines generalizing number number' state rows with
  | nil =>
    rw [arrange] at h
    split at h
    · cases h
    · next hdepth =>
      cases h
      change (if state.depth > 0 then _ else _) = _
      rw [if_neg hdepth]
  | cons line rest ih =>
    have htrim' : ∀ other ∈ rest, trim other = other :=
      fun other hother => htrim other (List.mem_cons_of_mem _ hother)
    rw [arrange] at h
    split at h
    · exact ih htrim' h number'
    · next hline =>
      split at h
      · cases h
      · next hover =>
        obtain ⟨later, hlater, h⟩ := Results.bind_eq_ok.1 h
        cases h
        rw [List.flatMap_cons, List.map_append, List.append_assoc,
          Row.map_trim_lines hunit (htrim line List.mem_cons_self)]
        exact arrange_row (by simpa using hline) state number' _ (by simpa using hover)
          fun number => ih htrim' hlater number

end

/-! ## Spacing -/

/-- No blank line is the first line or the last one, and no two stand next to each other. -/
structure WellSpaced (lines : List (List Char)) : Prop where
  first : ∀ line ∈ lines.head?, ¬ Blank line
  last : ∀ line ∈ lines.getLast?, ¬ Blank line
  apart : lines.IsChain fun line next => ¬ (Blank line ∧ Blank next)

/-- Rows are well spaced if no blank line stands before the first one. -/
theorem wellSpaced_rows {unit : List Char} {rows : List Row}
    (hcode : ∀ row ∈ rows, ¬ Blank (row.shown unit))
    (hfirst : ∀ row ∈ rows.head?, row.spaced = false) :
    WellSpaced (rows.flatMap (Row.lines unit)) := by
  have hlast : ∀ row : Row, (row.lines unit).getLast? = some (row.shown unit) := by
    intro row
    unfold Row.lines
    split <;> rfl
  refine ⟨?_, ?_, ?_⟩
  · cases rows with
    | nil =>
      rintro line ⟨⟩
    | cons row rows =>
      have hlines : row.lines unit = [row.shown unit] := by
        rw [Row.lines, hfirst row rfl]
        rfl
      rw [List.flatMap_cons, hlines]
      rintro line ⟨⟩
      exact hcode row List.mem_cons_self
  · obtain rfl | ⟨rows, row, rfl⟩ := List.eq_nil_or_concat rows
    · rintro line ⟨⟩
    · rw [List.concat_eq_append, List.flatMap_append, List.flatMap_singleton, List.getLast?_append,
        hlast]
      rintro line ⟨⟩
      exact hcode row (by simp)
  · -- each row ends in code, whatever the next one begins with
    clear hfirst
    induction rows with
    | nil => exact .nil
    | cons row rows ih =>
      have hrow := hcode row List.mem_cons_self
      rw [List.flatMap_cons, List.isChain_append]
      refine ⟨?_, ih fun other hother => hcode other (List.mem_cons_of_mem _ hother), ?_⟩
      · unfold Row.lines
        split
        · exact List.isChain_pair.2 fun h => hrow h.2
        · exact .singleton _
      · rw [hlast]
        rintro line ⟨⟩ next _ h
        exact hrow h.1

/-! ## Lines of a text -/

/-- The lines of a text. A line feed ends a line, so that after the last one there is no line. -/
def textLines (text : String) : List (List Char) :=
  let lines := splitLines text.toList
  if lines.getLast? = some [] then lines.dropLast else lines

/-- The lines of a text with code, without the blanks around it. -/
def codeLines (text : String) : List (List Char) :=
  ((splitLines text.toList).map trim).filter (!·.isEmpty)

theorem splitLines_joinLines {lines : List (List Char)} (h : ∀ line ∈ lines, '\n' ∉ line) :
    splitLines (joinLines lines) = lines ++ [[]] := by
  induction lines with
  | nil => rfl
  | cons line lines ih =>
    have htext : joinLines (line :: lines) = line ++ '\n' :: joinLines lines := by
      simp [joinLines]
    rw [htext, splitLines_append, splitLines_of_not_mem (h line List.mem_cons_self),
      ih fun other hother => h other (List.mem_cons_of_mem _ hother)]
    rfl

theorem not_mem_of_mem_splitLines {line cs : List Char} (h : line ∈ splitLines cs) :
    '\n' ∉ line := by
  induction cs generalizing line with
  | nil =>
    rw [splitLines, List.mem_singleton] at h
    simp [h]
  | cons c cs ih =>
    rw [splitLines] at h
    split at h
    · obtain rfl | h := List.mem_cons.1 h
      · simp
      · exact ih h
    · next hc =>
      have hc : '\n' ≠ c := by
        rintro rfl
        exact hc rfl
      cases hlines : splitLines cs with
      | nil => exact absurd hlines (splitLines_ne_nil cs)
      | cons first lines =>
        rw [hlines] at h ih
        obtain rfl | h := List.mem_cons.1 h
        · rw [List.mem_cons, not_or]
          exact ⟨hc, ih List.mem_cons_self⟩
        · exact ih (List.mem_cons_of_mem _ h)

theorem textLines_joinLines {lines : List (List Char)} (h : ∀ line ∈ lines, '\n' ∉ line) :
    textLines (String.ofList (joinLines lines)) = lines := by
  have hsplit : splitLines (String.ofList (joinLines lines)).toList = lines ++ [[]] := by
    rw [String.toList_ofList, splitLines_joinLines h]
  rw [textLines, hsplit]
  simp

/-! ## Styles -/

theorem Style.blank_unit (style : Style) : Blank style.unit := by
  intro c hc
  unfold Style.unit at hc
  split at hc
  · rw [List.mem_singleton.1 hc]
    decide
  · rw [List.eq_of_mem_replicate hc]
    decide

theorem Style.not_mem_unit (style : Style) : '\n' ∉ style.unit := by
  unfold Style.unit
  split
  · decide
  · simp

/-- The rows of a text. -/
def rowsOf (source : String) : Except Error (List Row) :=
  arrange 1 {} ((splitLines source.toList).map trim)

/-- The text of rows in a style. -/
def writeRows (style : Style) (rows : List Row) : String :=
  String.ofList (joinLines (rows.flatMap (Row.lines style.unit)))

theorem indent_eq (style : Style) (source : String) :
    indent style source = (rowsOf source).map (writeRows style) := by
  rw [indent, layoutLines_eq, rowsOf]
  cases arrange 1 {} ((splitLines source.toList).map trim) <;> rfl

theorem indent_eq_ok {style : Style} {source text : String} :
    indent style source = .ok text ↔
      ∃ rows, rowsOf source = .ok rows ∧ writeRows style rows = text := by
  rw [indent_eq]
  cases rowsOf source with
  | error e => simp [Except.map]
  | ok rows => simp [Except.map]

section

variable {source : String} {rows : List Row}

theorem map_code_rowsOf (h : rowsOf source = .ok rows) : rows.map (·.code) = codeLines source :=
  code_of_arrange h

/-- The code of a row is trimmed, not empty and on one line. -/
theorem code_of_rowsOf (h : rowsOf source = .ok rows) {row : Row} (hrow : row ∈ rows) :
    trim row.code = row.code ∧ row.code ≠ [] ∧ '\n' ∉ row.code := by
  have hcode : row.code ∈ codeLines source := by
    rw [← map_code_rowsOf h]
    exact List.mem_map_of_mem hrow
  obtain ⟨hmem, hne⟩ := List.mem_filter.1 hcode
  obtain ⟨line, hline, htrim⟩ := List.mem_map.1 hmem
  rw [← htrim] at hne ⊢
  exact ⟨trim_trim line, by simpa using hne,
    fun h => not_mem_of_mem_splitLines hline (mem_of_mem_trim h)⟩

theorem not_blank_of_rowsOf (h : rowsOf source = .ok rows) (style : Style) {row : Row}
    (hrow : row ∈ rows) : ¬ Blank (row.shown style.unit) := by
  obtain ⟨htrim, hne, _⟩ := code_of_rowsOf h hrow
  intro hblank
  exact hne ((row.trim_shown style.blank_unit htrim).symm.trans hblank.trim_eq_nil)

/-- Rows of one line each are written in lines of their own. -/
theorem not_mem_lines_of_rowsOf (h : rowsOf source = .ok rows) (style : Style) :
    ∀ line ∈ rows.flatMap (Row.lines style.unit), '\n' ∉ line := by
  intro line hline
  obtain ⟨row, hrow, hline⟩ := List.mem_flatMap.1 hline
  have hshown : '\n' ∉ row.shown style.unit := by
    rw [Row.shown, List.mem_append, not_or]
    refine ⟨?_, (code_of_rowsOf h hrow).2.2⟩
    intro hmem
    obtain ⟨part, hpart, hmem⟩ := List.mem_flatten.1 hmem
    rw [List.eq_of_mem_replicate hpart] at hmem
    exact style.not_mem_unit hmem
  unfold Row.lines at hline
  split at hline
  · obtain rfl | hline := List.mem_cons.1 hline
    · simp
    · rw [List.mem_singleton.1 hline]
      exact hshown
  · rw [List.mem_singleton.1 hline]
    exact hshown

/-- The rows of a text that has been written are those that it was written from. -/
theorem rowsOf_writeRows (h : rowsOf source = .ok rows) (style : Style) :
    rowsOf (writeRows style rows) = .ok rows := by
  have htrim : ∀ line ∈ (splitLines source.toList).map trim, trim line = line := by
    intro line hline
    obtain ⟨line, _, rfl⟩ := List.mem_map.1 hline
    exact trim_trim line
  rw [rowsOf, writeRows, String.toList_ofList,
    splitLines_joinLines (not_mem_lines_of_rowsOf h style), List.map_append]
  exact arrange_written style.blank_unit htrim h 1

end

/-- Layout keeps the code of a text and leaves it well spaced. It is not seen any more once the text
is laid out again, in whatever style, and the style does not decide whether there is a layout. -/
theorem indent_absorbs (source : String) (style : Style) :
    (∀ text, indent style source = .ok text →
      codeLines text = codeLines source ∧ WellSpaced (textLines text) ∧
        (∀ other, indent other text = indent other source) ∧ indent style text = .ok text) ∧
    ∀ other, (∃ text, indent style source = .ok text) ↔ ∃ text, indent other source = .ok text := by
  refine ⟨?_, ?_⟩
  · intro text h
    obtain ⟨rows, hrows, rfl⟩ := indent_eq_ok.1 h
    have hagain := rowsOf_writeRows hrows style
    have habsorbed : ∀ other, indent other (writeRows style rows) = indent other source := by
      intro other
      calc indent other (writeRows style rows)
          = (rowsOf (writeRows style rows)).map (writeRows other) := indent_eq _ _
        _ = (rowsOf source).map (writeRows other) := by rw [hagain, hrows]
        _ = indent other source := (indent_eq _ _).symm
    refine ⟨?_, ?_, habsorbed, (habsorbed style).trans h⟩
    · calc codeLines (writeRows style rows)
          = rows.map (·.code) := (map_code_rowsOf hagain).symm
        _ = codeLines source := map_code_rowsOf hrows
    · rw [writeRows, textLines_joinLines (not_mem_lines_of_rowsOf hrows style)]
      exact wellSpaced_rows (fun _ => not_blank_of_rowsOf hrows style) (head_of_arrange hrows rfl)
  · intro other
    simp only [indent_eq_ok]
    constructor
    · rintro ⟨_, rows, hrows, _⟩
      exact ⟨_, rows, hrows, rfl⟩
    · rintro ⟨_, rows, hrows, _⟩
      exact ⟨_, rows, hrows, rfl⟩

/-- Source with blank lines in all places, and with braces in a literal and in a comment of two
lines. -/
def looseSource : String :=
  " \r\n\na \x7b\r\n\n\n  b = \"\x7d\"; /* \x7b x\n\n \x7d */ c;\n\n\x7d // \x7d\n\n\nd;\n\n"

def laidOutSource : String :=
  "a \x7b\n\tb = \"\x7d\"; /* \x7b x\n\n\t\x7d */ c;\n\x7d // \x7d\n\nd;\n"

theorem indent_absorbs_loose :
    indent { useTabs := true } looseSource = .ok laidOutSource ∧
      codeLines laidOutSource = codeLines looseSource ∧ WellSpaced (textLines laidOutSource) ∧
      (∀ other, indent other laidOutSource = indent other looseSource) ∧
      indent { useTabs := true } laidOutSource = .ok laidOutSource := by
  have h : indent { useTabs := true } looseSource = .ok laidOutSource := by
    decide +kernel
  exact ⟨h, (indent_absorbs looseSource { useTabs := true }).1 laidOutSource h⟩

end Source
end Stencil
