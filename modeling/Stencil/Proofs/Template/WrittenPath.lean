import Mathlib.Tactic.Common
import Stencil.Template.Path

/-!
# References as they are written

A reference can be written in many ways: its parts plain or in brackets, with dots or slashes
between them, from any ancestor, with or without `this`. This file defines:

* `WrittenPart` : a part that can be read again, in brackets or plain;
* `WrittenPath` : a reference made of such parts, and its text.

Whatever way is chosen, reading finds what was written (`parsePath_text`).
-/

namespace Stencil
namespace Template

/-! ## Ways of writing -/

/-- What divides the parts of a reference. -/
inductive Divider where
  | dot
  | slash
  deriving DecidableEq, Repr

def Divider.char : Divider → Char
  | .dot => '.'
  | .slash => '/'

def isDivider (c : Char) : Bool := c == '.' || c == '/'

/-- How a reference starts that says it starts at the data itself. -/
inductive ThisForm where
  | dotted
  | slashed
  | short
  deriving DecidableEq, Repr

def ThisForm.chars : ThisForm → List Char
  | .dotted => ['t', 'h', 'i', 's', '.']
  | .slashed => ['t', 'h', 'i', 's', '/']
  | .short => ['.', '/']

/-- A part of a reference, in one of the two ways in which it can be written. -/
inductive WrittenPart where
  | bracketed (text : String) (closes : ']' ∉ text.toList)
  | plain (text : String) (ne_empty : text ≠ "") (clear : ∀ c ∈ text.toList, c ∉ ['.', '/', '['])
      (head_ne : text.toList.head? ≠ some '@')

namespace WrittenPart

def text : WrittenPart → String
  | .bracketed text _ => text
  | .plain text .. => text

def chars : WrittenPart → List Char
  | .bracketed text _ => '[' :: (text.toList ++ [']'])
  | .plain text .. => text.toList

/-- The segment that has been read at the end of a part. -/
def segment : WrittenPart → Segment
  | .bracketed text _ => { chars := text.toList.reverse, bracketed := true }
  | .plain text .. => { chars := text.toList.reverse }

end WrittenPart

/-- The characters of parts that follow another one. -/
def othersChars (others : List (Divider × WrittenPart)) : List Char :=
  others.flatMap fun other => other.1.char :: other.2.chars

/-- A reference in one of the ways in which it can be written. -/
structure WrittenPath where
  data : Bool
  depth : Nat
  start : Option ThisForm
  first : WrittenPart
  /-- The first part may be `this` only in brackets. -/
  first_ne : first.chars ≠ ['t', 'h', 'i', 's']
  others : List (Divider × WrittenPart)

namespace WrittenPath

def parts (p : WrittenPath) : List String :=
  p.first.text :: p.others.map (·.2.text)

/-- The parts of a reference as they are written. -/
def partChars (p : WrittenPath) : List Char :=
  p.first.chars ++ othersChars p.others

def text (p : WrittenPath) : String :=
  String.ofList ((if p.data then ['@'] else []) ++
    ((List.replicate p.depth ['.', '.', '/']).flatten ++
      ((p.start.map ThisForm.chars).getD [] ++ p.partChars)))

end WrittenPath

/-! ## Segments -/

theorem segmentsFrom_clear {cs : List Char} (h : ∀ c ∈ cs, c ∉ ['.', '/', '[']) (current : Segment)
    (rest : List Char) :
    segmentsFrom current (cs ++ rest) =
      segmentsFrom { current with chars := cs.reverse ++ current.chars } rest := by
  induction cs generalizing current with
  | nil => rfl
  | cons c cs ih =>
    have hc := h c List.mem_cons_self
    simp only [List.mem_cons, List.not_mem_nil, or_false, not_or] at hc
    obtain ⟨hdot, hslash, hbracket⟩ := hc
    rw [List.cons_append, segmentsFrom, if_neg (by simp [hbracket]),
      if_neg (by simp [hdot, hslash]), ih fun d hd => h d (List.mem_cons_of_mem _ hd)]
    simp

theorem bracketFrom_close {cs : List Char} (h : ']' ∉ cs) (current : Segment) (rest : List Char) :
    bracketFrom current (cs ++ ']' :: rest) =
      segmentsFrom { chars := cs.reverse ++ current.chars, bracketed := true } rest := by
  induction cs generalizing current with
  | nil =>
    rw [List.nil_append, bracketFrom]
    rfl
  | cons c cs ih =>
    rw [List.mem_cons, not_or] at h
    obtain ⟨hc, hcs⟩ := h
    rw [List.cons_append, bracketFrom, if_neg (by simpa using Ne.symm hc), ih hcs]
    simp

/-- A part is read from its first character to its last one. -/
theorem segmentsFrom_part (part : WrittenPart) (rest : List Char) :
    segmentsFrom {} (part.chars ++ rest) = segmentsFrom part.segment rest := by
  cases part with
  | bracketed text closes =>
    have hchars : (WrittenPart.bracketed text closes).chars ++ rest =
        '[' :: (text.toList ++ ']' :: rest) := by
      simp [WrittenPart.chars]
    rw [hchars, segmentsFrom, if_pos (by decide), bracketFrom_close closes]
    simp [WrittenPart.segment]
  | plain text ne_empty clear head_ne =>
    rw [WrittenPart.chars, segmentsFrom_clear clear]
    simp [WrittenPart.segment]

theorem text_segment (part : WrittenPart) : part.segment.text = part.text := by
  cases part <;> simp [WrittenPart.segment, WrittenPart.text, Segment.text]

/-- Brackets may be empty, plain text may not. -/
theorem missing_segment (part : WrittenPart) : part.segment.missing = false := by
  cases part with
  | bracketed text closes => simp [WrittenPart.segment, Segment.missing]
  | plain text ne_empty clear head_ne =>
    simpa [WrittenPart.segment, Segment.missing] using ne_empty

theorem segmentsFrom_divider (part : WrittenPart) (divider : Divider) (rest : List Char) :
    segmentsFrom part.segment (divider.char :: rest) =
      (segmentsFrom {} rest).map (part.text :: ·) := by
  cases divider
  all_goals
    rw [segmentsFrom, if_neg (by simp [Divider.char]), if_pos (by decide), missing_segment,
      text_segment]
    rfl

theorem segmentsFrom_parts (first : WrittenPart) (others : List (Divider × WrittenPart)) :
    segmentsFrom {} (first.chars ++ othersChars others) =
      some (first.text :: others.map (·.2.text)) := by
  induction others generalizing first with
  | nil =>
    rw [segmentsFrom_part, othersChars, List.flatMap_nil, segmentsFrom, missing_segment,
      text_segment]
    rfl
  | cons other others ih =>
    have hothers : othersChars (other :: others) =
        other.1.char :: (other.2.chars ++ othersChars others) := rfl
    rw [segmentsFrom_part, hothers, segmentsFrom_divider, ih]
    rfl

/-! ## What stands before the parts -/

/-- Text up to the first divider. -/
def headChars (cs : List Char) : List Char := cs.takeWhile (!isDivider ·)

/-- The first part is not taken for a way up or for `this`. -/
theorem headChars_parts (first : WrittenPart) (others : List (Divider × WrittenPart))
    (hfirst : first.chars ≠ ['t', 'h', 'i', 's']) :
    headChars (first.chars ++ othersChars others) ≠ [] ∧
      headChars (first.chars ++ othersChars others) ≠ ['t', 'h', 'i', 's'] := by
  cases first with
  | bracketed text closes =>
    have hhead : ∀ cs, headChars ((WrittenPart.bracketed text closes).chars ++ cs) =
        '[' :: headChars (text.toList ++ [']'] ++ cs) := fun _ => rfl
    rw [hhead]
    simp
  | plain text ne_empty clear head_ne =>
    -- what follows is empty or begins with a divider, so the head is the part itself
    have hothers : headChars (othersChars others) = [] := by
      cases others with
      | nil => rfl
      | cons other others =>
        obtain ⟨divider, part⟩ := other
        cases divider <;> rfl
    have hclear : ∀ c ∈ text.toList, (!isDivider c) = true := by
      intro c hc
      have hmem := clear c hc
      simp only [List.mem_cons, List.not_mem_nil, or_false, not_or] at hmem
      simp [isDivider, hmem]
    have hhead : headChars (text.toList ++ othersChars others) = text.toList := by
      rw [headChars, List.takeWhile_append_of_pos hclear]
      change text.toList ++ headChars (othersChars others) = text.toList
      rw [hothers, List.append_nil]
    rw [WrittenPart.chars, hhead]
    exact ⟨by simpa using ne_empty, hfirst⟩

theorem splitDepth_of_head {cs : List Char} (h : headChars cs ≠ []) :
    splitDepth cs = (0, cs) := by
  -- a way up begins with a divider, so that nothing stands before it
  unfold splitDepth
  split
  · exact absurd rfl h
  · exact absurd rfl h
  · rfl

theorem splitDepth_replicate (depth : Nat) {cs : List Char} (h : splitDepth cs = (0, cs)) :
    splitDepth ((List.replicate depth ['.', '.', '/']).flatten ++ cs) = (depth, cs) := by
  induction depth with
  | zero => exact h
  | succ depth ih =>
    have hcons : (List.replicate (depth + 1) ['.', '.', '/']).flatten ++ cs =
        '.' :: '.' :: '/' :: ((List.replicate depth ['.', '.', '/']).flatten ++ cs) := by
      simp [List.replicate_succ]
    rw [hcons, splitDepth, ih]

theorem splitThis_of_head {cs : List Char} (h : headChars cs ≠ [])
    (h' : headChars cs ≠ ['t', 'h', 'i', 's']) : splitThis cs = (false, cs) := by
  unfold splitThis
  split
  · exact absurd rfl h
  · exact absurd rfl h'
  · exact absurd rfl h
  · exact absurd rfl h'
  · exact absurd rfl h'
  · rfl

theorem splitDepth_start (form : ThisForm) (cs : List Char) :
    splitDepth (form.chars ++ cs) = (0, form.chars ++ cs) := by
  cases form <;> rfl

theorem splitThis_start (form : ThisForm) (cs : List Char) :
    splitThis (form.chars ++ cs) = (true, cs) := by
  cases form <;> rfl

theorem splitData_of_head {cs : List Char} (h : cs.head? ≠ some '@') :
    splitData cs = (false, cs) := by
  unfold splitData
  split
  · exact absurd rfl h
  · rfl

/-! ## References -/

namespace WrittenPath

variable (p : WrittenPath)

/-- The parts of a reference, with what stands between them and the ways up. -/
def localChars : List Char := (p.start.map ThisForm.chars).getD [] ++ p.partChars

/-- A reference without the sign for data variables. -/
def pathChars : List Char := (List.replicate p.depth ['.', '.', '/']).flatten ++ p.localChars

theorem toList_text : p.text.toList = (if p.data then ['@'] else []) ++ p.pathChars :=
  String.toList_ofList

theorem head?_partChars : ∃ c, p.partChars.head? = some c ∧ c ≠ '@' := by
  rw [partChars]
  cases p.first with
  | bracketed text closes => exact ⟨'[', rfl, by decide⟩
  | plain text ne_empty clear head_ne =>
    obtain ⟨c, cs, hcs⟩ := List.exists_cons_of_ne_nil (by simpa using ne_empty : text.toList ≠ [])
    refine ⟨c, by rw [WrittenPart.chars, hcs]; rfl, ?_⟩
    rintro rfl
    exact head_ne (by rw [hcs]; rfl)

theorem head?_pathChars : p.pathChars.head? ≠ some '@' := by
  obtain ⟨c, hc, hne⟩ := p.head?_partChars
  rw [pathChars, localChars]
  cases p.depth with
  | succ depth => simp [List.replicate_succ]
  | zero =>
    rw [List.replicate_zero, List.flatten_nil, List.nil_append]
    cases p.start with
    | none =>
      rw [Option.map_none, Option.getD_none, List.nil_append, hc]
      simpa using hne
    | some form => cases form <;> simp [ThisForm.chars]

theorem splitData_text : splitData p.text.toList = (p.data, p.pathChars) := by
  rw [toList_text]
  cases p.data with
  | true => rfl
  | false => exact splitData_of_head p.head?_pathChars

theorem splitThis_localChars : splitThis p.localChars = (p.start.isSome, p.partChars) := by
  rw [localChars]
  cases p.start with
  | none =>
    obtain ⟨hne, hthis⟩ := headChars_parts p.first p.others p.first_ne
    exact splitThis_of_head hne hthis
  | some form => exact splitThis_start form p.partChars

theorem splitDepth_pathChars : splitDepth p.pathChars = (p.depth, p.localChars) := by
  refine splitDepth_replicate p.depth ?_
  rw [localChars]
  cases p.start with
  | none => exact splitDepth_of_head (headChars_parts p.first p.others p.first_ne).1
  | some form => exact splitDepth_start form p.partChars

theorem splitSegments_partChars : splitSegments p.partChars = some p.parts := by
  have hne : p.partChars.isEmpty = false := by
    obtain ⟨c, hc, _⟩ := p.head?_partChars
    cases hchars : p.partChars with
    | nil => simp [hchars] at hc
    | cons => rfl
  rw [splitSegments, hne]
  exact segmentsFrom_parts p.first p.others

end WrittenPath

/-- A reference is read as it was written, in whatever way that was. -/
theorem parsePath_text (p : WrittenPath) (span : Span) :
    parsePath p.text span = .ok
      { written := p.text
        parts := p.parts
        depth := p.depth
        data := p.data
        explicitThis := p.start.isSome
        span } := by
  have hparts : p.parts.isEmpty = false := rfl
  unfold parsePath
  rw [p.splitData_text]
  dsimp only
  rw [p.splitDepth_pathChars]
  dsimp only
  rw [p.splitThis_localChars]
  dsimp only
  rw [p.splitSegments_partChars]
  dsimp only
  rw [hparts, Bool.and_false]
  rfl

/-- Dividers in brackets, an empty part in brackets, and a way up behind the sign for data. -/
def mixedPath : WrittenPath where
  data := true
  depth := 2
  start := some .slashed
  first := .bracketed "a.b/[c" (by decide)
  first_ne := by decide
  others := [(.dot, .bracketed "" (by decide)), (.slash, .plain "this" (by decide)
    (by simp) (by decide))]

theorem parsePath_text_mixed :
    parsePath "@../../this/[a.b/[c].[]/this" { line := 1, column := 3 } = .ok
      { written := "@../../this/[a.b/[c].[]/this"
        parts := ["a.b/[c", "", "this"]
        depth := 2
        data := true
        explicitThis := true
        span := { line := 1, column := 3 } } := by
  have htext : mixedPath.text = "@../../this/[a.b/[c].[]/this" := by
    decide
  rw [← htext]
  exact parsePath_text mixedPath { line := 1, column := 3 }

end Template
end Stencil
