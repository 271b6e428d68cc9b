import Mathlib.Data.List.Chain
import Mathlib.Data.List.Infix
import Stencil.Proofs.Results
import Stencil.Source.File

/-!
# Balanced source

Source text is laid out if its braces are balanced on the way from line to line. This file defines:

* `Reads`      : a piece of a line that begins and ends in code, with the braces in it;
* `depthAfter` : the depth that lines lead to;
* `Level`      : lines that lead back to the depth at which they start;
* `Unmarked`   : text without braces, quotes and block comments.

Level lines are built from pieces without braces and from blocks (`Level.block`), and what they
make up is laid out (`indent_ok_of_level`).
-/

namespace Stencil
namespace Source

open Text (dropEndWhile isBlank trim trimEnd trimStart)

/-! ## Scanning -/

namespace Scan

/-- The scanner after some characters. -/
def run (s : Scan) (cs : List Char) : Scan := cs.foldl step s

/-- The scanner at the start of a line of code. -/
def start : Scan := { mode := .code }

theorem run_cons (s : Scan) (c : Char) (cs : List Char) : s.run (c :: cs) = (s.step c).run cs := rfl

theorem run_append (s : Scan) (cs ds : List Char) : s.run (cs ++ ds) = (s.run cs).run ds :=
  List.foldl_append

/-- Two scanners in one mode, of which the second has met more braces. -/
structure Ahead (opens closes : Nat) (s t : Scan) : Prop where
  mode : t.mode = s.mode
  opens : t.counts.opens = s.counts.opens + opens
  closes : t.counts.closes = s.counts.closes + closes

namespace Ahead

variable {opens closes : Nat} {s t : Scan}

theorem code (h : Ahead opens closes s t) (c : Char) :
    Ahead opens closes (s.code c) (t.code c) := by
  have hopens := h.opens
  have hcloses := h.closes
  unfold Scan.code
  split
  · exact ⟨rfl, hopens, hcloses⟩
  · split
    · exact ⟨rfl, hopens, hcloses⟩
    · split
      · exact ⟨rfl, by simp only [hopens]; omega, hcloses⟩
      · split
        · exact ⟨rfl, hopens, by simp only [hcloses]; omega⟩
        · exact ⟨rfl, hopens, hcloses⟩

/-- The mode alone decides what a character does. -/
theorem step (h : Ahead opens closes s t) (c : Char) :
    Ahead opens closes (s.step c) (t.step c) := by
  -- outside code a character changes the mode at most
  have hto : ∀ mode, Ahead opens closes { s with mode } { t with mode } :=
    fun _ => ⟨rfl, h.opens, h.closes⟩
  unfold Scan.step
  rw [h.mode]
  cases s.mode with
  | code => exact h.code c
  | slash =>
    dsimp only
    split
    · exact hto _
    · split
      · exact hto _
      · refine code ?_ c
        exact ⟨rfl, h.opens, h.closes⟩
  | lineComment => exact h
  | blockComment =>
    dsimp only
    split
    · exact hto _
    · exact h
  | star =>
    dsimp only
    split
    · exact hto _
    · split
      · exact h
      · exact hto _
  | quoted quote =>
    dsimp only
    split
    · exact hto _
    · split
      · exact hto _
      · exact h
  | escaped quote => exact hto _

theorem run (h : Ahead opens closes s t) (cs : List Char) :
    Ahead opens closes (s.run cs) (t.run cs) := by
  induction cs generalizing s t with
  | nil => exact h
  | cons c cs ih => exact ih (h.step c)

end Ahead

end Scan

/-! ## Pieces of lines -/

/-- A piece of a line that leads from code to code, past the given numbers of braces. -/
def Reads (text : String) (opens closes : Nat) : Prop :=
  '\n' ∉ text.toList ∧ (Scan.start.run text.toList).mode = .code ∧
    (Scan.start.run text.toList).counts.opens = opens ∧
    (Scan.start.run text.toList).counts.closes = closes

instance (text : String) (opens closes : Nat) : Decidable (Reads text opens closes) :=
  inferInstanceAs (Decidable (_ ∧ _))

/-- A piece of a line without braces. -/
abbrev Neutral (text : String) : Prop := Reads text 0 0

theorem Reads.append {text other : String} {opens closes opens' closes' : Nat}
    (h : Reads text opens closes) (h' : Reads other opens' closes') :
    Reads (text ++ other) (opens + opens') (closes + closes') := by
  obtain ⟨hline, hmode, hopens, hcloses⟩ := h
  obtain ⟨hline', hmode', hopens', hcloses'⟩ := h'
  have hahead : Scan.Ahead opens closes Scan.start (Scan.start.run text.toList) :=
    ⟨hmode, hopens.trans (Nat.zero_add _).symm, hcloses.trans (Nat.zero_add _).symm⟩
  have hrun := hahead.run other.toList
  rw [Reads, String.toList_append, Scan.run_append]
  refine ⟨?_, hrun.mode.trans hmode', ?_, ?_⟩
  · rw [List.mem_append]
    exact not_or_intro hline hline'
  · rw [hrun.opens, hopens', Nat.add_comm]
  · rw [hrun.closes, hcloses', Nat.add_comm]

/-- A character that stands for itself wherever it is in code. -/
def isPlain (c : Char) : Bool :=
  c != '"' && c != '\'' && c != '/' && c != '\x7b' && c != '\x7d' && c != '\n'

/-- Text of plain characters. -/
def Plain (text : String) : Prop := ∀ c ∈ text.toList, isPlain c = true

theorem Scan.code_of_isPlain (s : Scan) {c : Char} (h : isPlain c = true) :
    s.code c = { s with mode := .code, leading := s.leading && isBlank c } := by
  simp only [isPlain, Bool.and_eq_true, bne_iff_ne] at h
  simp [Scan.code, h]

theorem Plain.neutral {text : String} (h : Plain text) : Neutral text := by
  -- from any scanner in code, as the one that goes on after a character is not at its start
  have hrun : ∀ cs : List Char, (∀ c ∈ cs, isPlain c = true) → ∀ s : Scan, s.mode = .code →
      (s.run cs).mode = .code ∧ (s.run cs).counts = s.counts := by
    intro cs
    induction cs with
    | nil => exact fun _ s hs => ⟨hs, rfl⟩
    | cons c cs ih =>
      intro hcs s hs
      have hstep : s.step c = { s with mode := .code, leading := s.leading && isBlank c } := by
        rw [← s.code_of_isPlain (hcs c List.mem_cons_self), Scan.step, hs]
      rw [Scan.run_cons, hstep]
      exact ih (fun d hd => hcs d (List.mem_cons_of_mem _ hd)) _ rfl
  obtain ⟨hmode, hcounts⟩ := hrun text.toList h Scan.start rfl
  refine ⟨?_, hmode, by rw [hcounts]; rfl, by rw [hcounts]; rfl⟩
  intro hline
  exact absurd (h _ hline) (by decide)

/-! ## Blanks around a line -/

theorem not_special_of_isBlank {c : Char} (h : isBlank c = true) :
    c ≠ '"' ∧ c ≠ '\'' ∧ c ≠ '/' ∧ c ≠ '\x7b' ∧ c ≠ '\x7d' ∧ c ≠ '*' ∧ c ≠ '\\' := by
  refine ⟨?_, ?_, ?_, ?_, ?_, ?_, ?_⟩
  all_goals
    rintro rfl
    exact absurd h (by decide)

namespace Scan

theorem code_blank (s : Scan) {c : Char} (h : isBlank c = true) :
    s.code c = { s with mode := .code } := by
  obtain ⟨h₁, h₂, h₃, h₄, h₅, _⟩ := not_special_of_isBlank h
  simp [code, h₁, h₂, h₃, h₄, h₅, h]

/-- A blank at the start of a line does nothing. -/
theorem step_blank {s : Scan} (hs : s.mode = .code ∨ s.mode = .blockComment) {c : Char}
    (h : isBlank c = true) : s.step c = s := by
  obtain hs | hs := hs
  · rw [step, hs]
    dsimp only
    rw [s.code_blank h, ← hs]
  · obtain ⟨_, _, _, _, _, hstar, _⟩ := not_special_of_isBlank h
    rw [step, hs]
    simp [hstar]

theorem run_trimStart {s : Scan} (hs : s.mode = .code ∨ s.mode = .blockComment) (cs : List Char) :
    s.run (trimStart cs) = s.run cs := by
  unfold trimStart
  induction cs with
  | nil => rfl
  | cons c cs ih =>
    cases hc : isBlank c with
    | true => rw [List.dropWhile_cons_of_pos hc, run_cons, step_blank hs hc, ih]
    | false => rw [List.dropWhile_cons_of_neg (by simp [hc])]

/-- A blank ends no comment, starts none and is no brace. -/
theorem step_blank_counts (s : Scan) {c : Char} (h : isBlank c = true) :
    (s.step c).counts = s.counts ∧ (s.step c).mode.inBlockComment = s.mode.inBlockComment := by
  obtain ⟨_, _, hslash, _, _, hstar, hescape⟩ := not_special_of_isBlank h
  unfold step
  cases hs : s.mode with
  | code => simp [s.code_blank h, ScanMode.inBlockComment]
  | slash => simp [hslash, hstar, code_blank _ h, ScanMode.inBlockComment]
  | lineComment => simp [hs]
  | blockComment => simp [hstar, hs]
  | star => simp [hslash, hstar, ScanMode.inBlockComment]
  | quoted quote =>
    simp only [beq_eq_false_iff_ne.2 hescape, Bool.false_eq_true, if_false]
    split
    · exact ⟨rfl, rfl⟩
    · rw [hs]
      exact ⟨rfl, rfl⟩
  | escaped quote => exact ⟨rfl, rfl⟩

theorem run_blank_counts (s : Scan) {cs : List Char} (h : ∀ c ∈ cs, isBlank c = true) :
    (s.run cs).counts = s.counts ∧ (s.run cs).mode.inBlockComment = s.mode.inBlockComment := by
  induction cs generalizing s with
  | nil => exact ⟨rfl, rfl⟩
  | cons c cs ih =>
    obtain ⟨hcounts, hmode⟩ := ih (s.step c) fun d hd => h d (List.mem_cons_of_mem _ hd)
    obtain ⟨hcounts', hmode'⟩ := s.step_blank_counts (h c List.mem_cons_self)
    exact ⟨hcounts.trans hcounts', hmode.trans hmode'⟩

end Scan

/-- What is cut off at the end of a text. -/
theorem exists_dropEndWhile (p : Char → Bool) (cs : List Char) :
    ∃ cut, cs = dropEndWhile p cs ++ cut ∧ ∀ c ∈ cut, p c = true := by
  refine ⟨(cs.reverse.takeWhile p).reverse, ?_, ?_⟩
  · rw [dropEndWhile, ← List.reverse_append, List.takeWhile_append_dropWhile, List.reverse_reverse]
  · intro c hc
    exact List.all_eq_true.1 List.all_takeWhile c (List.mem_reverse.1 hc)

/-- The braces of a line are those of the line without the blanks around it. -/
theorem scanLine_trim (inComment : Bool) (cs : List Char) :
    scanLine inComment (trim cs) = scanLine inComment cs := by
  -- blanks behind a line may change the mode, as after a slash, but not whether a block comment
  -- goes on
  have hstart : ∀ s : Scan, s.mode = .code ∨ s.mode = .blockComment →
      (s.run (trim cs)).counts = (s.run cs).counts ∧
        (s.run (trim cs)).mode.inBlockComment = (s.run cs).mode.inBlockComment := by
    intro s hs
    obtain ⟨cut, hcut, hblank⟩ := exists_dropEndWhile isBlank (trimStart cs)
    obtain ⟨hcounts, hmode⟩ := (s.run (trim cs)).run_blank_counts hblank
    rw [← Scan.run_append] at hcounts hmode
    change (s.run (dropEndWhile isBlank (trimStart cs) ++ cut)).counts = _ at hcounts
    change (s.run (dropEndWhile isBlank (trimStart cs) ++ cut)).mode.inBlockComment = _ at hmode
    rw [← hcut, Scan.run_trimStart hs] at hcounts hmode
    exact ⟨hcounts.symm, hmode.symm⟩
  have hmode : ∀ b : Bool, (if b then ScanMode.blockComment else .code) = .code ∨
      (if b then ScanMode.blockComment else .code) = .blockComment := by
    decide
  obtain ⟨hcounts, hmode⟩ :=
    hstart { mode := if inComment then .blockComment else .code } (hmode inComment)
  exact Prod.ext hcounts hmode

/-! ## Depth -/

/-- The depth that lines of code lead to. There is none where a line closes more braces than are
open, or ends in a block comment. -/
def depthAfter (depth : Nat) : List (List Char) → Option Nat
  | [] => some depth
  | line :: rest =>
    let (k, inComment) := scanLine false line
    if inComment || k.closes > depth + k.opens then none
    else depthAfter (depth + k.opens - k.closes) rest

theorem depthAfter_append (depth : Nat) (lines others : List (List Char)) :
    depthAfter depth (lines ++ others) =
      (depthAfter depth lines).bind (depthAfter · others) := by
  induction lines generalizing depth with
  | nil => rfl
  | cons line lines ih =>
    rw [List.cons_append, depthAfter, depthAfter]
    dsimp only
    split
    · rfl
    · exact ih _

/-- Lines further in lead to a depth further in. -/
theorem depthAfter_add {depth depth' : Nat} {lines : List (List Char)}
    (h : depthAfter depth lines = some depth') (k : Nat) :
    depthAfter (depth + k) lines = some (depth' + k) := by
  induction lines generalizing depth with
  | nil =>
    cases h
    rfl
  | cons line lines ih =>
    rw [depthAfter] at h ⊢
    dsimp only at h ⊢
    split at h
    · cases h
    · next hline =>
      simp only [Bool.or_eq_true, decide_eq_true_eq, not_or] at hline
      obtain ⟨hcomment, hcloses⟩ := hline
      rw [if_neg (by
        simp only [Bool.or_eq_true, decide_eq_true_eq, not_or]
        exact ⟨hcomment, by omega⟩)]
      rw [show depth + k + (scanLine false line).1.opens - (scanLine false line).1.closes =
        depth + (scanLine false line).1.opens - (scanLine false line).1.closes + k by omega]
      exact ih h

/-- Lines that lead back to where no brace is open are laid out. -/
theorem exists_layoutLines {depth : Nat} {lines : List (List Char)}
    (h : depthAfter depth lines = some 0) (unit : List Char) (number : Nat) (state : Layout)
    (hdepth : state.depth = depth) (hcomment : state.inComment = false) :
    ∃ shown, layoutLines unit number state (lines.map trim) = .ok shown := by
  induction lines generalizing depth number state with
  | nil =>
    cases h
    refine ⟨[], ?_⟩
    simp [layoutLines, hdepth]
  | cons line lines ih =>
    rw [depthAfter] at h
    dsimp only at h
    split at h
    · cases h
    · next hline =>
      simp only [Bool.or_eq_true, decide_eq_true_eq, not_or, Bool.not_eq_true] at hline
      obtain ⟨hends, hcloses⟩ := hline
      -- what the line does to the state
      have hnext : ∃ next shown, layoutLine unit number state (trim line) = .ok (next, shown) ∧
          next.depth = depth + (scanLine false line).1.opens - (scanLine false line).1.closes ∧
          next.inComment = false := by
        rw [← scanLine_trim] at hends hcloses ⊢
        unfold layoutLine
        split
        · next hempty =>
          rw [List.isEmpty_iff.1 hempty]
          exact ⟨_, _, rfl, by rw [← hdepth]; rfl, hcomment⟩
        · dsimp only
          rw [hcomment, hdepth, if_neg hcloses]
          exact ⟨_, _, rfl, rfl, hends⟩
      obtain ⟨next, shown, hlayout, hdepth', hcomment'⟩ := hnext
      obtain ⟨later, hlater⟩ := ih h (number + 1) next hdepth' hcomment'
      refine ⟨shown ++ later, ?_⟩
      rw [List.map_cons, layoutLines]
      exact Results.bind_eq_ok.2 ⟨_, hlayout, Results.bind_eq_ok.2 ⟨later, hlater, rfl⟩⟩

/-! ## Lines of a text -/

theorem splitLines_ne_nil (cs : List Char) : splitLines cs ≠ [] := by
  cases cs with
  | nil => simp [splitLines]
  | cons c cs =>
    rw [splitLines]
    split
    · simp
    · split
      · simp
      · simp

/-- A line feed ends the last line before it. -/
theorem splitLines_append (cs ds : List Char) :
    splitLines (cs ++ '\n' :: ds) = splitLines cs ++ splitLines ds := by
  induction cs with
  | nil => simp [splitLines]
  | cons c cs ih =>
    rw [List.cons_append, splitLines, ih, splitLines]
    split
    · rfl
    · cases hlines : splitLines cs with
      | nil => exact absurd hlines (splitLines_ne_nil cs)
      | cons line lines => rfl

theorem splitLines_of_not_mem {cs : List Char} (h : '\n' ∉ cs) : splitLines cs = [cs] := by
  induction cs with
  | nil => rfl
  | cons c cs ih =>
    rw [List.mem_cons, not_or] at h
    obtain ⟨hc, hcs⟩ := h
    rw [splitLines, ih hcs]
    simp [Ne.symm hc]

/-- The lines of a text, where a line as it was written may hold several of them. -/
theorem splitLines_unlines (lines : List String) :
    splitLines (unlines lines).toList = lines.flatMap (splitLines ·.toList) ++ [[]] := by
  unfold unlines
  induction lines with
  | nil => rfl
  | cons line lines ih =>
    have htext : (String.join ((line :: lines).map (· ++ "\n"))).toList =
        line.toList ++ '\n' :: (String.join (lines.map (· ++ "\n"))).toList := by
      simp
    rw [htext, splitLines_append, ih, List.flatMap_cons, List.append_assoc]

/-! ## Level lines -/

/-- Lines that lead back to the depth at which they start. -/
def Level (lines : List String) : Prop :=
  depthAfter 0 (lines.flatMap (splitLines ·.toList)) = some 0

instance (lines : List String) : Decidable (Level lines) :=
  inferInstanceAs (Decidable (_ = _))

theorem Level.nil : Level [] := rfl

theorem Level.append {lines others : List String} (h : Level lines) (h' : Level others) :
    Level (lines ++ others) := by
  rw [Level, List.flatMap_append, depthAfter_append, h]
  exact h'

theorem Level.cons {line : String} {lines : List String} (h : Level [line]) (h' : Level lines) :
    Level (line :: lines) :=
  h.append h'

theorem Level.flatMap {α : Type} {xs : List α} {f : α → List String} (h : ∀ x ∈ xs, Level (f x)) :
    Level (xs.flatMap f) := by
  induction xs with
  | nil => exact .nil
  | cons x xs ih =>
    exact (h x List.mem_cons_self).append (ih fun y hy => h y (List.mem_cons_of_mem _ hy))

theorem Level.map {α : Type} {xs : List α} {f : α → String} (h : ∀ x ∈ xs, Level [f x]) :
    Level (xs.map f) := by
  rw [List.map_eq_flatMap]
  exact .flatMap h

theorem Reads.depthAfter {line : String} {opens closes : Nat} (h : Reads line opens closes)
    {depth : Nat} (hle : closes ≤ depth + opens) (rest : List String) :
    depthAfter depth ((line :: rest).flatMap (splitLines ·.toList)) =
      depthAfter (depth + opens - closes) (rest.flatMap (splitLines ·.toList)) := by
  obtain ⟨hline, hmode, hopens, hcloses⟩ := h
  have hscan : scanLine false line.toList = ((Scan.start.run line.toList).counts, false) := by
    refine Prod.ext rfl ?_
    change (Scan.start.run line.toList).mode.inBlockComment = false
    rw [hmode]
    rfl
  rw [List.flatMap_cons, splitLines_of_not_mem hline, List.singleton_append, Source.depthAfter,
    hscan]
  dsimp only
  rw [hopens, hcloses, if_neg (by simpa using hle)]

/-- A line that closes as many braces as it opens. -/
theorem Reads.level {line : String} {braces : Nat} (h : Reads line braces braces) :
    Level [line] := by
  rw [Level, h.depthAfter (Nat.le_add_left _ _)]
  simp [Source.depthAfter]

/-- Level lines in braces. -/
theorem Level.block {head last : String} {lines : List String} (hhead : Reads head 1 0)
    (hlines : Level lines) (hlast : Reads last 0 1) : Level (head :: lines ++ [last]) := by
  have hinside := depthAfter_add hlines 1
  rw [Level, List.cons_append, hhead.depthAfter (Nat.zero_le _), List.flatMap_append,
    depthAfter_append]
  change (Source.depthAfter (0 + 1) _).bind _ = _
  rw [hinside]
  exact (hlast.depthAfter (Nat.le_refl 1) []).trans rfl

/-- Level lines are laid out. -/
theorem indent_ok_of_level {lines : List String} (h : Level lines) (style : Style) :
    ∃ text, indent style (unlines lines) = .ok text := by
  have hdepth : depthAfter 0 (splitLines (unlines lines).toList) = some 0 := by
    rw [splitLines_unlines, depthAfter_append, h]
    rfl
  obtain ⟨shown, hshown⟩ := exists_layoutLines hdepth style.unit 1 {} rfl rfl
  refine ⟨String.ofList (joinLines shown), ?_⟩
  exact Results.bind_eq_ok.2 ⟨shown, hshown, rfl⟩

/-! ## Text without marks -/

/-- Text without braces, quotes and starts of block comments. -/
structure Unmarked (text : String) : Prop where
  marks : ∀ c ∈ text.toList, c ∉ ['\x7b', '\x7d', '"', '\'']
  comments : ¬ ['/', '*'] <:+: text.toList

instance (text : String) : Decidable (Unmarked text) :=
  have := List.decidableBAll (fun c => c ∉ ['\x7b', '\x7d', '"', '\'']) text.toList
  decidable_of_iff (_ ∧ _) ⟨fun h => ⟨h.1, h.2⟩, fun h => ⟨h.marks, h.comments⟩⟩

/-- Neighbours that do not start a block comment. -/
def Apart (a b : Char) : Prop := ¬ (a = '/' ∧ b = '*')

theorem isChain_apart {cs : List Char} (h : ¬ ['/', '*'] <:+: cs) : cs.IsChain Apart := by
  refine List.isChain_iff_forall_rel_of_append_cons_cons.2 ?_
  rintro a b before after rfl ⟨rfl, rfl⟩
  exact h ⟨before, after, by simp⟩

theorem not_infix_of_isChain {cs : List Char} (h : cs.IsChain Apart) : ¬ ['/', '*'] <:+: cs := by
  rintro ⟨before, after, rfl⟩
  have hpair : List.IsChain Apart ['/', '*'] := List.IsChain.infix h ⟨before, after, rfl⟩
  simp [Apart] at hpair

/-- Unmarked text between words that have no slash and no star at its ends. -/
theorem Unmarked.append {text other : String} (h : Unmarked text) (h' : Unmarked other)
    (hends : ∀ a ∈ text.toList.getLast?, ∀ b ∈ other.toList.head?, Apart a b) :
    Unmarked (text ++ other) := by
  refine ⟨?_, ?_⟩
  · intro c hc
    rw [String.toList_append] at hc
    exact (List.mem_append.1 hc).elim (h.marks c) (h'.marks c)
  · refine not_infix_of_isChain ?_
    rw [String.toList_append, List.isChain_append]
    exact ⟨isChain_apart h.comments, isChain_apart h'.comments, hends⟩

/-- The lines of a text are inside it. -/
theorem infix_of_mem_splitLines (cs : List Char) :
    (∀ line ∈ (splitLines cs).head?, line <+: cs) ∧ ∀ line ∈ splitLines cs, line <:+: cs := by
  induction cs with
  | nil => simp [splitLines]
  | cons c cs ih =>
    -- a character is put in front of the first line, so this has to be a prefix
    obtain ⟨ihfirst, ih⟩ := ih
    rw [splitLines]
    split
    · refine ⟨by simp, ?_⟩
      intro line hline
      obtain rfl | hline := List.mem_cons.1 hline
      · exact List.nil_infix
      · exact (ih line hline).trans (List.suffix_cons c cs).isInfix
    · cases hlines : splitLines cs with
      | nil => exact absurd hlines (splitLines_ne_nil cs)
      | cons first lines =>
        rw [hlines] at ih ihfirst
        have hfirst : c :: first <+: c :: cs := List.cons_prefix_cons.2 ⟨rfl, ihfirst first rfl⟩
        refine ⟨by simpa using hfirst, ?_⟩
        intro line hline
        obtain rfl | hline := List.mem_cons.1 hline
        · exact hfirst.isInfix
        · exact (ih line (List.mem_cons_of_mem _ hline)).trans (List.suffix_cons c cs).isInfix

/-- Unmarked text is code and comments that last to the end of their line. -/
theorem Scan.run_unmarked {cs : List Char} (hmarks : ∀ c ∈ cs, c ∉ ['\x7b', '\x7d', '"', '\''])
    (hchain : cs.IsChain Apart) {s : Scan}
    (hs : s.mode = .code ∨ (s.mode = .slash ∧ cs.head? ≠ some '*') ∨ s.mode = .lineComment) :
    (s.run cs).counts = s.counts ∧ (s.run cs).mode.inBlockComment = false := by
  induction cs generalizing s with
  | nil =>
    refine ⟨rfl, ?_⟩
    change s.mode.inBlockComment = false
    obtain hs | ⟨hs, _⟩ | hs := hs
    all_goals
      rw [hs]
      rfl
  | cons c cs ih =>
    have hrest := @ih (fun d hd => hmarks d (List.mem_cons_of_mem _ hd)) hchain.tail
    have hc := hmarks c List.mem_cons_self
    simp only [List.mem_cons, List.not_mem_nil, or_false, not_or] at hc
    obtain ⟨hopen, hclose, hdouble, hsingle⟩ := hc
    -- a character of code leads to code, unless it may start a comment
    have hcode : ∀ t : Scan, (t.code c).counts = t.counts ∧ ((t.code c).mode = .code ∨
        ((t.code c).mode = .slash ∧ cs.head? ≠ some '*')) := by
      intro t
      by_cases hslash : c = '/'
      · subst hslash
        refine ⟨by simp [code], .inr ⟨by simp [code], ?_⟩⟩
        intro hstar
        cases cs with
        | nil => cases hstar
        | cons d cs =>
          cases hstar
          exact (List.isChain_cons_cons.1 hchain).1 ⟨rfl, rfl⟩
      · exact ⟨by simp [code, hopen, hclose, hdouble, hsingle, hslash],
          .inl (by simp [code, hopen, hclose, hdouble, hsingle, hslash])⟩
    have hnext : (s.step c).counts = s.counts ∧ ((s.step c).mode = .code ∨
        ((s.step c).mode = .slash ∧ cs.head? ≠ some '*') ∨ (s.step c).mode = .lineComment) := by
      unfold step
      obtain hs | ⟨hs, hstar⟩ | hs := hs
      · rw [hs]
        obtain ⟨hcounts, hmode⟩ := hcode s
        exact ⟨hcounts, hmode.elim .inl (fun h => .inr (.inl h))⟩
      · have hstar : c ≠ '*' := fun h => hstar (congrArg some h)
        rw [hs]
        dsimp only
        split
        · exact ⟨rfl, .inr (.inr rfl)⟩
        · rw [if_neg (by simpa using hstar)]
          obtain ⟨hcounts, hmode⟩ := hcode { s with leading := false }
          exact ⟨hcounts, hmode.elim .inl (fun h => .inr (.inl h))⟩
      · rw [hs]
        exact ⟨rfl, .inr (.inr hs)⟩
    obtain ⟨hcounts, hmode⟩ := hrest hnext.2
    exact ⟨hcounts.trans hnext.1, hmode⟩

theorem Unmarked.level {text : String} (h : Unmarked text) : Level [text] := by
  -- the text may have several lines, each of which starts outside comments
  have hlines : ∀ lines : List (List Char), (∀ line ∈ lines, line <:+: text.toList) →
      depthAfter 0 lines = some 0 := by
    intro lines
    induction lines with
    | nil => exact fun _ => rfl
    | cons line lines ih =>
      intro hinfix
      have hline := hinfix line List.mem_cons_self
      obtain ⟨hcounts, hmode⟩ := Scan.run_unmarked
        (fun c hc => h.marks c (hline.subset hc))
        ( List.IsChain.infix (isChain_apart h.comments) hline)
        (.inl rfl : Scan.start.mode = .code ∨ _)
      have hscan : scanLine false line = ({}, false) := Prod.ext hcounts hmode
      rw [depthAfter, hscan]
      exact ih fun other hother => hinfix other (List.mem_cons_of_mem _ hother)
  rw [Level, List.flatMap_singleton]
  exact hlines _ (infix_of_mem_splitLines text.toList).2

end Source
end Stencil
