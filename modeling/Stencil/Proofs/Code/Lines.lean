import Stencil.Proofs.Code.Parts
import Stencil.Proofs.Source.Braces
import Stencil.Proofs.Tidy

/-!
# Lines of generated code

Code is written in lines whose braces are balanced, whatever the text is that it appends. This file
defines:

* `Part.Spelled` : all names in a part of code are plain.

A literal hides what is in it (`neutral_literal`), so that a statement of spelled parts becomes
level lines (`Stmt.level_allLines`).
-/

namespace Stencil
namespace Source

open Name (Tidy)

/-! ## Plain text -/

theorem isPlain_of_isIdentifierRest {c : Char} (h : Name.isIdentifierRest c = true) :
    isPlain c = true := by
  have hne : ∀ d : Char, Name.isIdentifierRest d = false → c ≠ d := by
    rintro d hd rfl
    exact absurd (h.symm.trans hd) (by decide)
  simp [isPlain, hne '"' (by decide), hne '\'' (by decide), hne '/' (by decide),
    hne '\x7b' (by decide), hne '\x7d' (by decide), hne '\n' (by decide)]

section

variable {text other : String}

theorem Plain.of_tidy (h : Tidy text) : Plain text :=
  fun c hc => isPlain_of_isIdentifierRest (h c hc)

instance (text : String) : Decidable (Plain text) :=
  List.decidableBAll _ _

theorem Plain.append (h : Plain text) (h' : Plain other) : Plain (text ++ other) := by
  intro c hc
  rw [String.toList_append] at hc
  exact (List.mem_append.1 hc).elim (h c) (h' c)

end

/-- Pieces without braces, with another one between them. -/
theorem Neutral.intercalate {separator : String} (hseparator : Neutral separator)
    {pieces : List String} (h : ∀ piece ∈ pieces, Neutral piece) :
    Neutral (separator.intercalate pieces) := by
  induction pieces with
  | nil => exact (by decide : Neutral "")
  | cons piece pieces ih =>
    obtain ⟨hpiece, hpieces⟩ := List.forall_mem_cons.1 h
    cases pieces with
    | nil =>
      rw [String.intercalate_singleton]
      exact hpiece
    | cons next pieces =>
      rw [String.intercalate_cons_cons]
      exact (hpiece.append hseparator).append (ih hpieces)

end Source

namespace Code

open Source (Level Neutral Plain Reads Scan)

/-! ## Literals -/

/-- A hexadecimal digit ends no literal and starts no escape. -/
theorem hexDigit_ne {n : Nat} (h : n < 16) :
    hexDigit n ≠ '\\' ∧ hexDigit n ≠ '"' ∧ hexDigit n ≠ '\n' := by
  have hall : ∀ k : Fin 16, hexDigit k ≠ '\\' ∧ hexDigit k ≠ '"' ∧ hexDigit k ≠ '\n' := by decide
  exact hall ⟨n, h⟩

theorem escapeLetter?_ne {c letter : Char} (h : escapeLetter? c = some letter) : letter ≠ '\n' := by
  unfold escapeLetter? at h
  grind

theorem ne_of_escapeLetter?_none {c : Char} (h : escapeLetter? c = none) : c ≠ '\\' ∧ c ≠ '"' := by
  refine ⟨?_, ?_⟩
  · rintro rfl
    cases h
  · rintro rfl
    cases h

section

variable {s : Scan}

/-- Inside a literal, a character after a backslash is passed over. -/
theorem run_escaped (hs : s.mode = .quoted '"') (c : Char) : s.run ['\\', c] = s := by
  have hfirst : s.step '\\' = { s with mode := .escaped '"' } := by
    rw [Scan.step, hs]
    rfl
  rw [Scan.run_cons, hfirst]
  change { s with mode := .quoted '"' } = s
  rw [← hs]

/-- Inside a literal, a character that is no backslash and no quote is passed over. -/
theorem step_quoted (hs : s.mode = .quoted '"') {c : Char} (h : c ≠ '\\') (h' : c ≠ '"') :
    s.step c = s := by
  simp [Scan.step, hs, h, h']

theorem run_escapeByte (hs : s.mode = .quoted '"') (b : UInt8) : s.run (escapeByte b) = s := by
  have hb : b.toNat < 256 := b.toNat_lt
  obtain ⟨hhigh, hhigh', _⟩ := hexDigit_ne (by omega : b.toNat / 16 < 16)
  obtain ⟨hlow, hlow', _⟩ := hexDigit_ne (by omega : b.toNat % 16 < 16)
  change (s.run ['\\', 'x']).run [hexDigit (b.toNat / 16), hexDigit (b.toNat % 16)] = s
  rw [run_escaped hs, Scan.run_cons, step_quoted hs hhigh hhigh', Scan.run_cons,
    step_quoted hs hlow hlow']
  rfl

theorem run_flatMap {α : Type} {xs : List α} {f : α → List Char} (h : ∀ x, s.run (f x) = s) :
    s.run (xs.flatMap f) = s := by
  induction xs with
  | nil => rfl
  | cons x xs ih => rw [List.flatMap_cons, Scan.run_append, h, ih]

theorem run_escapeChar (hs : s.mode = .quoted '"') (c : Char) : s.run (escapeChar c) = s := by
  unfold escapeChar
  split
  · exact run_escaped hs _
  · next hletter =>
    obtain ⟨hescape, hquote⟩ := ne_of_escapeLetter?_none hletter
    split
    · exact step_quoted hs hescape hquote
    · exact run_flatMap (run_escapeByte hs)

end

/-- No line ends inside a literal. -/
theorem lineFeed_not_mem_escapeChar (c : Char) : '\n' ∉ escapeChar c := by
  unfold escapeChar
  split
  · next hletter =>
    have hne := escapeLetter?_ne hletter
    simp [Ne.symm hne]
  · split
    · next hprint =>
      intro hmem
      cases List.mem_singleton.1 hmem
      exact absurd hprint (by decide)
    · intro hmem
      obtain ⟨b, _, hb⟩ := List.mem_flatMap.1 hmem
      have hlt : b.toNat < 256 := b.toNat_lt
      have hhigh := (hexDigit_ne (by omega : b.toNat / 16 < 16)).2.2
      have hlow := (hexDigit_ne (by omega : b.toNat % 16 < 16)).2.2
      simp [escapeByte, Ne.symm hhigh, Ne.symm hlow] at hb

/-- A literal hides the braces, the quotes, the comments and the line ends of its text. -/
theorem neutral_literal (text : String) : Neutral (literal text) := by
  have hchars : (literal text).toList = '"' :: (text.toList.flatMap escapeChar ++ ['"']) := by
    simp [literal, escape]
  -- each escaped character leads from inside the literal to inside the literal
  have hrun : Scan.start.run (literal text).toList = { mode := .code, leading := false } := by
    rw [hchars, Scan.run_cons, Scan.run_append, run_flatMap (run_escapeChar rfl)]
    rfl
  refine ⟨?_, by rw [hrun], by rw [hrun], by rw [hrun]⟩
  rw [hchars]
  intro hmem
  obtain hmem | hmem := List.mem_cons.1 hmem
  · exact absurd hmem (by decide)
  · obtain hmem | hmem := List.mem_append.1 hmem
    · obtain ⟨c, _, hc⟩ := List.mem_flatMap.1 hmem
      exact lineFeed_not_mem_escapeChar c hc
    · exact absurd hmem (by decide)

/-! ## Expressions -/

theorem plain_qualified {group : Option String} {name : String} (hgroup : ∀ g ∈ group, Plain g)
    (hname : Plain name) : Plain (qualified group name) := by
  cases group with
  | none => exact hname
  | some library => exact ((hgroup library rfl).append (by decide)).append hname

/-- All names in an expression are plain. -/
def Atom.Spelled : Atom → Prop
  | .literal _ => True
  | .constant name => Plain name
  | .value path | .number _ path _ => Plain path.text
  | .call group name context => Plain (qualified group name) ∧ Plain context.text

/-- All names in a part of code are plain. -/
def Part.Spelled : Part → Prop
  | .atom a => a.Spelled
  | .condition path => Plain path.text
  | .loop index items => Plain index ∧ Plain items.text

theorem Atom.neutral {a : Atom} (h : a.Spelled) : Neutral a.text := by
  cases a with
  | literal text => exact neutral_literal text
  | constant name => exact Plain.neutral h
  | value path => exact Plain.neutral h
  | number signed path decimals =>
    have hfunction : Plain (formatFunction signed) := by
      cases signed <;> decide
    refine Plain.neutral ?_
    exact (((((((by decide : Plain helperLibraryName).append (by decide)).append hfunction).append
      (by decide)).append h).append (by decide)).append (.of_tidy (.repr decimals))).append
        (by decide)
  | call group name context =>
    exact Plain.neutral (((h.1.append (by decide)).append h.2).append (by decide))

theorem Atom.neutral_operand {a : Atom} (h : a.Spelled) : Neutral a.operandText := by
  unfold operandText
  split
  · exact ((by decide : Neutral "string(").append (neutral h)).append (by decide : Neutral ")")
  · exact neutral h

theorem Condition.plain {c : Condition} (h : Plain c.path.text) : Plain c.text := by
  refine Plain.append ?_ h
  split
  · decide
  · decide

theorem Fragment.neutral {f : Fragment} (h : ∀ part ∈ f.parts, part.Spelled) : Neutral f.text := by
  cases f with
  | atom a => exact Atom.neutral (h _ List.mem_cons_self)
  | select condition whenTrue whenFalse =>
    have hcondition : Part.Spelled (.condition condition.path) :=
      h _ (by cases whenFalse <;> simp [parts])
    have htrue : Part.Spelled (.atom whenTrue) := h _ (by cases whenFalse <;> simp [parts])
    have htest := (Condition.plain hcondition).neutral.append (by decide : Neutral " ? ")
    have hchoice := (htest.append (Atom.neutral_operand htrue)).append (by decide : Neutral " : ")
    cases whenFalse with
    | none => exact hchoice.append (by decide : Neutral "\"\"")
    | some a =>
      have ha : Part.Spelled (.atom a) := h _ (by simp [parts])
      exact hchoice.append (Atom.neutral_operand ha)

theorem neutral_appendStatement {items : List String} (h : ∀ item ∈ items, Neutral item) :
    Neutral (appendStatement items) := by
  have hitems : ∀ item ∈ resultName :: items, Neutral item := by
    intro item hitem
    obtain rfl | hitem := List.mem_cons.1 hitem
    · decide
    · exact h item hitem
  have hhead : Neutral (resultName ++ " = string(abi.encodePacked(") := by decide
  unfold appendStatement
  exact (hhead.append (Neutral.intercalate (by decide) hitems)).append (by decide : Neutral "));")

/-! ## Statements -/

theorem reads_loopHead {index : String} {items : AccessPath}
    (h : Part.Spelled (.loop index items)) : Reads (loopHead index items) 1 0 := by
  obtain ⟨hindex, hitems⟩ := h
  have hstart : Plain ("for(uint256 " ++ index ++ "; " ++ index ++ " < " ++ items.text) :=
    (((((by decide : Plain "for(uint256 ").append hindex).append (by decide)).append hindex).append
      (by decide)).append hitems
  have hrest : Plain ("for(uint256 " ++ index ++ "; " ++ index ++ " < " ++ items.text ++
      ".length; " ++ index) :=
    (hstart.append (by decide)).append hindex
  unfold loopHead
  exact hrest.neutral.append (by decide : Reads "++) \x7b" 1 0)

theorem reads_branchHead {condition : Condition} (h : Part.Spelled (.condition condition.path)) :
    Reads (branchHead condition) 1 0 := by
  have hstart : Plain ("if(" ++ condition.text) :=
    (by decide : Plain "if(").append (Condition.plain h)
  unfold branchHead
  exact hstart.neutral.append (by decide : Reads ") \x7b" 1 0)

mutual

theorem Stmt.level_lines (around : List String) : (s : Stmt) →
    (∀ x ∈ s.parts around, x.2.Spelled) → Level s.lines
  | .append items, h => by
    refine (neutral_appendStatement ?_).level
    intro item hitem
    obtain ⟨f, hf, rfl⟩ := List.mem_map.1 hitem
    refine Fragment.neutral ?_
    intro part hpart
    refine h (around, part) ?_
    rw [Stmt.parts]
    exact List.mem_flatMap.2 ⟨f, hf, List.mem_map_of_mem hpart⟩
  | .loop index items body, h => by
    rw [Stmt.parts] at h
    rw [Stmt.lines]
    obtain ⟨hhead, hbody⟩ := List.forall_mem_cons.1 h
    exact .block (reads_loopHead hhead) (Stmt.level_allLines (index :: around) body hbody)
      (by decide)
  | .branch condition body, h => by
    rw [Stmt.parts] at h
    rw [Stmt.lines]
    obtain ⟨hhead, hbody⟩ := List.forall_mem_cons.1 h
    exact .block (reads_branchHead hhead) (Stmt.level_allLines around body hbody) (by decide)
  | .branchElse condition body otherwise, h => by
    rw [Stmt.parts] at h
    rw [Stmt.lines]
    obtain ⟨hhead, hsides⟩ := List.forall_mem_cons.1 h
    obtain ⟨hbody, hotherwise⟩ := List.forall_mem_append.1 hsides
    -- the line between the sides closes one brace and opens another
    have hbetween : Reads "\x7d else \x7b" 1 1 := by decide
    have hinside := (Stmt.level_allLines around body hbody).append
      (hbetween.level.cons (Stmt.level_allLines around otherwise hotherwise))
    have hblock := Level.block (reads_branchHead hhead) hinside (by decide : Reads "\x7d" 0 1)
    simpa using hblock

theorem Stmt.level_allLines (around : List String) : (code : List Stmt) →
    (∀ x ∈ Stmt.allParts around code, x.2.Spelled) → Level (Stmt.allLines code)
  | [], _ => .nil
  | s :: rest, h => by
    rw [Stmt.allParts] at h
    obtain ⟨hs, hrest⟩ := List.forall_mem_append.1 h
    rw [Stmt.allLines]
    exact (Stmt.level_lines around s hs).append (Stmt.level_allLines around rest hrest)

end

end Code
end Stencil
