import Stencil.Proofs.Lower.FixedBytes
import Stencil.Proofs.Source.Indentation

/-!
# The sides of choices

Where both branches of a condition are a single expression, they become the two sides of a choice,
which have to be strings. Literals are converted, and all else is taken to be a string already. This
file defines:

* `Stmt.allFragments`, `Fragment.operands` : what code appends, and the sides of choices in it;
* `StringData`, `StringOperand`            : data, and a side of a choice, that is a string.

By the main result `lower_operands`, data of the input is a string on a side of a choice just if no
tag asks for fixed bytes at its place, in any function that the place is known to.
-/

namespace Stencil
namespace Code

open Source (Plain)

/-! ## Choices in code -/

/-- The expressions that a choice is between. A missing one is the empty literal. -/
def Fragment.operands : Fragment → List Atom
  | .atom _ => []
  | .select _ whenTrue whenFalse => whenTrue :: whenFalse.toList

mutual

/-- What a statement appends to the result. -/
def Stmt.fragments : Stmt → List Fragment
  | .append items => items
  | .loop _ _ body | .branch _ body => Stmt.allFragments body
  | .branchElse _ body otherwise => Stmt.allFragments body ++ Stmt.allFragments otherwise

def Stmt.allFragments : List Stmt → List Fragment
  | [] => []
  | s :: rest => s.fragments ++ Stmt.allFragments rest

end

theorem Fragment.mem_parts_of_operands {f : Fragment} {a : Atom} (h : a ∈ f.operands) :
    .atom a ∈ f.parts := by
  cases f with
  | atom => cases h
  | select condition whenTrue whenFalse =>
    cases whenFalse with
    | none => simpa [operands, parts] using h
    | some other => simpa [operands, parts] using h

mutual

theorem Stmt.mem_parts_of_fragments (around : List String) {f : Fragment} {part : Part}
    (hpart : part ∈ f.parts) :
    (s : Stmt) → f ∈ s.fragments → ∃ loops, (loops, part) ∈ s.parts around
  | .append items, h =>
    ⟨around, List.mem_flatMap.2 ⟨f, h, List.mem_map.2 ⟨part, hpart, rfl⟩⟩⟩
  | .loop index items body, h => by
    obtain ⟨loops, hmem⟩ := mem_allParts_of_fragments (index :: around) hpart body h
    exact ⟨loops, List.mem_cons_of_mem _ hmem⟩
  | .branch condition body, h => by
    obtain ⟨loops, hmem⟩ := mem_allParts_of_fragments around hpart body h
    exact ⟨loops, List.mem_cons_of_mem _ hmem⟩
  | .branchElse condition body otherwise, h => by
    obtain h | h := List.mem_append.1 h
    · obtain ⟨loops, hmem⟩ := mem_allParts_of_fragments around hpart body h
      exact ⟨loops, List.mem_cons_of_mem _ (List.mem_append_left _ hmem)⟩
    · obtain ⟨loops, hmem⟩ := mem_allParts_of_fragments around hpart otherwise h
      exact ⟨loops, List.mem_cons_of_mem _ (List.mem_append_right _ hmem)⟩

/-- A part of what is appended is a part of the code. -/
theorem Stmt.mem_allParts_of_fragments (around : List String) {f : Fragment} {part : Part}
    (hpart : part ∈ f.parts) : (code : List Stmt) → f ∈ Stmt.allFragments code →
      ∃ loops, (loops, part) ∈ Stmt.allParts around code
  | [], h => by cases h
  | s :: rest, h => by
    obtain h | h := List.mem_append.1 h
    · obtain ⟨loops, hmem⟩ := s.mem_parts_of_fragments around hpart h
      exact ⟨loops, List.mem_append_left _ hmem⟩
    · obtain ⟨loops, hmem⟩ := mem_allParts_of_fragments around hpart rest h
      exact ⟨loops, List.mem_append_right _ hmem⟩

end

/-! ## Spelling of operands -/

/-- A text starts with a quote, as literals do. -/
def Quoted (text : String) : Prop := text.toList.head? = some '"'

theorem quoted_literal (text : String) : Quoted (literal text) := by
  simp [Quoted, literal, String.toList_append]

theorem not_quoted_append {text : String} (h : Plain text) (hne : text ≠ "") (rest : String) :
    ¬ Quoted (text ++ rest) := by
  -- the first character is one of the plain text
  intro hquoted
  unfold Quoted at hquoted
  rw [String.toList_append] at hquoted
  cases htext : text.toList with
  | nil => exact hne (String.toList_eq_nil_iff.1 htext)
  | cons c cs =>
    rw [htext] at hquoted
    have hplain := h c (htext ▸ List.mem_cons_self)
    cases Option.some.inj hquoted
    exact absurd hplain (by decide)

def Atom.isLiteral : Atom → Bool
  | .literal _ => true
  | _ => false

/-- Expressions are converted if they start with a quote. -/
theorem Atom.operandText_eq_text_iff {a : Atom} : a.operandText = a.text ↔ ¬ Quoted a.text := by
  unfold operandText Quoted
  split
  · next hquoted =>
    refine iff_of_false ?_ (not_not_intro (beq_iff_eq.1 hquoted))
    intro hsame
    have hlength := congrArg String.length hsame
    have hconverted : "string(".length = 7 := by decide
    rw [String.length_append, String.length_append] at hlength
    omega
  · next hquoted => exact iff_of_true rfl (by simpa using hquoted)

theorem operandText_literal (text : String) :
    (Atom.literal text).operandText = "string(" ++ (Atom.literal text).text ++ ")" := by
  have hquoted : (Atom.literal text).text.toList.head? = some '"' := quoted_literal text
  rw [Atom.operandText, hquoted]
  rfl

/-- Formatted numbers are no literals. -/
theorem not_quoted_number (signed : Bool) (path : AccessPath) (decimals : Nat) :
    ¬ Quoted (Atom.number signed path decimals).text := by
  have hplain : Plain helperLibraryName := by decide
  simp only [Atom.text, helperCall, String.append_assoc]
  exact not_quoted_append hplain (by decide) _

/-- Data of the input is no literal. -/
theorem not_quoted_value {path : AccessPath} (h : path.origin = .input) :
    ¬ Quoted (Atom.value path).text := by
  have hplain : Plain inputName := by decide
  rw [Atom.text, AccessPath.text, h]
  exact not_quoted_append hplain (by decide) _

/-- Calls are no literals. -/
theorem not_quoted_call {group : Option String} {name : String} (hgroup : ∀ g ∈ group, Plain g)
    (hname : Plain name) (context : AccessPath) :
    ¬ Quoted (Atom.call group name context).text := by
  have hplain : Plain (qualified group name ++ "(") :=
    (plain_qualified hgroup hname).append (by decide)
  have hne : qualified group name ++ "(" ≠ "" := by
    intro hempty
    have hlist := congrArg String.toList hempty
    simp at hlist
  rw [Atom.text, String.append_assoc]
  exact not_quoted_append hplain hne _

/-- Literals are converted, and of all else only constants that have the name of a literal. -/
theorem Atom.converted_iff {a : Atom}
    (hcall : ∀ group name context, a = .call group name context →
      (∀ g ∈ group, Plain g) ∧ Plain name)
    (hvalue : ∀ path, a = .value path → path.origin = .input) :
    a.operandText = (if a.isLiteral then "string(" ++ a.text ++ ")" else a.text) ↔
      ∀ n, a = .constant n → ¬ Quoted n := by
  cases a with
  | literal text => exact iff_of_true (operandText_literal text) (by rintro n ⟨⟩)
  | constant n =>
    refine Atom.operandText_eq_text_iff.trans ⟨?_, fun h => h n rfl⟩
    rintro h _ ⟨⟩
    exact h
  | value path =>
    have hplain := not_quoted_value (hvalue path rfl)
    exact iff_of_true (Atom.operandText_eq_text_iff.2 hplain) (by rintro n ⟨⟩)
  | number signed path decimals =>
    have hplain := not_quoted_number signed path decimals
    exact iff_of_true (Atom.operandText_eq_text_iff.2 hplain) (by rintro n ⟨⟩)
  | call group name context =>
    obtain ⟨hgroup, hname⟩ := hcall group name context rfl
    have hplain := not_quoted_call hgroup hname context
    exact iff_of_true (Atom.operandText_eq_text_iff.2 hplain) (by rintro n ⟨⟩)

end Code

/-! ## Operands that are strings -/

namespace Lower

open Code (Atom Fragment Quoted Stmt)
open Source (Plain)
open Template (Program)
open Stencil.Types (Naming NodeId Shape Store)

/-- Data of the input is a string without a fixed length, so that its type is `string`. -/
def StringData (s : Store) (input : NodeId) (path : AccessPath) : Prop :=
  path.origin = .input ∧ ∃ id, Walks s input path.accessors id ∧ s.get id = .string none ∧
    ∀ names : Naming, names.typeName s id = .ok "string"

/-- An operand is a string. Constants and calls are strings as they are. -/
structure StringOperand (s : Store) (input : NodeId) (a : Atom) : Prop where
  /-- Literals are converted, and nothing else is. -/
  converted : a.operandText = if a.isLiteral then "string(" ++ a.text ++ ")" else a.text
  data : ∀ path, a = .value path → StringData s input path

theorem typeName_string {s : Store} {id : NodeId} (h : s.get id = .string none) (names : Naming) :
    names.typeName s id = .ok "string" := by
  rw [Naming.typeName, h]
  change names.plainTypeName s id = _
  rw [Naming.plainTypeName, h]

/-- What is written as it is has been used as a text. -/
theorem Use.ShownBy.asks_string {use : Use} {path : AccessPath}
    (h : use.ShownBy path (.atom (.value path))) : ∃ length, use.asks = some (.string, length) := by
  cases use with
  | text => exact ⟨none, rfl⟩
  | bytes width => exact ⟨some width, rfl⟩
  | number =>
    obtain ⟨decimals, h⟩ := h
    cases h
  | items =>
    obtain ⟨index, h⟩ := h
    cases h
  | context =>
    obtain ⟨group, name, h⟩ := h
    cases h
  | flag => cases h
  | place => exact h.elim

section

variable {programs : List (String × Program)} {program P : Program} {l : Lowered}
  {name : Option String} {code : List Stmt} {input : NodeId}

/-- Data of the input that is written as it is: its node is a text, and it has a fixed length just
where fixed bytes are asked for. -/
theorem Routine.value_node (h : Routine programs program l name P code input)
    (hl : lower programs program = .ok l) {path : AccessPath} {around : List String}
    (hpart : (around, .atom (.value path)) ∈ Stmt.allParts [] code) {steps : List Step}
    (hplace : path.place = some steps) :
    ∃ id length, Walks l.store input path.accessors id ∧ l.store.get id = .string length ∧
      (length = none ↔ ¬ FixedBytes programs program l name steps) := by
  obtain ⟨_, hst, hstore, _⟩ := lower_valid hl
  have hforest : l.store.Forest := hstore ▸ hst.forest
  obtain ⟨horigin, rfl⟩ := AccessPath.input_of_place hplace
  obtain ⟨v, hwritten⟩ := h.writes hl
  -- a tag uses the path as a text, so that the node is one
  obtain ⟨use, huses, hshown⟩ := hwritten.used _ hpart path (List.mem_singleton.2 rfl)
  obtain ⟨asked, hasks⟩ := hshown.asks_string
  have hdemand : use.demand? path = some ⟨path, .string, asked⟩ := by
    rw [Use.demand?, hasks]
    rfl
  obtain ⟨u, hu, hle⟩ := h.met hl huses _ hdemand horigin
  have hfixed := h.fixedBytes_iff hl hu (hle.1 .string rfl)
  rw [Store.follow_shape hforest] at hu
  obtain ⟨id, hid, rfl⟩ := Option.map_eq_some_iff.1 hu
  have hkind := hle.1 .string rfl
  rw [Store.label_shape hforest] at hkind hfixed
  cases hget : l.store.get id with
  | string length =>
    rw [hget] at hfixed
    exact ⟨id, length, walks_iff.2 hid, hget, by rw [hfixed, not_not]; rfl⟩
  | _ =>
    rw [hget] at hkind
    cases hkind

/-- Data that is written as it is is a string just if it is data of the input, at a place where no
fixed bytes are asked for. -/
theorem Routine.stringData_iff (h : Routine programs program l name P code input)
    (hl : lower programs program = .ok l) {path : AccessPath} {around : List String}
    (hpart : (around, .atom (.value path)) ∈ Stmt.allParts [] code) :
    StringData l.store input path ↔
      ∃ steps, path.place = some steps ∧ ¬ FixedBytes programs program l name steps := by
  constructor
  · rintro ⟨horigin, id, hwalks, hget, _⟩
    have hplace := AccessPath.place_of_input horigin
    obtain ⟨id', length, hwalks', hget', hfree⟩ := h.value_node hl hpart hplace
    -- a path leads to one node
    cases Option.some.inj ((walks_iff.1 hwalks).symm.trans (walks_iff.1 hwalks'))
    rw [hget] at hget'
    cases hget'
    exact ⟨_, hplace, hfree.1 rfl⟩
  · rintro ⟨steps, hplace, hfree⟩
    obtain ⟨horigin, _⟩ := AccessPath.input_of_place hplace
    obtain ⟨id, length, hwalks, hget, hlength⟩ := h.value_node hl hpart hplace
    rw [hlength.2 hfree] at hget
    exact ⟨horigin, id, hwalks, hget, typeName_string hget⟩

/-- Calls name partials and libraries in plain characters. -/
theorem Writes.plain_call (h : Writes programs P code) {around : List String}
    {group : Option String} {part : String} {context : AccessPath}
    (hpart : (around, .atom (.call group part context)) ∈ Stmt.allParts [] code) :
    (∀ g ∈ group, Plain g) ∧ Plain part := by
  have hcall : ⟨group, part, context⟩ ∈ Code.calls (Stmt.allParts [] code) :=
    List.mem_filterMap.2 ⟨_, hpart, rfl⟩
  obtain ⟨hname, hgroup⟩ := h.calls_tidy _ hcall
  exact ⟨fun g hg => .of_tidy (hgroup g hg), .of_tidy hname⟩

/-- An operand in the code of a lowered template is a string just if it is no constant with the
name of a literal, and no data where fixed bytes are asked for. -/
theorem lower_operands (h : lower programs program = .ok l)
    (hroutine : Routine programs program l name P code input) {f : Fragment}
    (hf : f ∈ Stmt.allFragments code) {a : Atom} (ha : a ∈ f.operands) :
    StringOperand l.store input a ↔ (∀ n, a = .constant n → ¬ Quoted n) ∧
      ∀ path, a = .value path →
        ∃ steps, path.place = some steps ∧ ¬ FixedBytes programs program l name steps := by
  obtain ⟨around, hpart⟩ :=
    Stmt.mem_allParts_of_fragments [] (Fragment.mem_parts_of_operands ha) code hf
  have hdata : ∀ path, a = .value path → (StringData l.store input path ↔
      ∃ steps, path.place = some steps ∧ ¬ FixedBytes programs program l name steps) := by
    rintro path rfl
    exact hroutine.stringData_iff h hpart
  have hcall : ∀ group part context, a = .call group part context →
      (∀ g ∈ group, Plain g) ∧ Plain part := by
    rintro group part context rfl
    exact (hroutine.writes h).plain_call hpart
  constructor
  · rintro ⟨hconverted, hstring⟩
    refine ⟨?_, fun path heq => (hdata path heq).1 (hstring path heq)⟩
    exact (Atom.converted_iff hcall fun path heq => (hstring path heq).1).1 hconverted
  · rintro ⟨hname, hfree⟩
    have hstring : ∀ path, a = .value path → StringData l.store input path :=
      fun path heq => (hdata path heq).2 (hfree path heq)
    exact ⟨(Atom.converted_iff hcall fun path heq => (hstring path heq).1).2 hname, hstring⟩

end

/-- One of two texts. -/
def choiceCard : Program :=
  [.block { written := "if", parts := ["if"] } [.path { written := "f", parts := ["f"] }] [] []
    [.interpolation (.path { written := "x", parts := ["x"] }) [] [] true {}]
    (some [.content "no" {}]) {}]

/-- A text of eight bytes. -/
def choiceTag : Program :=
  [.interpolation (.path { written := "bytes8", parts := ["bytes8"] })
    [.path { written := "x", parts := ["x"] }] [] true {}]

def choiceParts : List (String × Program) := [("card", choiceCard), ("tag", choiceTag)]

/-- Two partials for the same data. -/
def choicePage : Program := [.inclusion "card" [] [] {}, .inclusion "tag" [] [] {}]

def choiceFragment : Fragment :=
  .select ⟨false, ⟨.input, [.member "f"]⟩⟩ (.value ⟨.input, [.member "x"]⟩) (some (.literal "no"))

/-- One side of a choice is no string, as another partial asks for fixed bytes. -/
theorem lower_operands_choice : ∃ (l : Lowered) (p : LoweredPartial),
    lower choiceParts choicePage = .ok l ∧ p ∈ l.partials ∧ p.name = "card" ∧
    choiceFragment ∈ Stmt.allFragments p.code ∧
    StringOperand l.store p.input (.literal "no") ∧
    FixedBytes choiceParts choicePage l (some "card") [.member "x"] ∧
    ¬ StringOperand l.store p.input (.value ⟨.input, [.member "x"]⟩) := by
  have hrun : endsWith (lowerProgram choiceParts 0 choicePage State.initial)
      (fun st => settlesWith 1 st fun st' =>
        (st'.partials.any fun p => p.name == "card" &&
          (Stmt.allFragments p.code).contains choiceFragment) &&
        st'.partials.any fun p => p.name == "tag") = true := by
    decide +kernel
  obtain ⟨l, st', hlower, hpartials, _, _, hcheck⟩ := exists_lower_of_endsWith hrun
  rw [Bool.and_eq_true, List.any_eq_true, List.any_eq_true] at hcheck
  obtain ⟨⟨p, hp, hcard⟩, q, hq, htag⟩ := hcheck
  rw [Bool.and_eq_true, beq_iff_eq, List.contains_iff_mem] at hcard
  obtain ⟨hname, hfragment⟩ := hcard
  rw [beq_iff_eq] at htag
  rw [← hpartials] at hp hq
  have hpart : Routine choiceParts choicePage l (some "card") choiceCard p.code p.input :=
    hname ▸ .part hp (by rw [hname]; rfl)
  have hother : Routine choiceParts choicePage l (some "tag") choiceTag q.code q.input :=
    htag ▸ .part hq (by rw [htag]; rfl)
  -- the page passes its input to both partials
  have hcards : Passes choiceParts choicePage l none [] "card" :=
    .intro .main .here (.context rfl) rfl
  have htags : Passes choiceParts choicePage l none [] "tag" :=
    .intro .main (.later .here) (.context rfl) rfl
  have huses : Uses {} choiceTag ⟨.input, [.member "x"]⟩ (Helper.use (.bytes 8)) :=
    .helper (by decide +kernel) (by decide +kernel)
  have hfixed : FixedBytes choiceParts choicePage l (some "card") [.member "x"] :=
    .ofCaller hcards (.ofPartial htags (.asked hother huses rfl))
  refine ⟨l, p, hlower, hp, hname, hfragment, ?_, hfixed, ?_⟩
  · have hmem : .literal "no" ∈ choiceFragment.operands := by
      simp [choiceFragment, Fragment.operands]
    refine (lower_operands hlower hpart hfragment hmem).2 ⟨?_, ?_⟩
    all_goals
      rintro x ⟨⟩
  · intro hstring
    obtain ⟨_, hfree⟩ := (lower_operands hlower hpart hfragment List.mem_cons_self).1 hstring
    obtain ⟨steps, hplace, hfree⟩ := hfree _ rfl
    cases hplace
    exact hfree hfixed

end Lower
end Stencil
