import Mathlib.Tactic.Common
import Stencil.Proofs.Factor.Tour

/-!
# The text of programs

How the text of a program is rewritten, and when two programs differ only in how their text is
divided. This file defines:

* `replace f`         : the statements without parts are replaced by what `f` gives for them;
* `trim`, `restore`   : empty text is left out, and shared constants become text again;
* `fuse`              : adjacent text is joined, and empty text is left out;
* `texts`, `references` : the text and the constants among statements.

Programs with the same `fuse` have the same statements other than text, in the same order and with
the same text between them.
-/

namespace Stencil
namespace Factor

open Template (Expr Hash PathExpr Program Span Statement)

/-! ## Traversals -/

section Traversal

variable {m : Type → Type} [Monad m] [LawfulMonad m] (content : String → Span → m Program)
  (enter : String → m Unit)

/-- A block is traversed as its body and then its inverse. -/
theorem traverseStatement_block (head : PathExpr) (params : List Expr) (hash : Hash)
    (binders : List String) (body : Program) (inverse : Option Program) (span : Span) :
    traverseStatement content enter (.block head params hash binders body inverse span) = (do
      let body ← traverseProgram content enter body
      let otherwise ← traverseProgram content enter (inverse.getD [])
      return [.block head params hash binders body (inverse.map fun _ => otherwise) span]) := by
  cases inverse with
  | none => simp [traverseStatement, traverseProgram]
  | some otherwise => simp [traverseStatement]

omit [LawfulMonad m] in
theorem traverseProgram_cons (s : Statement) (rest : Program) :
    traverseProgram content enter (s :: rest) = (do
      let first ← traverseStatement content enter s
      return first ++ (← traverseProgram content enter rest)) := by
  simp only [traverseProgram]

theorem traverseProgram_append (P Q : Program) :
    traverseProgram content enter (P ++ Q) = (do
      let first ← traverseProgram content enter P
      return first ++ (← traverseProgram content enter Q)) := by
  induction P with
  | nil => simp [traverseProgram]
  | cons s P ih => simp [traverseProgram, ih, ← List.append_assoc]

theorem traverseProgram_singleton (s : Statement) :
    traverseProgram content enter [s] = traverseStatement content enter s := by
  simp [traverseProgram]

end Traversal

/-! ## Replacing statements -/

mutual

/-- Replaces the statements without parts, at all depths. -/
def replaceStatement (f : Statement → Program) : Statement → Program
  | .block head params hash binders body none span =>
    [.block head params hash binders (replace f body) none span]
  | .block head params hash binders body (some otherwise) span =>
    [.block head params hash binders (replace f body) (some (replace f otherwise)) span]
  | .inclusion name params hash span => [.inclusion name params hash span]
  | s => f s

@[inherit_doc replaceStatement]
def replace (f : Statement → Program) : Program → Program
  | [] => []
  | s :: rest => replaceStatement f s ++ replace f rest

end

variable {f : Statement → Program}

@[simp] theorem replace_nil : replace f [] = [] := by simp [replace]

@[simp] theorem replace_cons (s : Statement) (rest : Program) :
    replace f (s :: rest) = replaceStatement f s ++ replace f rest := by
  simp [replace]

theorem replace_append (P Q : Program) : replace f (P ++ Q) = replace f P ++ replace f Q := by
  induction P with
  | nil => simp
  | cons s P ih => simp [ih]

theorem replaceStatement_leaf {s : Statement} (h : isLeaf s = true) :
    replaceStatement f s = f s := by
  cases s with
  | block => cases h
  | inclusion => cases h
  | _ => simp [replaceStatement]

theorem replace_leaf {s : Statement} (h : isLeaf s = true) : replace f [s] = f s := by
  simp [replaceStatement_leaf h]

@[simp] theorem replaceStatement_block (head : PathExpr) (params : List Expr) (hash : Hash)
    (binders : List String) (body : Program) (inverse : Option Program) (span : Span) :
    replaceStatement f (.block head params hash binders body inverse span) =
      [.block head params hash binders (replace f body) (inverse.map (replace f)) span] := by
  cases inverse with
  | none => simp [replaceStatement]
  | some otherwise => simp [replaceStatement]

@[simp] theorem replaceStatement_inclusion (name : String) (params : List Expr) (hash : Hash)
    (span : Span) :
    replaceStatement f (.inclusion name params hash span) = [.inclusion name params hash span] := by
  simp [replaceStatement]

theorem replace_getD (inverse : Option Program) :
    replace f (inverse.getD []) = (inverse.map (replace f)).getD [] := by
  cases inverse with
  | none => simp
  | some otherwise => rfl

/-- A statement, unless it is empty text. -/
def trimLeaf : Statement → Program
  | .content value span => if value.isEmpty then [] else [.content value span]
  | s => [s]

/-- A program without its empty text. -/
def trim (program : Program) : Program := replace trimLeaf program

/-- A reference to a constant as the text of the constant. -/
def restoreLeaf (constants : List (String × String)) : Statement → Program
  | .constant name span =>
    match constants.lookup name with
    | some value => [.content value span]
    | none => [.constant name span]
  | s => [s]

/-- A program with the text of its constants. -/
def restore (constants : List (String × String)) (program : Program) : Program :=
  replace (restoreLeaf constants) program

/-! ## The text among statements -/

/-- The text of a statement, unless it is empty. -/
def textOf? : Statement → Option String
  | .content value _ => if value.isEmpty then none else some value
  | _ => none

/-- The text that is not empty among statements. -/
def texts (leaves : List Statement) : List String := leaves.filterMap textOf?

/-- The constant that a statement refers to. -/
def reference? : Statement → Option String
  | .constant name _ => some name
  | _ => none

/-- The constants that statements refer to, in order and with repetitions. -/
def references (leaves : List Statement) : List String := leaves.filterMap reference?

@[simp] theorem texts_nil : texts [] = [] := rfl

@[simp] theorem references_nil : references [] = [] := rfl

theorem texts_append (leaves more : List Statement) :
    texts (leaves ++ more) = texts leaves ++ texts more :=
  List.filterMap_append

theorem texts_cons (s : Statement) (leaves : List Statement) :
    texts (s :: leaves) = texts [s] ++ texts leaves :=
  texts_append [s] leaves

theorem references_append (leaves more : List Statement) :
    references (leaves ++ more) = references leaves ++ references more :=
  List.filterMap_append

/-! ## Joining text -/

/-- A statement before statements whose text is joined. -/
def fuseOnto : Statement → Program → Program
  | .content value span, rest =>
    if value.isEmpty then rest
    else
      match rest with
      | .content more _ :: rest => .content (value ++ more) span :: rest
      | rest => .content value span :: rest
  | s, rest => s :: rest

mutual

/-- A statement with the text in its branches joined. -/
def fuseInside : Statement → Statement
  | .block head params hash binders body none span =>
    .block head params hash binders (fuse body) none span
  | .block head params hash binders body (some otherwise) span =>
    .block head params hash binders (fuse body) (some (fuse otherwise)) span
  | s => s

/-- A program with its adjacent text joined at all depths and without its empty text. Joined text
stands at the place of its first part. -/
def fuse : Program → Program
  | [] => []
  | s :: rest => fuseOnto (fuseInside s) (fuse rest)

end

@[simp] theorem fuse_nil : fuse [] = [] := by simp [fuse]

@[simp] theorem fuse_cons (s : Statement) (rest : Program) :
    fuse (s :: rest) = fuseOnto (fuseInside s) (fuse rest) := by
  simp [fuse]

theorem fuse_append (P Q : Program) :
    fuse (P ++ Q) = P.foldr (fun s rest => fuseOnto (fuseInside s) rest) (fuse Q) := by
  induction P with
  | nil => rfl
  | cons s P ih => simp [ih]

theorem fuseInside_leaf {s : Statement} (h : isLeaf s = true) : fuseInside s = s := by
  cases s with
  | block => cases h
  | _ => simp [fuseInside]

@[simp] theorem fuseInside_block (head : PathExpr) (params : List Expr) (hash : Hash)
    (binders : List String) (body : Program) (inverse : Option Program) (span : Span) :
    fuseInside (.block head params hash binders body inverse span) =
      .block head params hash binders (fuse body) (inverse.map fuse) span := by
  cases inverse with
  | none => simp [fuseInside]
  | some otherwise => simp [fuseInside]

/-- Text in two parts at one place is joined like the whole text. -/
theorem fuseOnto_fuseOnto (first second : String) (span : Span) (rest : Program) :
    fuseOnto (.content first span) (fuseOnto (.content second span) rest) =
      fuseOnto (.content (first ++ second) span) rest := by
  by_cases hfirst : first = ""
  · simp [fuseOnto, hfirst]
  · by_cases hsecond : second = ""
    · simp [fuseOnto, hsecond]
    · have hboth : first ++ second ≠ "" := by simp [hfirst]
      unfold fuseOnto
      simp only [String.isEmpty_iff, hfirst, hsecond, hboth, if_false]
      cases rest with
      | nil => rfl
      | cons s rest =>
        cases s with
        | content more span' => simp [String.append_assoc]
        | _ => rfl

/-- The parts of a text at one place are joined to that text. -/
theorem fuse_parts (parts : List (List Char)) (span : Span) (rest : Program) :
    (parts.map fun part => Statement.content (String.ofList part) span).foldr
        (fun s rest => fuseOnto (fuseInside s) rest) rest =
      fuseOnto (.content (String.ofList parts.flatten) span) rest := by
  induction parts with
  | nil => simp [fuseOnto]
  | cons part parts ih =>
    calc
      _ = fuseOnto (.content (String.ofList part) span)
            (fuseOnto (.content (String.ofList parts.flatten) span) rest) := by
          rw [List.map_cons, List.foldr_cons, ih, fuseInside_leaf rfl]
      _ = fuseOnto (.content (String.ofList (part :: parts).flatten) span) rest := by
          rw [fuseOnto_fuseOnto, List.flatten_cons, String.ofList_append]

end Factor
end Stencil
