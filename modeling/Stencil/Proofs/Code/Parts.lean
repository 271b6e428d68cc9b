import Mathlib.Tactic.Common
import Stencil.Lower.Statement
import Stencil.Proofs.Code.Grouping

/-!
# Parts of generated code

Code is nested statements, and what is written on their lines are a few kinds of parts: expressions,
conditions and heads of loops. This file defines:

* `Part`           : a part of a line;
* `Stmt.allParts`  : the parts of statements in the order of their lines, each with the indices of
  the loops around its line;
* `outputParts`    : the same for what has not been joined to statements yet;
* `calls`          : the calls of partials among parts.

Joining adjacent appends (`allParts_closeAppends`) and choosing the form of a condition
(`outputParts_conditional`) keep the parts of the code in their order.
-/

namespace Stencil
namespace Code

/-! ## Parts -/

/-- What is written on lines of code, besides the words between. -/
inductive Part where
  | atom (a : Atom)
  /-- The flag that a branch or a choice tests. -/
  | condition (path : AccessPath)
  /-- The head of a loop. -/
  | loop (index : String) (items : AccessPath)
  deriving DecidableEq, Repr

/-- A part, with the indices of the loops around its line, the innermost first. -/
abbrev Placed := List String × Part

def Fragment.parts : Fragment → List Part
  | .atom a => [.atom a]
  | .select condition whenTrue none => [.condition condition.path, .atom whenTrue]
  | .select condition whenTrue (some whenFalse) =>
    [.condition condition.path, .atom whenTrue, .atom whenFalse]

mutual

def Stmt.parts (around : List String) : Stmt → List Placed
  | .append items => items.flatMap fun item => item.parts.map (around, ·)
  | .loop index items body => (around, .loop index items) :: Stmt.allParts (index :: around) body
  | .branch condition body => (around, .condition condition.path) :: Stmt.allParts around body
  | .branchElse condition body otherwise =>
    (around, .condition condition.path) ::
      (Stmt.allParts around body ++ Stmt.allParts around otherwise)

/-- The parts of statements. -/
def Stmt.allParts (around : List String) : List Stmt → List Placed
  | [] => []
  | s :: rest => s.parts around ++ Stmt.allParts around rest

end

/-- The parts of outputs. -/
def outputParts (around : List String) (outputs : List (Output Stmt Fragment)) : List Placed :=
  outputs.flatMap fun output => (output.close Stmt.append).parts around

/-- The call of a partial. -/
structure Call where
  group : Option String
  name : String
  context : AccessPath
  deriving DecidableEq, Repr

def Part.call? : Part → Option Call
  | .atom (.call group name context) => some ⟨group, name, context⟩
  | _ => none

/-- The calls among parts, in their order. -/
def calls (parts : List Placed) : List Call := parts.filterMap (·.2.call?)

theorem calls_append (parts others : List Placed) :
    calls (parts ++ others) = calls parts ++ calls others :=
  List.filterMap_append

section

variable (around : List String)

theorem outputParts_append (first others : List (Output Stmt Fragment)) :
    outputParts around (first ++ others) =
      outputParts around first ++ outputParts around others :=
  List.flatMap_append

theorem outputParts_statements (code : List Stmt) :
    outputParts around (code.map .statement) = Stmt.allParts around code := by
  induction code with
  | nil => rfl
  | cons s code ih =>
    rw [Stmt.allParts, ← ih]
    rfl

theorem outputParts_appendAtom (a : Atom) :
    outputParts around (Lower.appendAtom a) = [(around, .atom a)] := by
  simp [outputParts, Lower.appendAtom, Output.close, Stmt.parts, Fragment.parts]

theorem outputParts_loop (index : String) (items : AccessPath) (body : List Stmt) :
    outputParts around [.statement (.loop index items body)] =
      (around, .loop index items) :: Stmt.allParts (index :: around) body := by
  simp [outputParts, Output.close, Stmt.parts]

/-! ## Joining appends -/

theorem outputParts_mergeAppends (outputs : List (Output Stmt Fragment)) :
    outputParts around (mergeAppends outputs) = outputParts around outputs := by
  apply mergeAppends_keeps (outputParts around)
  · intro output xs ys h
    exact congrArg ((output.close Stmt.append).parts around ++ ·) h
  · intro items items' rest
    simp only [outputParts, List.flatMap_cons, Output.close, Stmt.parts, List.flatMap_append,
      List.append_assoc]

/-- Joining adjacent appends keeps the parts. -/
theorem allParts_closeAppends (outputs : List (Output Stmt Fragment)) :
    Stmt.allParts around (closeAppends Stmt.append outputs) = outputParts around outputs := by
  rw [← outputParts_mergeAppends, ← outputParts_statements, closeAppends, outputParts, outputParts,
    List.map_map, List.flatMap_map]
  rfl

end

end Code

namespace Lower

open Code (Placed Stmt outputParts)
open Template (Program)

/-! ## Conditions -/

/-- The parts of one side of a condition. -/
theorem Branch.allParts_of (around : List String) (body : Program) (outputs : List CodeOutput) :
    Stmt.allParts around (Branch.of body outputs).code = outputParts around outputs := by
  unfold Branch.of
  split
  · rfl
  · split
    · exact Code.allParts_closeAppends around _
    · simp [Branch.code, Stmt.allParts, outputParts, Code.Output.close]
  · exact Code.allParts_closeAppends around _

/-- A condition has the parts of its sides, in whatever form it is written. The flag is written
unless both sides are empty. -/
theorem outputParts_conditional (around : List String) (negated : Bool) (path : AccessPath)
    (first second : Branch) :
    ∃ test : List Placed, (test = [] ∨ test = [(around, .condition path)]) ∧
      outputParts around (conditional negated path first second) =
        test ++ (Stmt.allParts around first.code ++ Stmt.allParts around second.code) := by
  cases first with
  | empty =>
    cases second with
    | empty => exact ⟨[], .inl rfl, rfl⟩
    | atom | statements =>
      refine ⟨_, .inr rfl, ?_⟩
      simp [conditional, Branch.code, outputParts, Code.Output.close, Stmt.allParts, Stmt.parts,
        Code.Fragment.parts]
  | atom | statements =>
    refine ⟨_, .inr rfl, ?_⟩
    cases second <;>
      simp [conditional, Branch.code, outputParts, Code.Output.close, Stmt.allParts, Stmt.parts,
        Code.Fragment.parts]

end Lower
end Stencil
