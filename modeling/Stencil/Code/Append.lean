/-!
# Runs of appends

A template lowers to complete statements and to items that are appended to the result. Adjacent
appends share one statement as long as their items fit into one call.

- `Output`       : a complete statement, or items to append
- `mergeAppends` : joins adjacent appends up to `maxAppendArity` items
- `closeAppends` : the statements of a list of outputs
-/

namespace Stencil
namespace Code

/-- Most items that one concatenation call takes. -/
def maxAppendArity : Nat := 16

/-- What a template statement lowers to, over statements `σ` and items `φ`. -/
inductive Output (σ φ : Type) where
  /-- A complete statement. -/
  | statement (s : σ)
  /-- Items to append to the result. -/
  | append (items : List φ)

mutual

/-- Joins adjacent appends while their items fit into one call. -/
def mergeAppends {σ φ : Type} : List (Output σ φ) → List (Output σ φ)
  | [] => []
  | .statement s :: rest => .statement s :: mergeAppends rest
  | .append items :: rest => mergeAfter items rest

/-- Joins what follows an open append that holds `open_` items so far. -/
def mergeAfter {σ φ : Type} (open_ : List φ) : List (Output σ φ) → List (Output σ φ)
  | [] => [.append open_]
  | .statement s :: rest => .append open_ :: .statement s :: mergeAppends rest
  | .append items :: rest =>
    if open_.length + items.length ≤ maxAppendArity then mergeAfter (open_ ++ items) rest
    else .append open_ :: mergeAfter items rest

end

/-- The statement of an output, where `append` turns items into one. -/
def Output.close {σ φ : Type} (append : List φ → σ) : Output σ φ → σ
  | .statement s => s
  | .append items => append items

/-- The statements of a list of outputs, with adjacent appends joined. -/
def closeAppends {σ φ : Type} (append : List φ → σ) (outputs : List (Output σ φ)) : List σ :=
  (mergeAppends outputs).map (Output.close append)

/-- The name of the accumulator that rendering appends to. -/
def resultName : String := "__result"

/-- The statement that appends the given expressions to the result. -/
def appendStatement (items : List String) : String :=
  resultName ++ " = string(abi.encodePacked(" ++ ", ".intercalate (resultName :: items) ++ "));"

end Code
end Stencil
