import Stencil.Lower.Statement
import Stencil.Proofs.Meaning.Literal
import Stencil.Proofs.Meaning.View

/-!
# What a template means

A template with data gives a text, statement by statement.

This file defines:

* `interpret`   : the text of a template, where partials are interpreted on their contexts;
* `plainProgram` : nothing is looked for inside a loop index, and it is not passed to a helper for
  signed numbers or for fixed bytes.
-/

namespace Stencil
namespace Meaning

open Lower (blockKind headHelper?)
open Template (Expr Hash PathExpr Program Statement)

/-! ## What a tag refers to -/

section

variable {α : Type} (step : α → String → α) (view : View α)

/-- The place that a tag's only argument refers to. -/
def argument? (params : List Expr) : Option α :=
  match params with
  | [.path p] => view.look step p
  | _ => none

/-- The place that a partial is included with: its argument, or the current place. -/
def context? (params : List Expr) : Option α :=
  if params.isEmpty then some view.inner.here else argument? step view params

/-- The place of a condition: the argument of a keyword, or the head of the block. -/
def condition? (head : PathExpr) (params : List Expr) : Option α :=
  if params.isEmpty then view.look step head else argument? step view params

end

/-- The names that a loop binds, the latest first: the item, unless it is `this`, and its
position. -/
def loopNames {α : Type} (binders : List String) (item position : α) : List (String × α) :=
  let itemName := binders.headD "this"
  let positionName := (binders.drop 1).headD indexAlias
  if itemName = "this" then [(positionName, position)]
  else [(itemName, item), (positionName, position)]

/-- The number of decimals that an interpolation asks for. -/
def decimalsOf (hash : Hash) : Nat :=
  match hash.lookup "decimals" with
  | some (.number text) => (Text.readUnsigned Text.bound32 text.toList).getD 0
  | _ => 0

/-! ## Interpretation -/

/-- The data in a segment of other data: an element by its number, or a member. -/
def within (v : Outcome Value) (part : String) : Outcome Value :=
  match decimal? part with
  | some k => v >>= Value.item k
  | none => v >>= Value.member part

/-- What a reference was found to stand for, if anything. -/
def found (place : Option (Outcome Value)) : Outcome Value :=
  place.getD (.error .stuck)

/-- The texts of the elements of an array, in order. -/
def forEach (text : Nat → Value → Outcome Bytes) : Nat → List Value → Outcome Bytes
  | _, [] => .ok []
  | k, x :: xs => do
    let first ← text k x
    return first ++ (← forEach text (k + 1) xs)

section

variable (set : Setting)

/-- Data as text: loop indices are numbers, all else is text already. -/
def shown : Value → Outcome Bytes
  | .text bytes => .ok bytes
  | .number n => .ok (set.format false n 0)
  | _ => .error .stuck

def interpolated (view : View (Outcome Value)) (head : Expr) (params : List Expr) (hash : Hash) :
    Outcome Bytes :=
  match head with
  | .path p =>
    match headHelper? p with
    | .ok (some (.integer signed _)) => do
      let n ← found (argument? within view params) >>= Value.asNumber
      return set.format signed n (decimalsOf hash)
    | .ok (some (.bytes _)) => found (argument? within view params) >>= Value.asText
    | .ok none => found (view.look within p) >>= shown set
    | .error _ => .error .stuck
  | _ => .error .stuck

mutual

/-- The text of a statement, with `call` for the partials in it. -/
def textOf (call : String → Value → Outcome Bytes) (view : View (Outcome Value)) :
    Statement → Outcome Bytes
  | .content value _ => .ok (utf8 value)
  | .comment _ _ => .ok []
  | .constant name _ => .ok (set.constants name)
  | .interpolation head params hash _ _ => interpolated set view head params hash
  | .inclusion name params _ _ => found (context? within view params) >>= call name
  | .block head params _ binders body inverse _ =>
    match blockKind head params with
    | .ok .each => do
      let items ← found (argument? within view params) >>= Value.asArray
      forEach
        (fun k x =>
          textsOf call (view.enter (.ok x) (loopNames binders (.ok x) (.ok (.number k)))) body)
        0 items
    | .ok .dive =>
      -- the data that the block looks from is only needed where something in it is used
      textsOf call (view.enter (found (argument? within view params)) []) body
    | .ok (.conditional negated) => do
      let flag ← found (condition? within view head params) >>= Value.asFlag
      if flag != negated then textsOf call view body
      else
        match inverse with
        | none => .ok []
        | some otherwise => textsOf call view otherwise
    | .error _ => .error .stuck

/-- The text of statements in order. -/
def textsOf (call : String → Value → Outcome Bytes) (view : View (Outcome Value)) :
    Program → Outcome Bytes
  | [] => .ok []
  | s :: rest => do
    let first ← textOf call view s
    return first ++ (← textsOf call view rest)

end

/-- The text of a partial on its context, inside at most `depth` others. -/
def textOfPartial (programs : List (String × Program)) : Nat → String → Value → Outcome Bytes
  | 0, _, _ => .error .stuck
  | depth + 1, name, v =>
    match programs.lookup name with
    | some program => textsOf set (textOfPartial programs depth) (.root (.ok v)) program
    | none => .error .stuck

/-- The text of a template on its data, where partials nest at most `depth` deep. -/
def interpret (programs : List (String × Program)) (depth : Nat) (program : Program) (v : Value) :
    Outcome Bytes :=
  textsOf set (textOfPartial set programs depth) (.root (.ok v)) program

end

/-! ## Texts of blocks -/

section

variable {set : Setting} {call : String → Value → Outcome Bytes} {view : View (Outcome Value)}
  {head : PathExpr} {params : List Expr} {hash : Hash} {binders : List String} {body : Program}
  {inverse : Option Program} {span : Template.Span}

theorem textOf_each (h : blockKind head params = .ok .each) :
    textOf set call view (.block head params hash binders body inverse span) = (do
      let items ← found (argument? within view params) >>= Value.asArray
      forEach
        (fun k x => textsOf set call
          (view.enter (.ok x) (loopNames binders (.ok x) (.ok (.number k)))) body)
        0 items) := by
  cases inverse <;> rw [textOf, h]

theorem textOf_dive (h : blockKind head params = .ok .dive) :
    textOf set call view (.block head params hash binders body inverse span) =
      textsOf set call (view.enter (found (argument? within view params)) []) body := by
  cases inverse <;> rw [textOf, h]

theorem textOf_conditional {negated : Bool}
    (h : blockKind head params = .ok (.conditional negated)) :
    textOf set call view (.block head params hash binders body inverse span) = (do
      let flag ← found (condition? within view head params) >>= Value.asFlag
      if flag != negated then textsOf set call view body
      else textsOf set call view (inverse.getD [])) := by
  cases inverse <;> rw [textOf, h] <;> rfl

end

/-! ## Uses of loop indices -/

/-- Where a reference leads. -/
inductive Reach where
  | data
  /-- A loop index itself. -/
  | index
  /-- Inside a loop index. -/
  | beyond
  deriving DecidableEq, Repr

namespace Reach

def segment : Reach → String → Reach
  | .data, _ => .data
  | _, _ => .beyond

/-- A reference that does not lead inside a loop index. -/
def isNear (r : Option Reach) : Bool := r != some .beyond

/-- A reference that does not lead to a loop index or inside one. -/
def isData (r : Option Reach) : Bool := r.all (· == .data)

end Reach

open Reach (isData isNear)

/-- An interpolation does not look inside a loop index. Only the helper for unsigned numbers, and
the interpolation without a helper, are given the index itself. -/
def plainInterpolation (view : View Reach) (head : Expr) (params : List Expr) : Bool :=
  match head with
  | .path p =>
    match headHelper? p with
    | .ok (some (.integer false _)) => isNear (argument? Reach.segment view params)
    | .ok (some _) => isData (argument? Reach.segment view params)
    | _ => isNear (view.look Reach.segment p)
  | _ => true

mutual

/-- No loop index is dereferenced, or formatted as other than an unsigned number, in a
statement. -/
def plainStatement (view : View Reach) : Statement → Bool
  | .content _ _ => true
  | .comment _ _ => true
  | .constant _ _ => true
  | .interpolation head params _ _ _ => plainInterpolation view head params
  | .inclusion _ params _ _ => isNear (context? Reach.segment view params)
  | .block head params _ binders body inverse _ =>
    match blockKind head params with
    | .ok .each =>
      isNear (argument? Reach.segment view params) &&
        plainStatements (view.enter .data (loopNames binders .data .index)) body
    | .ok .dive =>
      isNear (argument? Reach.segment view params) &&
        plainStatements (view.enter ((argument? Reach.segment view params).getD .data) []) body
    | .ok (.conditional _) =>
      isNear (condition? Reach.segment view head params) && plainStatements view body &&
        match inverse with
        | none => true
        | some otherwise => plainStatements view otherwise
    | .error _ => true

/-- No loop index is dereferenced, or formatted as other than an unsigned number, in
statements. -/
def plainStatements (view : View Reach) : Program → Bool
  | [] => true
  | s :: rest => plainStatement view s && plainStatements view rest

end

/-- No loop index is dereferenced, or formatted as other than an unsigned number, in a
template. -/
def plainProgram (program : Program) : Bool := plainStatements (.root .data) program

section

variable {view : View Reach} {head : PathExpr} {params : List Expr} {hash : Hash}
  {binders : List String} {body : Program} {inverse : Option Program} {span : Template.Span}

theorem plainStatement_each (h : blockKind head params = .ok .each) :
    plainStatement view (.block head params hash binders body inverse span) = true ↔
      isNear (argument? Reach.segment view params) = true ∧
        plainStatements (view.enter .data (loopNames binders .data .index)) body = true := by
  cases inverse <;> rw [plainStatement, h, Bool.and_eq_true]

theorem plainStatement_dive (h : blockKind head params = .ok .dive) :
    plainStatement view (.block head params hash binders body inverse span) = true ↔
      isNear (argument? Reach.segment view params) = true ∧
        plainStatements (view.enter ((argument? Reach.segment view params).getD .data) [])
          body = true := by
  cases inverse <;> rw [plainStatement, h, Bool.and_eq_true]

theorem plainStatement_conditional {negated : Bool}
    (h : blockKind head params = .ok (.conditional negated)) :
    plainStatement view (.block head params hash binders body inverse span) = true ↔
      isNear (condition? Reach.segment view head params) = true ∧
        plainStatements view body = true ∧ plainStatements view (inverse.getD []) = true := by
  cases inverse <;> rw [plainStatement, h, Bool.and_eq_true, Bool.and_eq_true, and_assoc] <;> rfl

end

/-! ## Places of references -/

section

variable {α β : Type} {f : α → β} {step : α → String → α} {step' : β → String → β}

theorem argument?_map (h : ∀ a part, f (step a part) = step' (f a) part) (view : View α)
    (params : List Expr) :
    argument? step' (view.map f) params = (argument? step view params).map f := by
  unfold argument?
  split
  · exact view.look_map h _
  · rfl

theorem context?_map (h : ∀ a part, f (step a part) = step' (f a) part) (view : View α)
    (params : List Expr) :
    context? step' (view.map f) params = (context? step view params).map f := by
  unfold context?
  split
  · rfl
  · exact argument?_map h view params

theorem condition?_map (h : ∀ a part, f (step a part) = step' (f a) part) (view : View α)
    (head : PathExpr) (params : List Expr) :
    condition? step' (view.map f) head params = (condition? step view head params).map f := by
  unfold condition?
  split
  · exact view.look_map h head
  · exact argument?_map h view params

theorem argument?_all {P : α → Prop} (hstep : ∀ a part, P a → P (step a part)) {view : View α}
    (hview : view.All P) {params : List Expr} {a : α} (h : argument? step view params = some a) :
    P a := by
  unfold argument? at h
  split at h
  · exact hview.look (fun a part _ => hstep a part) h
  · cases h

theorem context?_all {P : α → Prop} (hstep : ∀ a part, P a → P (step a part)) {view : View α}
    (hview : view.All P) {params : List Expr} {a : α} (h : context? step view params = some a) :
    P a := by
  unfold context? at h
  split at h
  · cases h
    exact hview.1.1
  · exact argument?_all hstep hview h

theorem condition?_all {P : α → Prop} (hstep : ∀ a part, P a → P (step a part)) {view : View α}
    (hview : view.All P) {head : PathExpr} {params : List Expr} {a : α}
    (h : condition? step view head params = some a) : P a := by
  unfold condition? at h
  split at h
  · exact hview.look (fun a part _ => hstep a part) h
  · exact argument?_all hstep hview h

theorem loopNames_map (f : α → β) (binders : List String) (item position : α) :
    (loopNames binders item position).map (fun e => (e.1, f e.2)) =
      loopNames binders (f item) (f position) := by
  unfold loopNames
  dsimp only
  split <;> rfl

end

end Meaning
end Stencil
