import Stencil.Lower.State
import Stencil.Proofs.Code.Grouping
import Stencil.Proofs.Meaning.Literal

/-!
# What generated code does

A generated function appends to its result, statement by statement.

This file defines:

* `Env`             : the input of a function and its loop indices;
* `AccessPath.eval` : the data at an access path;
* `runStmts`        : the result that statements leave, from the result so far;
* `callPartial`     : the result of a function by its name.

Joining adjacent appends makes no difference to the result (`runStmts_closeAppends`).
-/

namespace Stencil
namespace Meaning

/-- What the statements of a function can read. -/
structure Env where
  input : Value
  /-- The loop indices, the innermost first. -/
  locals : List (String × Nat) := []

namespace Env

def bind (env : Env) (index : String) (k : Nat) : Env :=
  { env with locals := (index, k) :: env.locals }

/-- The element that an index expression picks: a number stands for itself. -/
def element? (env : Env) (expr : String) : Option Nat :=
  match decimal? expr with
  | some k => some k
  | none => env.locals.lookup expr

end Env
end Meaning

open Meaning

/-! ## Access paths -/

def Origin.value (env : Env) : Origin → Outcome Value
  | .input => .ok env.input
  | .variable name =>
    match env.locals.lookup name with
    | some k => .ok (.number k)
    | none => .error .stuck

/-- The data that one step leads to. -/
def Accessor.pick (env : Env) : Accessor → Value → Outcome Value
  | .member name, v => v.member name
  | .index expr, v =>
    match env.element? expr with
    | some k => v.item k
    | none => .error .stuck

namespace AccessPath

def eval (env : Env) (p : AccessPath) : Outcome Value :=
  p.accessors.foldl (fun v a => v >>= a.pick env) (p.origin.value env)

theorem eval_push (env : Env) (p : AccessPath) (a : Accessor) :
    (p.push a).eval env = p.eval env >>= a.pick env := by
  simp [eval, push, List.foldl_append]

end AccessPath

namespace Meaning

open Code (Atom Condition Fragment Output Stmt closeAppends mergeAppends_keeps)

/-! ## Statements -/

section

variable (set : Setting) (call : Option String → String → Value → Outcome Bytes)

/-- The text of an expression; literals are read by the rules of the target language. -/
def runAtom (env : Env) : Atom → Outcome Bytes
  | .literal text =>
    match readLiteral (Code.literal text) with
    | some bytes => .ok bytes
    | none => .error .stuck
  | .constant name => .ok (set.constants name)
  | .value path => path.eval env >>= Value.asText
  | .number signed path decimals => do
    let n ← path.eval env >>= Value.asNumber
    return set.format signed n decimals
  | .call group name context => context.eval env >>= call group name

def holds (env : Env) (c : Condition) : Outcome Bool := do
  let flag ← c.path.eval env >>= Value.asFlag
  return flag != c.negated

def runFragment (env : Env) : Fragment → Outcome Bytes
  | .atom a => runAtom set call env a
  | .select condition whenTrue whenFalse => do
    if ← holds env condition then runAtom set call env whenTrue
    else
      match whenFalse with
      | some a => runAtom set call env a
      | none => .ok []

/-- The joined text of expressions. -/
def runFragments (env : Env) : List Fragment → Outcome Bytes
  | [] => .ok []
  | item :: rest => do
    let first ← runFragment set call env item
    return first ++ (← runFragments env rest)

/-- Runs a loop body for `count` indices from `k` on. -/
def runLoop (body : Nat → Bytes → Outcome Bytes) : (k count : Nat) → Bytes → Outcome Bytes
  | _, 0, result => .ok result
  | k, count + 1, result => body k result >>= runLoop body (k + 1) count

mutual

/-- The result after a statement. -/
def runStmt (env : Env) : Stmt → Bytes → Outcome Bytes
  | .append items, result => do
    return result ++ (← runFragments set call env items)
  | .loop index items body, result => do
    let xs ← items.eval env >>= Value.asArray
    runLoop (fun k => runStmts (env.bind index k) body) 0 xs.length result
  | .branch condition body, result => do
    if ← holds env condition then runStmts env body result else return result
  | .branchElse condition body otherwise, result => do
    if ← holds env condition then runStmts env body result else runStmts env otherwise result

/-- The result after statements in order. -/
def runStmts (env : Env) : List Stmt → Bytes → Outcome Bytes
  | [], result => .ok result
  | s :: rest, result => runStmt env s result >>= runStmts env rest

end

end

/-- The result of the function of a partial, inside at most `depth` others. -/
def callPartial (set : Setting) (partials : List Lower.LoweredPartial) :
    Nat → Option String → String → Value → Outcome Bytes
  | 0, _, _, _ => .error .stuck
  | depth + 1, group, name, v =>
    match partials.find? fun p => p.name == name && p.group == group with
    | some p => runStmts set (callPartial set partials depth) ⟨v, []⟩ p.code []
    | none => .error .stuck

/-- The result of a function with the given body on its input. -/
def execute (set : Setting) (partials : List Lower.LoweredPartial) (depth : Nat)
    (code : List Stmt) (v : Value) : Outcome Bytes :=
  runStmts set (callPartial set partials depth) ⟨v, []⟩ code []

/-! ## Joined appends -/

section

variable {set : Setting} {call : Option String → String → Value → Outcome Bytes} {env : Env}

theorem runFragments_append (xs ys : List Fragment) :
    runFragments set call env (xs ++ ys) = do
      let first ← runFragments set call env xs
      return first ++ (← runFragments set call env ys) := by
  induction xs with
  | nil =>
    change runFragments set call env ys = (runFragments set call env ys >>= Except.ok)
    exact (bind_pure _).symm
  | cons x xs ih =>
    simp only [List.cons_append, runFragments, ih]
    cases runFragment set call env x with
    | error e => rfl
    | ok a =>
      -- the first failure decides, on both sides
      cases runFragments set call env xs with
      | error e => rfl
      | ok b =>
        cases runFragments set call env ys with
        | error e => rfl
        | ok c => simp [bind, Except.bind, pure, Except.pure]

theorem runStmts_append (xs ys : List Stmt) (result : Bytes) :
    runStmts set call env (xs ++ ys) result =
      runStmts set call env xs result >>= runStmts set call env ys := by
  induction xs generalizing result with
  | nil => rfl
  | cons x xs ih =>
    simp only [List.cons_append, runStmts]
    cases runStmt set call env x result with
    | error e => rfl
    | ok next => exact ih next

/-- The statements of outputs, each for itself. -/
def outputCode (outputs : List (Output Stmt Fragment)) : List Stmt :=
  outputs.map (Output.close Stmt.append)

theorem runStmt_append (xs ys : List Fragment) (result : Bytes) :
    runStmt set call env (.append (xs ++ ys)) result =
      runStmt set call env (.append xs) result >>= runStmt set call env (.append ys) := by
  simp only [runStmt, runFragments_append]
  cases runFragments set call env xs with
  | error e => rfl
  | ok a =>
    cases runFragments set call env ys with
    | error e => rfl
    | ok b => simp [bind, Except.bind, pure, Except.pure]

/-- Joining adjacent appends makes no difference. -/
theorem runStmts_closeAppends (outputs : List (Output Stmt Fragment)) :
    runStmts set call env (closeAppends Stmt.append outputs) =
      runStmts set call env (outputCode outputs) := by
  apply mergeAppends_keeps fun outputs => runStmts set call env (outputCode outputs)
  · intro output xs ys h
    funext result
    change (runStmt set call env (output.close Stmt.append) result >>=
      runStmts set call env (outputCode xs)) = _
    rw [h]
    rfl
  · -- one append of both does what two appends do
    intro items items' rest
    funext result
    change runStmt set call env (.append (items ++ items')) result >>= _ = _
    rw [runStmt_append, bind_assoc]
    rfl

end

end Meaning
end Stencil
