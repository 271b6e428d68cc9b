import Stencil.Lower.Argument
import Stencil.Lower.State

/-!
# Lowering of statements

Each statement becomes code, and each reference in it narrows the types along its path.

- `interpolation`            : the expression of an interpolated value
- `openLoop`, `openCondition` : what the head of a block asks for
- `Branch`, `conditional`    : how a condition chooses between two bodies
- `lowerStatement`           : the code of a statement
-/

namespace Stencil
namespace Lower

open Code (Atom Condition Fragment Output Stmt closeAppends)
open Template (Expr Hash PathExpr Program Statement)
open Stencil.Types (NodeId narrow)
open Lowering (infer lift)

/-- What a statement lowers to. -/
abbrev CodeOutput := Output Stmt Fragment

def appendAtom (a : Atom) : List CodeOutput := [.append [.atom a]]

/-! ## Interpolations -/

/-- The helper that the head of an interpolation names. -/
def headHelper? (p : PathExpr) : Except Error (Option Helper) :=
  if p.isPlainName then Helper.ofName? p.written else .ok none

def interpolation (root : NodeId) (scope : Scope) (head : Expr) (params : List Expr)
    (hash : Hash) : Lowering Atom := do
  match head with
  | .path p =>
    match ← lift (headHelper? p) with
    | some (.integer signed width) =>
      lift (expectKeys hash ["decimals"] p.written)
      let decimals ← lift (integerKeyword? hash "decimals")
      let target ← lift (pathArgument params p.written >>= scope.resolve)
      infer (narrow root target (if signed then .int else .uint) width)
      return .number signed target (decimals.getD 0)
    | some (.bytes width) =>
      lift (expectKeys hash [] p.written)
      let target ← lift (pathArgument params p.written >>= scope.resolve)
      infer (narrow root target .string (some width))
      return .value target
    | none =>
      if !params.isEmpty || !hash.isEmpty then
        throw (.unsupported (.unknownHelper p.written))
      let target ← lift (scope.resolve p)
      if target.isVariable then return .number false target 0
      else
        infer (narrow root target .string none)
        return .value target
  | other => throw (.unsupported (.headForm other.formName))

/-! ## Heads of blocks -/

/-- What a block does. -/
inductive BlockKind where
  | each
  /-- Looks from another place. -/
  | dive
  | conditional (negated : Bool)
  deriving DecidableEq, Repr

/-- What a block does, by its head; any other reference without arguments is a condition. -/
def blockKind (head : PathExpr) (params : List Expr) : Except Error BlockKind :=
  match if head.isPlainName then head.head? else none with
  | some "each" => .ok .each
  | some "with" => .ok .dive
  | some "if" => .ok (.conditional false)
  | some "unless" => .ok (.conditional true)
  | _ =>
    if params.isEmpty then .ok (.conditional false)
    else .error (.unsupported (.blockParameters head.written))

/-- The name from which loop indices are named. -/
def indexBase : String := "__i"

/-- A loop whose body is still to be lowered. -/
structure OpenLoop where
  index : String
  items : AccessPath
  /-- The scope of its body. -/
  scope : Scope

/-- The names that a loop binds: the index, and the item unless it is `this`. -/
def loopAliases (binders : List String) (index : String) (item : AccessPath) :
    List (String × AccessPath) :=
  let itemAlias := binders.headD "this"
  let position := ((binders.drop 1).headD indexAlias, ⟨.variable index, []⟩)
  if itemAlias == "this" then [position] else [position, (itemAlias, item)]

def openLoop (root : NodeId) (scope : Scope) (params : List Expr) (hash : Hash)
    (binders : List String) (hasInverse : Bool) : Lowering OpenLoop := do
  if hasInverse then throw (.unsupported .elseInEach)
  lift (expectKeys hash ["length"] "each")
  let length ← lift (integerKeyword? hash "length")
  let items ← lift (pathArgument params "each" >>= scope.resolve)
  if items.isVariable then throw (.unsupported (.iteratedIndex items.text))
  infer (narrow root items .array length)
  let index ← Lowering.allocate indexBase
  let item := items.push (.index index)
  return { index, items, scope := scope.dive item (loopAliases binders index item) }

/-- Opens a `with` block and gives the scope of its body. -/
def openWith (scope : Scope) (params : List Expr) (hash : Hash) (hasInverse : Bool) :
    Except Error Scope := do
  if hasInverse then throw (.unsupported .elseInWith)
  expectKeys hash [] "with"
  let target ← pathArgument params "with" >>= scope.resolve
  return scope.dive target []

/-- The reference that a conditional block tests: its head, or the argument of a keyword. -/
def conditionPath (head : PathExpr) (params : List Expr) : Except Error PathExpr :=
  let keyword := head.head? == some "if" || head.head? == some "unless"
  if params.isEmpty && !keyword then .ok head else pathArgument params head.written

/-- Opens a conditional block and gives the path of its condition. -/
def openCondition (root : NodeId) (scope : Scope) (head : PathExpr) (params : List Expr)
    (hash : Hash) : Lowering AccessPath := do
  lift (expectKeys hash [] head.written)
  let target ← lift (conditionPath head params >>= scope.resolve)
  if target.isVariable then throw (.unsupported (.indexCondition target.text))
  infer (narrow root target .bool none)
  return target

/-! ## Branches -/

/-- The code of one side of a condition. -/
inductive Branch where
  | empty
  /-- A single expression, which can be chosen without a statement. -/
  | atom (a : Atom)
  | statements (code : List Stmt)

/-- The branch of a body that lowers to the given outputs. -/
def Branch.of (body : Program) (outputs : List CodeOutput) : Branch :=
  match body, outputs with
  | _, [] => .empty
  | [s], [.append [.atom a]] =>
    if s.isBlock then .statements (closeAppends Stmt.append outputs) else .atom a
  | _, _ => .statements (closeAppends Stmt.append outputs)

def Branch.code : Branch → List Stmt
  | .empty => []
  | .atom a => [.append [.atom a]]
  | .statements code => code

/-- The outputs of a condition on `path`, whose first branch is taken if the flag differs from
`negated`. -/
def conditional (negated : Bool) (path : AccessPath) (first second : Branch) : List CodeOutput :=
  match first, second with
  | .empty, .empty => []
  | .atom a, .empty => [.append [.select ⟨negated, path⟩ a none]]
  | .empty, .atom b => [.append [.select ⟨!negated, path⟩ b none]]
  | .atom a, .atom b => [.append [.select ⟨negated, path⟩ a (some b)]]
  | .empty, second => [.statement (.branch ⟨!negated, path⟩ second.code)]
  | first, .empty => [.statement (.branch ⟨negated, path⟩ first.code)]
  | first, second => [.statement (.branchElse ⟨negated, path⟩ first.code second.code)]

/-! ## Statements -/

/-- How an inclusion with the given name, arguments and keyword arguments becomes a call. -/
abbrev Includer := NodeId → Scope → String → List Expr → Hash → Lowering Atom

mutual

/-- The code of a statement, with `include_` for the partials in it. -/
def lowerStatement (include_ : Includer) (root : NodeId) (scope : Scope) :
    Statement → Lowering (List CodeOutput)
  | .content value _ => return if value.isEmpty then [] else appendAtom (.literal value)
  | .comment _ _ => return []
  | .constant name _ => return appendAtom (.constant name)
  | .interpolation head params hash _ _ => do
    return appendAtom (← interpolation root scope head params hash)
  | .inclusion name params hash _ => do
    return appendAtom (← include_ root scope name params hash)
  | .block head params hash binders body inverse _ => do
    match ← lift (blockKind head params) with
    | .each =>
      let loop ← openLoop root scope params hash binders inverse.isSome
      let outputs ← lowerStatements include_ root loop.scope body
      return [.statement (.loop loop.index loop.items (closeAppends Stmt.append outputs))]
    | .dive =>
      let inner ← lift (openWith scope params hash inverse.isSome)
      let outputs ← lowerStatements include_ root inner body
      return (closeAppends Stmt.append outputs).map .statement
    | .conditional negated =>
      let path ← openCondition root scope head params hash
      let first ← lowerStatements include_ root scope body
      match inverse with
      | none => return conditional negated path (Branch.of body first) .empty
      | some otherwise =>
        let second ← lowerStatements include_ root scope otherwise
        return conditional negated path (Branch.of body first) (Branch.of otherwise second)

/-- The code of statements in order. -/
def lowerStatements (include_ : Includer) (root : NodeId) (scope : Scope) :
    Program → Lowering (List CodeOutput)
  | [] => return []
  | s :: rest => do
    let first ← lowerStatement include_ root scope s
    return first ++ (← lowerStatements include_ root scope rest)

end

/-- The body of a function for a program on the node `root`. -/
def lowerBody (include_ : Includer) (root : NodeId) (program : Program) :
    Lowering (List Stmt) := do
  return closeAppends Stmt.append (← lowerStatements include_ root {} program)

end Lower
end Stencil
