import Stencil.Lower.Statement

/-!
# Lowering of partials

A partial is lowered where it is first included, against the type of that context. Every further
inclusion is checked against the first one.

- `groupArgument`   : the library that an inclusion asks for
- `includePartial`  : the call of a partial, which is lowered first if that has not been done
- `lowerProgram`    : the main function of a template
-/

namespace Stencil
namespace Lower

open Code (Atom Stmt)
open Template (Expr Hash Program)
open Stencil.Types (NodeId resolveNode unify)
open Lowering (infer lift)

/-- The library that an inclusion asks for. -/
def groupArgument (hash : Hash) : Except Error (Option String) :=
  match hash.lookup "extra" with
  | none => .ok none
  | some (.string name) =>
    if Name.isIdentifier name then .ok (some name)
    else .error (.unsupported (.groupName name))
  | some other => .error (.unsupported (.groupName other.formName))

/-- The context of an inclusion: its argument, or the place that the scope looks from. -/
def inclusionContext (scope : Scope) (name : String) (params : List Expr) :
    Except Error AccessPath :=
  if params.isEmpty then .ok scope.inner.path else pathArgument params name >>= scope.resolve

/-- Records a further call of a partial that has been lowered. -/
def addCallSite (name : String) (site : CallSite) : Lowering Unit :=
  modify fun st =>
    { st with
      partials := st.partials.map fun p =>
        if p.name == name then { p with callSites := p.callSites ++ [site] } else p }

/-- Calls a partial that has been lowered before. -/
def callAgain (known : LoweredPartial) (root : NodeId) (group : Option String)
    (context : AccessPath) : Lowering Unit := do
  if known.group != group then throw (.inconsistentGroup known.name known.group group)
  let node ← infer (resolveNode root context)
  infer (unify node known.input context.text)
  addCallSite known.name ⟨node, context⟩

/-- Lowers a partial for its first call, with `include_` for the partials in it. -/
def callFirst (include_ : Includer) (root : NodeId) (name : String) (group : Option String)
    (context : AccessPath) (program : Program) : Lowering Unit := do
  let node ← infer (resolveNode root context)
  let code ← Lowering.inNewFunction (lowerBody include_ node program)
  modify fun st =>
    { st with
      partials := st.partials ++
        [{ name, input := node, code, group, callSites := [⟨node, context⟩] }] }

/-- The call of a partial, inside the partials that are being lowered. The level bounds how many
more can be opened inside each other. -/
def includePartial (programs : List (String × Program)) : Nat → List String → Includer
  | level, opened, root, scope, name, params, hash => do
    if !Name.isIdentifier name then throw (.unsupported (.partialName name))
    match programs.lookup name with
    | none => throw (.unknownPartial name)
    | some program =>
      lift (expectKeys hash ["extra"] name)
      let group ← lift (groupArgument hash)
      let context ← lift (inclusionContext scope name params)
      match (← get).partials.find? (·.name == name) with
      | some known => callAgain known root group context
      | none =>
        if opened.contains name then throw (.recursivePartial name)
        match level with
        | 0 => throw (.recursivePartial name)
        | level + 1 =>
          callFirst (includePartial programs level (name :: opened)) root name group context
            program
      return .call group name context

/-- The main function of a template on the node `root`. Partials nest inside each other at most as
often as there are any. -/
def lowerProgram (programs : List (String × Program)) (root : NodeId) (program : Program) :
    Lowering (List Stmt) :=
  lowerBody (includePartial programs programs.length []) root program

end Lower
end Stencil
