import Stencil.Types.Store

/-!
# Narrowing

Every path that a template follows says something about the nodes along it and about the node at
its end. A request that contradicts what is known fails, and what it found out before that stays.

- `Inference`   : a computation over the store that may fail
- `walk`        : follows the steps of a path
- `narrow`      : asks the end of a path to be of some kind
- `resolveNode` : the node at the end of a path
-/

namespace Stencil
namespace Types

/-- A computation over the store; the store is kept where it fails. -/
abbrev Inference := EStateM Error Store

/-- The kind of data that a step goes through. -/
def containerKind : Accessor → Kind
  | .index _ => .array
  | .member _ => .struct

/-- Makes an unknown node one of the given kind, and gives its kind. -/
def settleKind (id : NodeId) (kind : Kind) : Inference Kind := do
  match ((← get).get id).kind? with
  | some previous => return previous
  | none =>
    modify (·.widen id kind)
    return kind

/-- Follows the steps of a path from a node that messages call `label`. -/
def walk (conflict : String → Kind → Kind → Error) (label : String) (id : NodeId) :
    List Accessor → Inference NodeId
  | [] => return id
  | a :: rest => do
    let requested := containerKind a
    let previous ← settleKind id requested
    if previous != requested then throw (conflict label requested previous)
    let next ← modifyGet (·.step id a)
    walk conflict a.label next rest

/-- Raises the length of a node of the given kind. -/
def raiseLength (id : NodeId) (kind : Kind) (n : Nat) : Inference Unit := do
  match ((← get).get id).raiseLength? n with
  | some node => modify (·.set id node)
  | none => throw (.lengthlessKind kind)

/-- Asks the node at the end of a path to be of some kind, with at least some length. Nothing is
asked of paths that start at a loop index. -/
def narrow (root : NodeId) (path : AccessPath) (kind : Kind) (length : Option Nat) :
    Inference Unit := do
  match path.origin with
  | .variable _ => return ()
  | .input =>
    let id ← walk (.accessConflict path.text) path.origin.text root path.accessors
    let previous ← settleKind id kind
    if previous != kind then throw (.typeConflict path.text kind previous)
    match length with
    | some (n + 1) => raiseLength id kind (n + 1)
    | _ => return ()

/-- The node at the end of a path, for the context of a partial. -/
def resolveNode (root : NodeId) (path : AccessPath) : Inference NodeId := do
  match path.origin with
  | .variable name => throw (.unsupported (.localContext name))
  | .input => walk .resolution path.origin.text root path.accessors

end Types
end Stencil
