import Stencil.Types.Compare
import Stencil.Types.Narrow

/-!
# Unification

A partial is one function, so everything known about one of its contexts holds for all of them.

- `unifyUpTo` : carries what is known over, down to a given depth
- `unify`     : the same for contexts of which neither lies inside the other
-/

namespace Stencil
namespace Types

/-- Raises the length of a node if it can have one. -/
def raiseLengthIfAny (id : NodeId) : Option Nat → Inference Unit
  | none => return ()
  | some n => modify fun s =>
    match (s.get id).raiseLength? n with
    | some node => s.set id node
    | none => s

/-- Narrows `target` to all that is known about `source`, down to the given depth. -/
def unifyUpTo : Nat → NodeId → NodeId → String → Inference Unit
  | 0, _, _, _ => return ()
  | depth + 1, target, source, path => do
    let known := (← get).get source
    match known.kind? with
    | none => return ()
    | some kind =>
      let previous ← settleKind target kind
      if previous != kind then throw (.typeConflict path kind previous)
      raiseLengthIfAny target known.length?
      match known with
      | .array _ element =>
        let child ← modifyGet (·.step target (.index ""))
        unifyUpTo depth child element (path ++ "[]")
      | .struct members =>
        members.forM fun (name, member) => do
          let child ← modifyGet (·.step target (.member name))
          unifyUpTo depth child member (path ++ "." ++ name)
      | _ => return ()

/-- Narrows `target` to all that is known about `source`; `path` names the target in messages. -/
def unify (target source : NodeId) (path : String) : Inference Unit := do
  let s ← get
  if target == source then return ()
  else if s.contains target source || s.contains source target then
    throw (.unsupported (.nestedContext path))
  else unifyUpTo s.size target source path

end Types
end Stencil
