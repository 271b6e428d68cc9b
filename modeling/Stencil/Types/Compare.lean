import Stencil.Types.Store

/-!
# Comparing nodes

Nodes never contain themselves, so that a store's size bounds how deep a node reaches.

- `Store.compatible` : whether two nodes can share one declaration
- `Store.contains`   : whether a node is another one or lies inside it
-/

namespace Stencil
namespace Types
namespace Store

/-- Compares two nodes down to the given depth. -/
def compatibleUpTo (s : Store) : Nat → NodeId → NodeId → Bool
  | 0, a, b => a == b
  | depth + 1, a, b =>
    a == b ||
    match s.get a, s.get b with
    | .unknown, _ => true
    | _, .unknown => true
    | .array la ea, .array lb eb => la == lb && s.compatibleUpTo depth ea eb
    | .struct ma, .struct mb =>
      ma.length == mb.length &&
      ma.all fun (name, ta) =>
        match mb.lookup name with
        | some tb => s.compatibleUpTo depth ta tb
        | none => false
    | x, y => x.kind? == y.kind? && x.length? == y.length?

/-- Whether two nodes can share one declaration: what is known of both agrees everywhere. -/
def compatible (s : Store) (a b : NodeId) : Bool :=
  s.compatibleUpTo s.size a b

/-- Looks for a node down to the given depth. -/
def containsUpTo (s : Store) : Nat → NodeId → NodeId → Bool
  | 0, outer, inner => outer == inner
  | depth + 1, outer, inner =>
    outer == inner || (s.get outer).children.any fun child => s.containsUpTo depth child inner

/-- Whether `inner` is `outer` or lies inside it. -/
def contains (s : Store) (outer inner : NodeId) : Bool :=
  s.containsUpTo s.size outer inner

end Store
end Types
end Stencil
