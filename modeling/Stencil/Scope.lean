import Stencil.AccessPath
import Stencil.Error
import Stencil.Name
import Stencil.Template.Statement

/-!
# Scopes

Loops and `with` blocks look at the data from another place, and loops bind names for the item and
its index. A reference is resolved in the innermost scope, or further out by its depth.

- `Frame`         : the place and the bound names of one block
- `Scope`         : the frames from the innermost one outward
- `Scope.resolve` : the access path of a reference
- `Variables`     : the names of local variables in use
-/

namespace Stencil

open Template (PathExpr)

/-! ## Local variables -/

/-- The names in use in a generated function. -/
structure Variables where
  names : List String := [inputName]
  deriving DecidableEq, Repr

/-- Takes the first free name from `base` on. -/
def Variables.allocate (v : Variables) (base : String) : Option (String × Variables) := do
  let name ← Name.freshName v.names base
  return (name, ⟨v.names ++ [name]⟩)

/-! ## Frames -/

/-- The data variable for the index of the innermost loop. -/
def indexAlias : String := "@index"

/-- The place that a block looks from, and the names bound there, the latest first. -/
structure Frame where
  path : AccessPath := {}
  aliases : List (String × AccessPath) := []
  deriving DecidableEq, Repr

/-- Resolves a reference, whatever its depth, in this frame. -/
def Frame.resolve (f : Frame) (p : PathExpr) : Except Error AccessPath :=
  if p.data then
    let name := "@" ++ ".".intercalate p.parts
    if name != indexAlias then .error (.unsupported (.dataVariable p.written))
    else match f.aliases.lookup indexAlias with
      | some target => .ok target
      | none => .error (.unresolvedBuiltIn name)
  else
    match p.parts with
    | [] => .ok f.path
    | head :: rest =>
      let aliased := if p.explicitThis then none else f.aliases.lookup head
      let start := aliased.getD (f.path.push (.ofSegment head))
      .ok (rest.foldl (fun path part => path.push (.ofSegment part)) start)

/-! ## Scopes -/

/-- The innermost frame and those around it. -/
structure Scope where
  inner : Frame := {}
  outer : List Frame := []
  deriving DecidableEq, Repr

namespace Scope

/-- Enters a block that looks from `path` and binds further names. -/
def dive (s : Scope) (path : AccessPath) (aliases : List (String × AccessPath)) : Scope :=
  ⟨⟨path, aliases.reverse ++ s.inner.aliases⟩, s.inner :: s.outer⟩

/-- Leaves a block; there is nothing outside the outermost frame. -/
def leave (s : Scope) : Scope :=
  match s.outer with
  | [] => s
  | frame :: outer => ⟨frame, outer⟩

/-- The frame that lies `depth` blocks further out. -/
def climb (s : Scope) (depth : Nat) : Option Frame :=
  (s.inner :: s.outer)[depth]?

/-- The access path of a reference. -/
def resolve (s : Scope) (p : PathExpr) : Except Error AccessPath :=
  if p.depth == 0 then s.inner.resolve p
  else match s.climb p.depth with
    | some frame => frame.resolve p.withoutDepth
    | none => .error (.excessiveDepth p.written)

end Scope

end Stencil
