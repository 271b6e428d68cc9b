import Stencil.Code.Statement
import Stencil.Scope
import Stencil.Types.Unify

/-!
# The state of lowering

Lowering writes code and infers the types of the input at the same time.

- `CallSite`, `LoweredPartial` : partials that have become functions, and where they are called
- `State`, `Lowering`          : what lowering keeps, and computations over it
-/

namespace Stencil
namespace Lower

open Stencil.Types (Inference NodeId Store)

/-- One call of a partial. -/
structure CallSite where
  /-- The node of its context. -/
  node : NodeId
  context : AccessPath
  deriving DecidableEq, Repr

/-- A partial that has become a function. -/
structure LoweredPartial where
  name : String
  /-- The node of the context that it was first called with. -/
  input : NodeId
  code : List Code.Stmt
  /-- The library that the function is moved into. -/
  group : Option String
  /-- All calls, in the order of lowering. -/
  callSites : List CallSite
  deriving Repr

/-- What lowering keeps. -/
structure State where
  store : Store := {}
  /-- The partials lowered so far, in the order in which they were completed. -/
  partials : List LoweredPartial := []
  /-- The local variables of the function being written. -/
  locals : Variables := {}

/-- A computation over the state of lowering that may fail. -/
abbrev Lowering := EStateM Error State

namespace Lowering

/-- Runs a computation over the store of types. -/
def infer {α : Type} (m : Inference α) : Lowering α := fun st =>
  match m st.store with
  | .ok a store => .ok a { st with store }
  | .error e store => .error e { st with store }

/-- Takes over a result that needs no state. -/
def lift {α : Type} : Except Error α → Lowering α
  | .ok a => pure a
  | .error e => throw e

/-- Takes a name for a local variable. -/
def allocate (base : String) : Lowering String := do
  match (← get).locals.allocate base with
  | some (name, locals) =>
    modify fun st => { st with locals }
    return name
  | none => throw .endless

/-- Writes another function, with local variables of its own. -/
def inNewFunction {α : Type} (m : Lowering α) : Lowering α := do
  let outer := (← get).locals
  modify fun st => { st with locals := {} }
  let a ← m
  modify fun st => { st with locals := outer }
  return a

end Lowering

end Lower
end Stencil
