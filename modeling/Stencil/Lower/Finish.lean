import Stencil.Lower.Partial
import Stencil.Types.Display

/-!
# Agreement of call sites

All contexts of a partial have to end up with the same type, as it is one function. What is learnt
about one context after it was passed is carried to the others, until nothing changes any more.

- `shareTypes`        : one round over all partials
- `State.settleTypes` : rounds until the store stays as it is
- `checkCalls`        : all contexts are of the type that the function takes
- `lower`             : a template and its partials as code, with the types of the input
-/

namespace Stencil
namespace Lower

open Code (Stmt)
open Template (Program)
open Stencil.Types (NodeId Store unify)
open Lowering (infer)

/-- The calls of a partial with a context other than the first one. -/
def LoweredPartial.otherSites (p : LoweredPartial) : List CallSite :=
  p.callSites.filter (·.node != p.input)

/-- Carries what is known about a partial's contexts to its input, and from there back to them. -/
def shareType (p : LoweredPartial) : Lowering Unit := do
  p.otherSites.forM fun site => infer (unify p.input site.node site.context.text)
  p.otherSites.forM fun site => infer (unify site.node p.input site.context.text)

/-- One round over all partials. -/
def shareTypes : Lowering Unit := do
  (← get).partials.forM shareType

/-- Rounds until the store stays as it is or a round fails; nothing where there is always another
round. -/
def State.settleTypes (st : State) : Option (EStateM.Result Error State Unit) :=
  match shareTypes st with
  | .error e st' => some (.error e st')
  | .ok () st' => if st'.store == st.store then some (.ok () st') else st' |>.settleTypes
partial_fixpoint

/-- Refuses a call whose context is not of the type that the function takes. -/
def checkCall (s : Store) (p : LoweredPartial) (site : CallSite) : Except Error Unit :=
  if s.compatible site.node p.input then .ok ()
  else .error (.unsupported
    (.callShape p.name site.context.text (s.display site.node) (s.display p.input)))

/-- Refuses calls whose context is not of the type that the function takes. -/
def checkCalls (s : Store) (partials : List LoweredPartial) : Except Error Unit :=
  partials.forM fun p => p.callSites.forM (checkCall s p)

/-- Makes all contexts of each partial agree. Rounds that go on for ever are the cause `endless`,
which no run lives to report. -/
def finish : Lowering Unit := do
  (fun st => st.settleTypes.getD (.error .endless st))
  let st ← get
  Lowering.lift (checkCalls st.store st.partials)

/-- A template and its partials as code. -/
structure Lowered where
  /-- The body of the main function. -/
  code : List Stmt
  partials : List LoweredPartial
  store : Store
  /-- The node of the input. -/
  root : NodeId

/-- Lowers a template with the given partials. -/
def lower (programs : List (String × Program)) (program : Program) : Except Error Lowered :=
  let (root, store) := Store.newRoot {}
  let run : Lowering (List Stmt) := do
    let code ← lowerProgram programs root program
    finish
    return code
  match run { store } with
  | .ok code st => .ok { code, partials := st.partials, store := st.store, root }
  | .error e _ => .error e

end Lower
end Stencil
