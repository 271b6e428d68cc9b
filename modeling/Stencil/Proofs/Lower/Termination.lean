import Stencil.Proofs.Lower.Registry
import Stencil.Proofs.Lower.Spending

/-!
# Lowering comes to an end

Partials include each other, and may do so in a circle. The level of `includePartial` makes its
recursion end by definition; this file shows that the level is never what ends it. It defines:

* `Progress`              : the state of lowering with the stack of partials that are being lowered;
* `Scope.trackStatements` : lowering with that stack and without levels, which might not end;
* `Tracks`                : a computation with a stack that has the outcome of one without.

Lowering without levels has the same outcome, and leaves the stack as it was (`trackBody_tracks`).
The main result `lowering_ends_exact` says this together with what holds of the partials that have
been lowered.
-/

namespace Stencil

open Code (Atom Call Stmt calls closeAppends)
open Template (Expr Hash PathExpr Program Statement)
open Text (bound64)
open Stencil.Types (Inference NodeId resolveNode)

namespace Lower

/-! ## Lowering without levels -/

/-- The state of lowering, and the partials that are being lowered, the innermost first. -/
structure Progress where
  state : State
  inProgress : List String

/-- A computation that may fail, and that may go on for ever. -/
abbrev Tracked := ExceptT Error (StateT Progress Option)

/-- Runs a computation that does not look at the stack. -/
def Tracked.of {α : Type} (m : Lowering α) : Tracked α := fun p =>
  match m p.state with
  | .ok a state => some (.ok a, { p with state })
  | .error e state => some (.error e, { p with state })

end Lower

section

open Lower

variable (programs : List (String × Program))

mutual

/-- The code of a statement. -/
def Scope.trackStatement (root : NodeId) (scope : Scope) (s : Statement) :
    Tracked (List CodeOutput) := do
  match s with
  | .content value _ => return if value.isEmpty then [] else appendAtom (.literal value)
  | .comment _ _ => return []
  | .constant name _ => return appendAtom (.constant name)
  | .interpolation head params hash _ _ =>
    return appendAtom (← Tracked.of (interpolation root scope head params hash))
  | .inclusion name params hash _ =>
    return appendAtom (← scope |>.trackPartial root name params hash)
  | .block head params hash binders body inverse _ =>
    match ← Tracked.of (Lowering.lift (blockKind head params)) with
    | .each =>
      let loop ← Tracked.of (openLoop root scope params hash binders inverse.isSome)
      let outputs ← loop.scope |>.trackStatements root body
      return [.statement (.loop loop.index loop.items (closeAppends Stmt.append outputs))]
    | .dive =>
      let inner ← Tracked.of (Lowering.lift (openWith scope params hash inverse.isSome))
      let outputs ← inner |>.trackStatements root body
      return (closeAppends Stmt.append outputs).map .statement
    | .conditional negated =>
      let path ← Tracked.of (openCondition root scope head params hash)
      let first ← scope |>.trackStatements root body
      match inverse with
      | none => return conditional negated path (Branch.of body first) .empty
      | some otherwise =>
        let second ← scope |>.trackStatements root otherwise
        return conditional negated path (Branch.of body first) (Branch.of otherwise second)
partial_fixpoint

/-- The code of statements in order. -/
def Scope.trackStatements (root : NodeId) (scope : Scope) (P : Program) :
    Tracked (List CodeOutput) := do
  match P with
  | [] => return []
  | s :: rest =>
    let first ← scope |>.trackStatement root s
    let others ← scope |>.trackStatements root rest
    return first ++ others
partial_fixpoint

/-- The call of a partial. -/
def Scope.trackPartial (root : NodeId) (scope : Scope) (name : String) (params : List Expr)
    (hash : Hash) : Tracked Atom := do
  let i ← Tracked.of (Lowering.lift (inclusionPlan programs scope name params hash))
  match (← get).state.partials.find? (·.name == name) with
  | some known => Tracked.of (callAgain known root i.group i.context)
  | none =>
    if (← get).inProgress.contains name then throw (.recursivePartial name)
    i |>.trackFirst root name
  return .call i.group name i.context
partial_fixpoint

/-- The first call of a partial. The partial is put on the stack before its body is lowered, and it
is taken off again whether that succeeds or not. -/
def Lower.Inclusion.trackFirst (root : NodeId) (name : String) (i : Inclusion) : Tracked Unit := do
  let node ← Tracked.of (Lowering.infer (resolveNode root i.context))
  let locals := (← get).state.locals
  let outputs ← (do
    modify fun p =>
      { p with inProgress := name :: p.inProgress, state := { p.state with locals := {} } }
    let outcome ← (({} : Scope) |>.trackStatements node i.program).run
    modify fun p => { p with inProgress := p.inProgress.tail }
    return outcome : StateT Progress Option (Except Error (List CodeOutput)))
  modify fun p =>
    let added := newPartial name node (closeAppends Stmt.append outputs) i.group i.context
    { p with state := { p.state with locals, partials := p.state.partials ++ [added] } }
partial_fixpoint

end

end

namespace Lower

/-- The body of a function. -/
def trackBody (programs : List (String × Program)) (root : NodeId) (program : Program) :
    Tracked (List Stmt) := do
  return closeAppends Stmt.append (← Scope.trackStatements programs root {} program)

/-! ## Both have the same outcome -/

section

variable {α β : Type}

/-- A computation does what `n` does while the partials `opened` are being lowered, and leaves the
stack as it was. -/
def Tracks (opened : List String) (m : Tracked α) (n : Lowering α) : Prop :=
  ∀ st, m ⟨st, opened⟩ = Tracked.of n ⟨st, opened⟩

namespace Tracks

variable {opened : List String} {m : Tracked α} {n : Lowering α}

theorem of (n : Lowering α) : Tracks opened (Tracked.of n) n := fun _ => rfl

theorem pure (a : α) : Tracks opened (Pure.pure a) (Pure.pure a) := fun _ => rfl

theorem bind {f : α → Tracked β} {g : α → Lowering β} (hm : Tracks opened m n)
    (hf : ∀ a, Tracks opened (f a) (g a)) : Tracks opened (m >>= f) (n >>= g) := by
  intro st
  have hrun : (m >>= f) ⟨st, opened⟩ =
      (m ⟨st, opened⟩).bind fun r => ExceptT.bindCont f r.1 r.2 := rfl
  rw [hrun, hm st]
  unfold Tracked.of
  change _ = match EStateM.bind n g st with | .ok a state => _ | .error e state => _
  unfold EStateM.bind
  cases hn : n st with
  | ok a st₁ =>
    have hnext := hf a st₁
    simp only
    exact hnext
  | error e st₁ => rfl

end Tracks

end

section

variable {programs : List (String × Program)} {opened : List String} {include_ : Includer}

/-- Inclusions have the outcome that an includer gives them. -/
def TracksInclusions (programs : List (String × Program)) (opened : List String)
    (include_ : Includer) : Prop :=
  ∀ root scope name params hash, Tracks opened
    (scope.trackPartial programs root name params hash) (include_ root scope name params hash)

mutual

theorem trackStatement_tracks (h : TracksInclusions programs opened include_) (root : NodeId) :
    (s : Statement) → (scope : Scope) → Tracks opened (scope.trackStatement programs root s)
      (lowerStatement include_ root scope s)
  | .content value span, scope => by
    rw [Scope.trackStatement, lowerStatement]
    exact .pure _
  | .comment value span, scope => by
    rw [Scope.trackStatement, lowerStatement]
    exact .pure _
  | .constant name span, scope => by
    rw [Scope.trackStatement, lowerStatement]
    exact .pure _
  | .interpolation head params hash escaped span, scope => by
    rw [Scope.trackStatement, lowerStatement]
    exact .bind (.of _) fun _ => .pure _
  | .inclusion name params hash span, scope => by
    rw [Scope.trackStatement, lowerStatement]
    exact .bind (h root scope name params hash) fun _ => .pure _
  | .block head params hash binders body inverse span, scope => by
    have hbody := trackStatements_tracks h root body
    rw [Scope.trackStatement]
    unfold lowerStatement
    refine .bind (.of _) fun kind => ?_
    cases kind with
    | each => exact .bind (.of _) fun loop => .bind (hbody loop.scope) fun _ => .pure _
    | dive => exact .bind (.of _) fun inner => .bind (hbody inner) fun _ => .pure _
    | conditional negated =>
      refine .bind (.of _) fun path => .bind (hbody scope) fun _ => ?_
      cases inverse with
      | none => exact .pure _
      | some otherwise =>
        exact .bind (trackStatements_tracks h root otherwise scope) fun _ => .pure _

theorem trackStatements_tracks (h : TracksInclusions programs opened include_) (root : NodeId) :
    (P : Program) → (scope : Scope) → Tracks opened (scope.trackStatements programs root P)
      (lowerStatements include_ root scope P)
  | [], scope => by
    rw [Scope.trackStatements, lowerStatements]
    exact .pure _
  | s :: rest, scope => by
    rw [Scope.trackStatements, lowerStatements]
    exact .bind (trackStatement_tracks h root s scope) fun _ =>
      .bind (trackStatements_tracks h root rest scope) fun _ => .pure _

end

/-- A body is run with its partial on the stack, which is taken off again. -/
theorem Tracks.body {α : Type} {name : String} {m : Tracked α} {n : Lowering α}
    (h : Tracks (name :: opened) m n) :
    Tracks opened (do
        modify fun p =>
          { p with inProgress := name :: p.inProgress, state := { p.state with locals := {} } }
        let outcome ← m.run
        modify fun p => { p with inProgress := p.inProgress.tail }
        return outcome : StateT Progress Option (Except Error α))
      (fun st => n { st with locals := {} }) := by
  intro st
  change (m ⟨{ st with locals := {} }, name :: opened⟩).bind
    (fun r => some (r.1, Progress.mk r.2.state r.2.inProgress.tail)) = _
  rw [h]
  unfold Tracked.of
  dsimp only
  cases n { st with locals := {} } with
  | ok a st₁ => rfl
  | error e st₁ => rfl

theorem Tracks.get {α : Type} {f : Progress → Tracked α} {g : State → Lowering α}
    (h : ∀ st, Tracks opened (f ⟨st, opened⟩) (g st)) :
    Tracks opened (MonadState.get >>= f) (MonadState.get >>= g) := fun st => h st st

/-- A look at the stack. -/
theorem Tracks.get_left {α : Type} {f : Progress → Tracked α} {n : Lowering α}
    (h : ∀ st, Tracks opened (f ⟨st, opened⟩) n) : Tracks opened (MonadState.get >>= f) n :=
  fun st => h st st

theorem trackFirst_tracks {name : String}
    (h : TracksInclusions programs (name :: opened) include_) (root : NodeId) (i : Inclusion) :
    Tracks opened (i.trackFirst programs root name)
      (callFirst include_ root name i.group i.context i.program) := by
  rw [Inclusion.trackFirst]
  refine .bind (.of _) fun node => ?_
  let body : Lowering (List CodeOutput) :=
    fun st => lowerStatements include_ node {} i.program { st with locals := {} }
  -- a new function is written from a state without local variables, which are restored at its end
  have hfunction : (do
      let code ← Lowering.inNewFunction (lowerBody include_ node i.program)
      modify fun st => { st with partials := st.partials ++
        [newPartial name node code i.group i.context] } : Lowering Unit) = (do
      let locals := (← MonadState.get).locals
      let outputs ← body
      modify fun st => { st with locals, partials := st.partials ++
        [newPartial name node (closeAppends Stmt.append outputs) i.group i.context] }) := by
    funext st
    change _ = (body >>= _) st
    cases hrun : lowerStatements include_ node {} i.program { st with locals := {} } with
    | ok outputs st₁ =>
      have hstart : body st = .ok outputs st₁ := hrun
      have hbody : lowerBody include_ node i.program { st with locals := {} } =
          .ok (closeAppends Stmt.append outputs) st₁ := by
        unfold lowerBody
        rw [Results.run_bind_ok hrun]
        rfl
      have hnew : Lowering.inNewFunction (lowerBody include_ node i.program) st =
          .ok (closeAppends Stmt.append outputs) { st₁ with locals := st.locals } := by
        rw [inNewFunction_eq, hbody]
      rw [Results.run_bind_ok hnew, Results.run_bind_ok hstart]
      rfl
    | error e st₁ =>
      have hstart : body st = .error e st₁ := hrun
      have hbody : lowerBody include_ node i.program { st with locals := {} } = .error e st₁ := by
        unfold lowerBody
        rw [Results.run_bind_error hrun]
      have hnew : Lowering.inNewFunction (lowerBody include_ node i.program) st = .error e st₁ := by
        rw [inNewFunction_eq, hbody]
      rw [Results.run_bind_error hnew, Results.run_bind_error hstart]
  change Tracks opened _ (do
      let code ← Lowering.inNewFunction (lowerBody include_ node i.program)
      modify fun st => { st with partials := st.partials ++
        [newPartial name node code i.group i.context] } : Lowering Unit)
  rw [hfunction]
  refine .get fun st => .bind (.body (trackStatements_tracks h node i.program {})) fun outputs => ?_
  exact fun _ => rfl

theorem Tracks.lift_bind {α β : Type} {x : Except Error α} {f : α → Tracked β}
    {g : α → Lowering β} (hf : ∀ a, x = .ok a → Tracks opened (f a) (g a)) :
    Tracks opened (Tracked.of (Lowering.lift x) >>= f) (Lowering.lift x >>= g) := by
  cases x with
  | error e => exact fun _ => rfl
  | ok a => exact hf a rfl

/-- An inclusion of any level, given the one of the level below. -/
theorem trackPartial_tracks_of {level : Nat}
    (hlevel : Factor.unmet (programs.map (·.1)) opened ≤ level) {name : String}
    (hbelow : ∀ below, level = below + 1 →
      Factor.unmet (programs.map (·.1)) (name :: opened) ≤ below →
        TracksInclusions programs (name :: opened) (includePartial programs below (name :: opened)))
    (root : NodeId) (scope : Scope) (params : List Expr) (hash : Hash) :
    Tracks opened (scope.trackPartial programs root name params hash)
      (includePartial programs level opened root scope name params hash) := by
  rw [Scope.trackPartial, includePartial_eq]
  refine .lift_bind fun i hplan => ?_
  unfold Inclusion.call
  rw [bind_assoc]
  refine .get fun st => ?_
  dsimp only
  cases st.partials.find? (·.name == name) with
  | some known => exact .bind (.of _) fun _ => .pure _
  | none =>
    refine .get_left fun st => ?_
    dsimp only
    cases hopened : opened.contains name with
    | true => exact fun _ => rfl
    | false =>
      have hnew : name ∉ opened := by simpa using hopened
      have hkey : name ∈ programs.map (·.1) :=
        Lookup.lookup_isSome.1 (Option.isSome_of_eq_some (inclusionPlan_eq_ok.1 hplan).2.1)
      have hlt := Factor.unmet_lt hkey hnew
      cases level with
      | zero => omega
      | succ below =>
        exact .bind (trackFirst_tracks (hbelow below rfl (by omega)) root i) fun _ => .pure _

/-- The level of an inclusion does not matter if there are not more partials left than it allows
for. -/
theorem trackPartial_tracks (level : Nat) (opened : List String)
    (hlevel : Factor.unmet (programs.map (·.1)) opened ≤ level) :
    TracksInclusions programs opened (includePartial programs level opened) := by
  induction level, opened using level_induction with
  | step level opened hbelow =>
    intro root scope name params hash
    exact trackPartial_tracks_of hlevel (fun below => hbelow below name) root scope params hash

/-- Lowering without levels has the outcome of lowering, and leaves the stack as it was. -/
theorem trackBody_tracks (programs : List (String × Program)) (opened : List String)
    (root : NodeId) (program : Program) :
    Tracks opened (trackBody programs root program)
      (lowerBody (includePartial programs programs.length opened) root program) := by
  have hlevel : Factor.unmet (programs.map (·.1)) opened ≤ programs.length := by
    unfold Factor.unmet
    simpa using List.countP_le_length (l := programs.map (·.1))
  exact .bind (trackStatements_tracks (trackPartial_tracks _ opened hlevel) root program {})
    fun _ => .pure _

end

/-! ## The main result -/

/-- Lowering comes to an end, with or without levels, and leaves the stack of partials as it was,
whether it succeeds or not; only a program with more than `2 ^ 64` blocks can use up all names.
Where it succeeds from an empty state, the partials that have been lowered are exact. -/
theorem lowering_ends_exact (programs : List (String × Program)) (program : Program) :
    (∀ root p, ∃ outcome p', trackBody programs root program p = some (outcome, p') ∧
      p'.inProgress = p.inProgress ∧
      (p.state.locals = {} → outcome = .error .endless →
        ∃ P, (P = program ∨ P ∈ programs.map (·.2)) ∧ bound64 < blocks P)) ∧
    (∀ root st, trackBody programs root program ⟨st, []⟩ =
      Tracked.of (lowerProgram programs root program) ⟨st, []⟩) ∧
    ∀ code st, lowerProgram programs 0 program State.initial = .ok code st →
      ExactRegistry programs program code st.partials := by
  refine ⟨?_, fun root st => trackBody_tracks programs [] root program st, ?_⟩
  · rintro root ⟨st, opened⟩
    rw [trackBody_tracks programs opened root program st]
    unfold Tracked.of
    cases hrun : lowerBody (includePartial programs programs.length opened) root program st with
    | ok code st' =>
      refine ⟨_, _, rfl, rfl, ?_⟩
      intro _ hendless
      cases hendless
    | error e st' =>
      refine ⟨_, _, rfl, rfl, ?_⟩
      intro hlocals hendless
      cases hendless
      exact exists_blocks_of_endless hlocals hrun
  · intro code st h
    obtain ⟨hwrites, hentered⟩ := lowerProgram_writes h
    exact hentered.exact hwrites

/-- A page with a header, both of which include a logo. -/
def pagePartials : List (String × Program) :=
  [("page", [.inclusion "logo" [.path { written := "brand", parts := ["brand"] }] [] {},
      .inclusion "header" [] [] {}]),
    ("header", [.inclusion "logo" [.path { written := "owner", parts := ["owner"] }] [] {}]),
    ("logo", [.content "*" {}]), ("unused", [.inclusion "unused" [] [] {}])]

/-- A page, and the logo once more. -/
def page : Program :=
  [.inclusion "page" [] [] {},
    .inclusion "logo" [.path { written := "printer", parts := ["printer"] }] [] {}]

/-- Partials that are included several times and by each other; one that includes itself is not
reached. -/
theorem lowering_ends_exact_page :
    ∃ code st, lowerProgram pagePartials 0 page State.initial = .ok code st ∧
      ExactRegistry pagePartials page code st.partials ∧
      st.partials.map (fun p => (p.name, p.callSites.map (·.context.text))) =
        [("logo", ["__input.brand", "__input.owner", "__input.printer"]), ("header", ["__input"]),
          ("page", ["__input"])] ∧
      ∃ outcome p', trackBody pagePartials 0 page ⟨State.initial, []⟩ = some (outcome, p') ∧
        p'.inProgress = [] := by
  obtain ⟨hends, _, hexact⟩ := lowering_ends_exact pagePartials page
  have hrun : endsWith (lowerProgram pagePartials 0 page State.initial) (fun st =>
      st.partials.map (fun p => (p.name, p.callSites.map (·.context.text))) ==
        [("logo", ["__input.brand", "__input.owner", "__input.printer"]), ("header", ["__input"]),
          ("page", ["__input"])]) = true := by
    decide +kernel
  obtain ⟨code, st, hlower, hcheck⟩ := exists_of_endsWith hrun
  obtain ⟨outcome, p', htrack, hstack, _⟩ := hends 0 ⟨State.initial, []⟩
  exact ⟨code, st, hlower, hexact code st hlower, beq_iff_eq.1 hcheck, outcome, p', htrack, hstack⟩

end Lower
end Stencil
