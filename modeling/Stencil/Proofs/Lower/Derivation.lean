import Stencil.Lower.Statement
import Stencil.Proofs.Results

/-!
# Lowering as a derivation

What lowering does when it has a result, one rule for each form of statement. This file defines:

* `Derivation` : lowering a program from one state to another, with the outputs that it gives.

Rules leave to the functions that they mention what is asked of a tag. They say in which order and
in which scope the parts of a program are lowered, and what becomes of their outputs. A program is
lowered if it has a derivation (`lowerStatements_eq_ok`), so what holds of all results is shown by
induction on derivations.
-/

namespace Stencil
namespace Lower

open Code (Atom Stmt closeAppends)
open Template (Expr Hash PathExpr Program Span Statement)
open Stencil.Types (NodeId)
open Lowering (lift)
open Results (run_bind_eq_ok)

/-- A result that needs no state, and what is done with it. -/
theorem lift_bind_eq_ok {α β : Type} {x : Except Error α} {f : α → Lowering β} {b : β}
    {st st' : State} :
    (lift x >>= f) st = .ok b st' ↔ ∃ a, x = .ok a ∧ f a st = .ok b st' := by
  cases x with
  | error e =>
    constructor
    · intro h
      cases h
    · rintro ⟨_, h, _⟩
      cases h
  | ok a =>
    constructor
    · intro h
      exact ⟨a, rfl, h⟩
    · rintro ⟨_, hx, h⟩
      cases hx
      exact h

/-- The outputs of content. -/
def contentOutputs (value : String) : List CodeOutput :=
  if value.isEmpty then [] else appendAtom (.literal value)

/-- Lowering a program on the node `root`, from one state to another. -/
inductive Derivation (include_ : Includer) (root : NodeId) :
    Scope → Program → State → List CodeOutput → State → Prop where
  | nil {scope : Scope} {st : State} : Derivation include_ root scope [] st [] st
  | content {scope : Scope} {value : String} {span : Span} {rest : Program} {st st' : State}
      {others : List CodeOutput} :
      Derivation include_ root scope rest st others st' →
        Derivation include_ root scope (.content value span :: rest) st
          (contentOutputs value ++ others) st'
  | comment {scope : Scope} {value : String} {span : Span} {rest : Program} {st st' : State}
      {others : List CodeOutput} :
      Derivation include_ root scope rest st others st' →
        Derivation include_ root scope (.comment value span :: rest) st others st'
  | constant {scope : Scope} {name : String} {span : Span} {rest : Program} {st st' : State}
      {others : List CodeOutput} :
      Derivation include_ root scope rest st others st' →
        Derivation include_ root scope (.constant name span :: rest) st
          (appendAtom (.constant name) ++ others) st'
  | interpolation {scope : Scope} {head : Expr} {params : List Expr} {hash : Hash}
      {escaped : Bool} {span : Span} {rest : Program} {st st₁ st' : State} {a : Atom}
      {others : List CodeOutput} :
      interpolation root scope head params hash st = .ok a st₁ →
        Derivation include_ root scope rest st₁ others st' →
        Derivation include_ root scope (.interpolation head params hash escaped span :: rest) st
          (appendAtom a ++ others) st'
  | inclusion {scope : Scope} {name : String} {params : List Expr} {hash : Hash} {span : Span}
      {rest : Program} {st st₁ st' : State} {a : Atom} {others : List CodeOutput} :
      include_ root scope name params hash st = .ok a st₁ →
        Derivation include_ root scope rest st₁ others st' →
        Derivation include_ root scope (.inclusion name params hash span :: rest) st
          (appendAtom a ++ others) st'
  | each {scope : Scope} {head : PathExpr} {params : List Expr} {hash : Hash}
      {binders : List String} {body : Program} {span : Span} {rest : Program}
      {st st₁ st₂ st' : State} {loop : OpenLoop} {inside others : List CodeOutput} :
      blockKind head params = .ok .each →
        openLoop root scope params hash binders false st = .ok loop st₁ →
        Derivation include_ root loop.scope body st₁ inside st₂ →
        Derivation include_ root scope rest st₂ others st' →
        Derivation include_ root scope (.block head params hash binders body none span :: rest) st
          ([.statement (.loop loop.index loop.items (closeAppends Stmt.append inside))] ++ others)
          st'
  | dive {scope inner : Scope} {head : PathExpr} {params : List Expr} {hash : Hash}
      {binders : List String} {body : Program} {span : Span} {rest : Program}
      {st st₁ st' : State} {inside others : List CodeOutput} :
      blockKind head params = .ok .dive →
        openWith scope params hash false = .ok inner →
        Derivation include_ root inner body st inside st₁ →
        Derivation include_ root scope rest st₁ others st' →
        Derivation include_ root scope (.block head params hash binders body none span :: rest) st
          ((closeAppends Stmt.append inside).map .statement ++ others) st'
  /-- A missing inverse is as good as an empty one. -/
  | conditional {scope : Scope} {head : PathExpr} {params : List Expr} {hash : Hash}
      {binders : List String} {body : Program} {inverse : Option Program} {span : Span}
      {rest : Program} {negated : Bool} {st st₁ st₂ st₃ st' : State} {path : AccessPath}
      {first second others : List CodeOutput} :
      blockKind head params = .ok (.conditional negated) →
        openCondition root scope head params hash st = .ok path st₁ →
        Derivation include_ root scope body st₁ first st₂ →
        Derivation include_ root scope (inverse.getD []) st₂ second st₃ →
        Derivation include_ root scope rest st₃ others st' →
        Derivation include_ root scope (.block head params hash binders body inverse span :: rest)
          st (conditional negated path (Branch.of body first)
            (Branch.of (inverse.getD []) second) ++ others) st'

section

variable {include_ : Includer} {root : NodeId} {scope : Scope}

/-! ## Derivations of results -/

theorem inverse_of_openLoop {params : List Expr} {hash : Hash} {binders : List String}
    {inverse : Option Program} {loop : OpenLoop} {st st' : State}
    (h : openLoop root scope params hash binders inverse.isSome st = .ok loop st') :
    inverse = none := by
  cases inverse with
  | none => rfl
  | some otherwise => cases h

theorem inverse_of_openWith {params : List Expr} {hash : Hash} {inverse : Option Program}
    {inner : Scope} (h : openWith scope params hash inverse.isSome = .ok inner) :
    inverse = none := by
  cases inverse with
  | none => rfl
  | some otherwise => cases h

mutual

/-- A statement that is lowered stands before any program that is lowered after it. -/
theorem lowerStatement_derivation : (s : Statement) → {scope : Scope} → {st st₁ : State} →
    {first : List CodeOutput} → lowerStatement include_ root scope s st = .ok first st₁ →
      ∀ {rest : Program} {others : List CodeOutput} {st' : State},
        Derivation include_ root scope rest st₁ others st' →
          Derivation include_ root scope (s :: rest) st (first ++ others) st'
  | .content _ _, _, _, _, _, h, _, _, _, hrest => by
    unfold lowerStatement at h
    cases h
    exact .content hrest
  | .comment _ _, _, _, _, _, h, _, _, _, hrest => by
    unfold lowerStatement at h
    cases h
    exact .comment hrest
  | .constant _ _, _, _, _, _, h, _, _, _, hrest => by
    unfold lowerStatement at h
    cases h
    exact .constant hrest
  | .interpolation _ _ _ _ _, _, _, _, _, h, _, _, _, hrest => by
    unfold lowerStatement at h
    obtain ⟨a, st₁, hatom, h⟩ := run_bind_eq_ok.1 h
    cases h
    exact .interpolation hatom hrest
  | .inclusion _ _ _ _, _, _, _, _, h, _, _, _, hrest => by
    unfold lowerStatement at h
    obtain ⟨a, st₁, hatom, h⟩ := run_bind_eq_ok.1 h
    cases h
    exact .inclusion hatom hrest
  | .block head params hash binders body inverse span, _, _, _, _, h, _, _, _, hrest => by
    unfold lowerStatement at h
    obtain ⟨kind, hkind, h⟩ := lift_bind_eq_ok.1 h
    cases kind with
    | each =>
      obtain ⟨loop, st₁, hloop, h⟩ := run_bind_eq_ok.1 h
      obtain ⟨inside, st₂, hinside, h⟩ := run_bind_eq_ok.1 h
      cases h
      obtain rfl := inverse_of_openLoop hloop
      exact .each hkind hloop (lowerStatements_derivation body hinside) hrest
    | dive =>
      obtain ⟨inner, hopen, h⟩ := lift_bind_eq_ok.1 h
      obtain ⟨inside, st₁, hinside, h⟩ := run_bind_eq_ok.1 h
      cases h
      obtain rfl := inverse_of_openWith hopen
      exact .dive hkind hopen (lowerStatements_derivation body hinside) hrest
    | conditional negated =>
      obtain ⟨path, st₁, hpath, h⟩ := run_bind_eq_ok.1 h
      obtain ⟨first, st₂, hfirst, h⟩ := run_bind_eq_ok.1 h
      have hbody := lowerStatements_derivation body hfirst
      cases inverse with
      | none =>
        -- without an inverse, the state stays as the body left it
        cases h
        have hnone : ∀ {scope : Scope} {st : State},
            Derivation include_ root scope (Option.getD none []) st [] st := .nil
        exact .conditional hkind hpath hbody hnone hrest
      | some otherwise =>
        obtain ⟨second, st₃, hsecond, h⟩ := run_bind_eq_ok.1 h
        cases h
        have hotherwise := lowerStatements_derivation otherwise hsecond
        exact .conditional hkind hpath hbody hotherwise hrest

theorem lowerStatements_derivation : (P : Program) → {scope : Scope} → {st st' : State} →
    {outputs : List CodeOutput} → lowerStatements include_ root scope P st = .ok outputs st' →
      Derivation include_ root scope P st outputs st'
  | [], _, _, _, _, h => by
    unfold lowerStatements at h
    cases h
    exact .nil
  | s :: rest, _, _, _, _, h => by
    unfold lowerStatements at h
    obtain ⟨first, st₁, hfirst, h⟩ := run_bind_eq_ok.1 h
    obtain ⟨others, st₂, hothers, h⟩ := run_bind_eq_ok.1 h
    cases h
    exact lowerStatement_derivation s hfirst (lowerStatements_derivation rest hothers)

end

/-! ## Results of derivations -/

theorem lowerStatements_cons {s : Statement} {rest : Program} {st st₁ st' : State}
    {first others : List CodeOutput} (hs : lowerStatement include_ root scope s st = .ok first st₁)
    (hrest : lowerStatements include_ root scope rest st₁ = .ok others st') :
    lowerStatements include_ root scope (s :: rest) st = .ok (first ++ others) st' := by
  unfold lowerStatements
  exact run_bind_eq_ok.2 ⟨first, st₁, hs, run_bind_eq_ok.2 ⟨others, st', hrest, rfl⟩⟩

theorem Derivation.eq_ok {P : Program} {st st' : State} {outputs : List CodeOutput}
    (h : Derivation include_ root scope P st outputs st') :
    lowerStatements include_ root scope P st = .ok outputs st' := by
  induction h with
  | nil => rfl
  | content _ ih =>
    refine lowerStatements_cons ?_ ih
    unfold lowerStatement
    rfl
  | comment _ ih =>
    -- a comment has no outputs in front of those of the rest
    change _ = EStateM.Result.ok ([] ++ _) _
    refine lowerStatements_cons ?_ ih
    unfold lowerStatement
    rfl
  | constant _ ih =>
    refine lowerStatements_cons ?_ ih
    unfold lowerStatement
    rfl
  | interpolation hatom _ ih =>
    refine lowerStatements_cons ?_ ih
    unfold lowerStatement
    exact run_bind_eq_ok.2 ⟨_, _, hatom, rfl⟩
  | inclusion hatom _ ih =>
    refine lowerStatements_cons ?_ ih
    unfold lowerStatement
    exact run_bind_eq_ok.2 ⟨_, _, hatom, rfl⟩
  | each hkind hloop _ _ ihbody ih =>
    refine lowerStatements_cons ?_ ih
    unfold lowerStatement
    refine lift_bind_eq_ok.2 ⟨_, hkind, run_bind_eq_ok.2 ⟨_, _, hloop, ?_⟩⟩
    exact run_bind_eq_ok.2 ⟨_, _, ihbody, rfl⟩
  | dive hkind hopen _ _ ihbody ih =>
    refine lowerStatements_cons ?_ ih
    unfold lowerStatement
    refine lift_bind_eq_ok.2 ⟨_, hkind, lift_bind_eq_ok.2 ⟨_, hopen, ?_⟩⟩
    exact run_bind_eq_ok.2 ⟨_, _, ihbody, rfl⟩
  | conditional hkind hpath _ _ _ ihbody ihinverse ih =>
    refine lowerStatements_cons ?_ ih
    unfold lowerStatement
    refine lift_bind_eq_ok.2 ⟨_, hkind, run_bind_eq_ok.2 ⟨_, _, hpath, ?_⟩⟩
    refine run_bind_eq_ok.2 ⟨_, _, ihbody, ?_⟩
    split
    · cases ihinverse
      rfl
    · exact run_bind_eq_ok.2 ⟨_, _, ihinverse, rfl⟩

/-- A program is lowered just if it has a derivation. -/
theorem lowerStatements_eq_ok {P : Program} {st st' : State} {outputs : List CodeOutput} :
    lowerStatements include_ root scope P st = .ok outputs st' ↔
      Derivation include_ root scope P st outputs st' :=
  ⟨lowerStatements_derivation P, Derivation.eq_ok⟩

end

end Lower
end Stencil
