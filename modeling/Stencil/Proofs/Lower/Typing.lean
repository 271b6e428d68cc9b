import Mathlib.Data.List.Perm.Subperm
import Stencil.Proofs.Lower.Plans

/-!
# Types of templates

A template can be lowered if there is a type of its input, and a type for the context of each of
its partials, under which every tag has the data that it asks for. This file says so without
lowering anything:

* `Signature`    : the group of a partial and the type of its context;
* `Fits`         : a statement has what it asks for, by one rule for each form of statement;
* `Variables.after`, `programLoops` : the names of loop indices, which may run out;
* `Typing`       : types of the input and of the partials for a whole template.

Statements that stand side by side are typed independently of each other, so that a typing does not
depend on their order (`Typing.perm`).
-/

namespace Stencil

/-- The local variables of a function after a number of loops. -/
def Variables.after : Nat → Option Variables
  | 0 => some {}
  | n + 1 => (Variables.after n).bind fun v => (v.allocate Lower.indexBase).map (·.2)

/-- If there are names for some loops, there are names for fewer. -/
theorem Variables.after_of_le {m n : Nat} (h : m ≤ n) (hn : (Variables.after n).isSome) :
    (Variables.after m).isSome := by
  induction h with
  | refl => exact hn
  | step _ ih =>
    apply ih
    rw [Variables.after] at hn
    cases hv : Variables.after _ with
    | none =>
      rw [hv] at hn
      cases hn
    | some v => rfl

namespace Lower

open Template (Expr Hash PathExpr Program Span Statement)
open Stencil.Types (Kind NodeId Shape)

/-! ## Statements -/

/-- What is known about a partial where it is included. -/
structure Signature where
  name : String
  group : Option String
  /-- The type of its contexts. -/
  input : Shape

/-- A statement has what it asks for from an input of the type `t`, with partials as in `Γ`. Loop
indices have one name for all loops, as names make no difference to what is asked for. -/
inductive Fits (programs : List (String × Program)) (Γ : List Signature) (t : Shape) :
    Scope → Statement → Prop where
  | content {scope : Scope} {value : String} {span : Span} :
      Fits programs Γ t scope (.content value span)
  | comment {scope : Scope} {value : String} {span : Span} :
      Fits programs Γ t scope (.comment value span)
  | constant {scope : Scope} {name : String} {span : Span} :
      Fits programs Γ t scope (.constant name span)
  | interpolation {scope : Scope} {head : Expr} {params : List Expr} {hash : Hash}
      {escaped : Bool} {span : Span} {plan : Code.Atom × Option Demand} :
      interpolationPlan scope head params hash = .ok plan → (∀ d ∈ plan.2, d.MetBy t) →
        Fits programs Γ t scope (.interpolation head params hash escaped span)
  | inclusion {scope : Scope} {name : String} {params : List Expr} {hash : Hash} {span : Span}
      {i : Inclusion} {σ : Signature} {u : Shape} :
      inclusionPlan programs scope name params hash = .ok i → i.context.origin = .input →
        σ ∈ Γ → σ.name = name → σ.group = i.group →
        t.follow (i.context.accessors.map Accessor.step) = some u → u.Same σ.input →
        Fits programs Γ t scope (.inclusion name params hash span)
  | each {scope : Scope} {head : PathExpr} {params : List Expr} {hash : Hash}
      {binders : List String} {body : Program} {inverse : Option Program} {span : Span}
      {d : Demand} :
      blockKind head params = .ok .each → loopPlan scope params hash inverse.isSome = .ok d →
        d.MetBy t →
        (∀ s ∈ body, Fits programs Γ t (loopScope scope binders d.target indexBase) s) →
        Fits programs Γ t scope (.block head params hash binders body inverse span)
  | dive {scope inner : Scope} {head : PathExpr} {params : List Expr} {hash : Hash}
      {binders : List String} {body : Program} {inverse : Option Program} {span : Span} :
      blockKind head params = .ok .dive → openWith scope params hash inverse.isSome = .ok inner →
        (∀ s ∈ body, Fits programs Γ t inner s) →
        Fits programs Γ t scope (.block head params hash binders body inverse span)
  | conditional {scope : Scope} {head : PathExpr} {params : List Expr} {hash : Hash}
      {binders : List String} {body : Program} {inverse : Option Program} {span : Span}
      {negated : Bool} {d : Demand} :
      blockKind head params = .ok (.conditional negated) →
        conditionPlan scope head params hash = .ok d → d.MetBy t →
        (∀ s ∈ body, Fits programs Γ t scope s) →
        (∀ otherwise, inverse = some otherwise → ∀ s ∈ otherwise, Fits programs Γ t scope s) →
        Fits programs Γ t scope (.block head params hash binders body inverse span)

/-- More partials do no harm. -/
theorem Fits.mono {programs : List (String × Program)} {Γ Δ : List Signature} {t : Shape}
    {scope : Scope} {s : Statement} (h : Fits programs Γ t scope s) (hsub : Γ ⊆ Δ) :
    Fits programs Δ t scope s := by
  induction h with
  | content => exact .content
  | comment => exact .comment
  | constant => exact .constant
  | interpolation hplan hmet => exact .interpolation hplan hmet
  | inclusion hplan horigin hσ hname hgroup hu hsame =>
    exact .inclusion hplan horigin (hsub hσ) hname hgroup hu hsame
  | each hkind hplan hmet _ ih => exact .each hkind hplan hmet ih
  | dive hkind hopen _ ih => exact .dive hkind hopen ih
  | conditional hkind hplan hmet _ _ ih ih' => exact .conditional hkind hplan hmet ih ih'

/-! ## Loops -/

mutual

/-- How many loops there are in a statement. -/
def statementLoops : Statement → Nat
  | .block head params _ _ body inverse _ =>
    (match blockKind head params with | .ok .each => 1 | _ => 0) + programLoops body +
      (match inverse with | none => 0 | some otherwise => programLoops otherwise)
  | _ => 0

def programLoops : Program → Nat
  | [] => 0
  | s :: rest => statementLoops s + programLoops rest

end

theorem programLoops_perm {P Q : Program} (h : P.Perm Q) : programLoops P = programLoops Q := by
  induction h with
  | nil => rfl
  | cons s _ ih => rw [programLoops, programLoops, ih]
  | swap s s' rest =>
    simp only [programLoops]
    exact Nat.add_left_comm _ _ _
  | trans _ _ ih ih' => exact ih.trans ih'

section

variable {head : PathExpr} {params : List Expr} {hash : Hash} {binders : List String}
  {body : Program} {inverse : Option Program} {span : Span}

theorem statementLoops_each (h : blockKind head params = .ok .each) :
    statementLoops (.block head params hash binders body none span) = 1 + programLoops body := by
  simp [statementLoops, h]

theorem statementLoops_dive (h : blockKind head params = .ok .dive) :
    statementLoops (.block head params hash binders body none span) = programLoops body := by
  simp [statementLoops, h]

theorem statementLoops_conditional {negated : Bool}
    (h : blockKind head params = .ok (.conditional negated)) :
    statementLoops (.block head params hash binders body inverse span) =
      programLoops body + programLoops (inverse.getD []) := by
  cases inverse <;> simp [statementLoops, programLoops, h]

end

/-! ## Templates -/

/-- A partial has what it asks for from its contexts, with the partials in `Γ`, and all of its loops
have names. -/
def Signature.Typed (programs : List (String × Program)) (Γ : List Signature) (σ : Signature) :
    Prop :=
  ∃ program, programs.lookup σ.name = some program ∧
    (Variables.after (programLoops program)).isSome ∧
    ∀ s ∈ program, Fits programs Γ σ.input {} s

/-- Types for the input of a template and for the contexts of its partials, where each partial
includes only those before it. -/
structure Typing (programs : List (String × Program)) (P : Program) (Γ : List Signature)
    (t : Shape) : Prop where
  root : t.label.kind = some .struct
  names : (Γ.map (·.name)).Nodup
  partials : ∀ (i : Nat) (σ : Signature), Γ[i]? = some σ → σ.Typed programs (Γ.take i)
  loops : (Variables.after (programLoops P)).isSome
  body : ∀ s ∈ P, Fits programs Γ t {} s

/-- The order of statements makes no difference. -/
theorem Typing.perm {programs : List (String × Program)} {P Q : Program} {Γ : List Signature}
    {t : Shape} (h : Typing programs P Γ t) (hperm : P.Perm Q) : Typing programs Q Γ t where
  root := h.root
  names := h.names
  partials := h.partials
  loops := by
    rw [← programLoops_perm hperm]
    exact h.loops
  body := by
    intro s hs
    exact h.body s (hperm.mem_iff.2 hs)

/-- There are no more partials than programs. -/
theorem Typing.length_le {programs : List (String × Program)} {P : Program} {Γ : List Signature}
    {t : Shape} (h : Typing programs P Γ t) : Γ.length ≤ programs.length := by
  have hsub : Γ.map (·.name) ⊆ programs.map (·.1) := by
    intro name hname
    obtain ⟨σ, hσ, rfl⟩ := List.mem_map.1 hname
    obtain ⟨i, hi⟩ := List.mem_iff_getElem?.1 hσ
    obtain ⟨program, hprogram, _⟩ := h.partials i σ hi
    exact List.mem_map.2 ⟨_, Lookup.mem_of_lookup hprogram, rfl⟩
  have hle := (List.subperm_of_subset h.names hsub).length_le
  rwa [List.length_map, List.length_map] at hle

end Lower
end Stencil
