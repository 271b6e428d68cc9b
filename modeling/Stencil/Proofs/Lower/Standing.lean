import Stencil.Proofs.Lower.Justified
import Stencil.Proofs.Lower.LoopVariables
import Stencil.Proofs.Lower.TypingSound

/-!
# Where statements stand

What a tag means depends on the blocks around it. This file makes its position explicit:

* `Stands scope loops P s inner around` : a statement of `P`, at any depth, with the scope and the
  loops at its place;
* `TagUses inner s target use`          : what the tag of such a statement uses;
* `Routine`                             : the functions of a lowered template.

Together, the first two are `Uses` (`uses_iff`). They leave the names of loop indices open, as `Uses`
does. What a typing or the code says about a program is found at each of its statements, in a scope
that differs in these names only (`Stands.fits`, `Stands.written`). In the other direction, each path
in the code is what a tag uses (`Written.used`).
-/

namespace Stencil
namespace Lower

open Code (Atom Part Placed Stmt)
open Results (bind_eq_ok)
open Template (Expr Hash PathExpr Program Span Statement)
open Stencil.Types (Kind NodeId Shape)

/-! ## Positions -/

/-- A loop around a statement. -/
structure Loop where
  binders : List String
  index : String
  items : AccessPath

/-- A statement stands in a program, where the program stands in a scope and in loops. The last two
are the scope and the loops of the statement, the innermost first. Indices may have any names. -/
inductive Stands : Scope → List Loop → Program → Statement → Scope → List Loop → Prop where
  | here {scope : Scope} {loops : List Loop} {s : Statement} {rest : Program} :
      Stands scope loops (s :: rest) s scope loops
  | later {scope inner : Scope} {loops around : List Loop} {x s : Statement} {rest : Program} :
      Stands scope loops rest s inner around → Stands scope loops (x :: rest) s inner around
  | inLoop {scope inner : Scope} {loops around : List Loop} {head : PathExpr} {params : List Expr}
      {hash : Hash} {binders : List String} {body : Program} {inverse : Option Program}
      {span : Span} {rest : Program} {s : Statement} {items : AccessPath} {index : String} :
      blockKind head params = .ok .each →
        (pathArgument params "each" >>= scope.resolve) = .ok items →
        Stands (loopScope scope binders items index) (⟨binders, index, items⟩ :: loops) body s
          inner around →
        Stands scope loops (.block head params hash binders body inverse span :: rest) s inner
          around
  | inPlace {scope inner : Scope} {loops around : List Loop} {head : PathExpr}
      {params : List Expr} {hash : Hash} {binders : List String} {body : Program}
      {inverse : Option Program} {span : Span} {rest : Program} {s : Statement}
      {place : AccessPath} :
      blockKind head params = .ok .dive →
        (pathArgument params "with" >>= scope.resolve) = .ok place →
        Stands (scope.dive place []) loops body s inner around →
        Stands scope loops (.block head params hash binders body inverse span :: rest) s inner
          around
  | inBranch {scope inner : Scope} {loops around : List Loop} {head : PathExpr}
      {params : List Expr} {hash : Hash} {binders : List String} {body : Program}
      {inverse : Option Program} {span : Span} {rest : Program} {s : Statement} {negated : Bool} :
      blockKind head params = .ok (.conditional negated) →
        Stands scope loops body s inner around →
        Stands scope loops (.block head params hash binders body inverse span :: rest) s inner
          around
  | inInverse {scope inner : Scope} {loops around : List Loop} {head : PathExpr}
      {params : List Expr} {hash : Hash} {binders : List String} {body otherwise : Program}
      {span : Span} {rest : Program} {s : Statement} {negated : Bool} :
      blockKind head params = .ok (.conditional negated) →
        Stands scope loops otherwise s inner around →
        Stands scope loops (.block head params hash binders body (some otherwise) span :: rest) s
          inner around

/-! ## Tags -/

/-- The tag of a statement uses the data at a path. -/
inductive TagUses (scope : Scope) : Statement → AccessPath → Use → Prop where
  | text {p : PathExpr} {params : List Expr} {hash : Hash} {escaped : Bool} {span : Span}
      {target : AccessPath} :
      headHelper? p = .ok none → scope.resolve p = .ok target →
        TagUses scope (.interpolation (.path p) params hash escaped span) target .text
  | helper {p : PathExpr} {params : List Expr} {hash : Hash} {escaped : Bool} {span : Span}
      {target : AccessPath} {helper : Helper} :
      headHelper? p = .ok (some helper) →
        (pathArgument params p.written >>= scope.resolve) = .ok target →
        TagUses scope (.interpolation (.path p) params hash escaped span) target helper.use
  | context {name : String} {params : List Expr} {hash : Hash} {span : Span}
      {target : AccessPath} :
      inclusionContext scope name params = .ok target →
        TagUses scope (.inclusion name params hash span) target .context
  | items {head : PathExpr} {params : List Expr} {hash : Hash} {binders : List String}
      {body : Program} {inverse : Option Program} {span : Span} {target : AccessPath}
      {length : Option Nat} :
      blockKind head params = .ok .each →
        (pathArgument params "each" >>= scope.resolve) = .ok target →
        integerKeyword? hash "length" = .ok length →
        TagUses scope (.block head params hash binders body inverse span) target (.items length)
  | place {head : PathExpr} {params : List Expr} {hash : Hash} {binders : List String}
      {body : Program} {inverse : Option Program} {span : Span} {target : AccessPath} :
      blockKind head params = .ok .dive →
        (pathArgument params "with" >>= scope.resolve) = .ok target →
        TagUses scope (.block head params hash binders body inverse span) target .place
  | flag {head : PathExpr} {params : List Expr} {hash : Hash} {binders : List String}
      {body : Program} {inverse : Option Program} {span : Span} {target : AccessPath}
      {negated : Bool} :
      blockKind head params = .ok (.conditional negated) →
        (conditionPath head params >>= scope.resolve) = .ok target →
        TagUses scope (.block head params hash binders body inverse span) target .flag

section

variable {scope inner : Scope} {loops around : List Loop} {P : Program} {s : Statement}
  {target : AccessPath} {use : Use}

theorem Uses.stands (h : Uses scope P target use) (loops : List Loop) :
    ∃ s inner around, Stands scope loops P s inner around ∧ TagUses inner s target use := by
  induction h generalizing loops with
  | later _ ih =>
    obtain ⟨s, inner, around, hstands, huses⟩ := ih loops
    exact ⟨s, inner, around, .later hstands, huses⟩
  | text hhelper htarget => exact ⟨_, _, _, .here, .text hhelper htarget⟩
  | helper hhelper htarget => exact ⟨_, _, _, .here, .helper hhelper htarget⟩
  | context htarget => exact ⟨_, _, _, .here, .context htarget⟩
  | items hkind htarget hlength => exact ⟨_, _, _, .here, .items hkind htarget hlength⟩
  | place hkind htarget => exact ⟨_, _, _, .here, .place hkind htarget⟩
  | flag hkind htarget => exact ⟨_, _, _, .here, .flag hkind htarget⟩
  | inLoop hkind hitems _ ih =>
    obtain ⟨s, inner, around, hstands, huses⟩ := ih (⟨_, _, _⟩ :: loops)
    exact ⟨s, inner, around, .inLoop hkind hitems hstands, huses⟩
  | inPlace hkind hplace _ ih =>
    obtain ⟨s, inner, around, hstands, huses⟩ := ih loops
    exact ⟨s, inner, around, .inPlace hkind hplace hstands, huses⟩
  | inBranch hkind _ ih =>
    obtain ⟨s, inner, around, hstands, huses⟩ := ih loops
    exact ⟨s, inner, around, .inBranch hkind hstands, huses⟩
  | inInverse hkind _ ih =>
    obtain ⟨s, inner, around, hstands, huses⟩ := ih loops
    exact ⟨s, inner, around, .inInverse hkind hstands, huses⟩

theorem TagUses.uses (h : TagUses scope s target use) (rest : Program) :
    Uses scope (s :: rest) target use := by
  cases h with
  | text hhelper htarget => exact .text hhelper htarget
  | helper hhelper htarget => exact .helper hhelper htarget
  | context htarget => exact .context htarget
  | items hkind htarget hlength => exact .items hkind htarget hlength
  | place hkind htarget => exact .place hkind htarget
  | flag hkind htarget => exact .flag hkind htarget

theorem Stands.uses (h : Stands scope loops P s inner around) (huses : TagUses inner s target use) :
    Uses scope P target use := by
  induction h with
  | here => exact huses.uses _
  | later _ ih => exact .later (ih huses)
  | inLoop hkind hitems _ ih => exact .inLoop hkind hitems (ih huses)
  | inPlace hkind hplace _ ih => exact .inPlace hkind hplace (ih huses)
  | inBranch hkind _ ih => exact .inBranch hkind (ih huses)
  | inInverse hkind _ ih => exact .inInverse hkind (ih huses)

/-- What a program uses is what the tags of its statements use. -/
theorem uses_iff (loops : List Loop) : Uses scope P target use ↔
    ∃ s inner around, Stands scope loops P s inner around ∧ TagUses inner s target use :=
  ⟨fun h => h.stands loops, fun ⟨_, _, _, hstands, huses⟩ => hstands.uses huses⟩

/-- A tag uses one thing in one way. -/
theorem TagUses.unique {target' : AccessPath} {use' : Use} (h : TagUses scope s target use)
    (h' : TagUses scope s target' use') : target = target' ∧ use = use' := by
  have hok : ∀ {α : Type} {x : Except Error α} {a b : α}, x = .ok a → x = .ok b → a = b := by
    rintro α x a b rfl hb
    exact Except.ok.inj hb
  cases h with
  | text hhelper htarget =>
    cases h' with
    | text hhelper' htarget' => exact ⟨hok htarget htarget', rfl⟩
    | helper hhelper' htarget' => cases hok hhelper hhelper'
  | helper hhelper htarget =>
    cases h' with
    | text hhelper' htarget' => cases hok hhelper hhelper'
    | helper hhelper' htarget' =>
      cases hok hhelper hhelper'
      exact ⟨hok htarget htarget', rfl⟩
  | context htarget =>
    cases h' with
    | context htarget' => exact ⟨hok htarget htarget', rfl⟩
  | items hkind htarget hlength =>
    cases h' with
    | items hkind' htarget' hlength' =>
      exact ⟨hok htarget htarget', congrArg Use.items (hok hlength hlength')⟩
    | place hkind' => cases hok hkind hkind'
    | flag hkind' => cases hok hkind hkind'
  | place hkind htarget =>
    cases h' with
    | items hkind' => cases hok hkind hkind'
    | place hkind' htarget' => exact ⟨hok htarget htarget', rfl⟩
    | flag hkind' => cases hok hkind hkind'
  | flag hkind htarget =>
    cases h' with
    | items hkind' => cases hok hkind hkind'
    | place hkind' => cases hok hkind hkind'
    | flag hkind' htarget' => exact ⟨hok htarget htarget', rfl⟩

/-- Where scopes differ in the names of indices only, a tag uses the same. -/
theorem TagUses.parallel (h : TagUses scope s target use) {other : Scope}
    (hother : scope.Parallel other) :
    ∃ target', TagUses other s target' use ∧ target.outline = target'.outline := by
  cases h with
  | text hhelper htarget =>
    obtain ⟨target', htarget', houtline⟩ := hother.resolve htarget
    exact ⟨target', .text hhelper htarget', houtline⟩
  | helper hhelper htarget =>
    obtain ⟨target', htarget', houtline⟩ := hother.bind htarget
    exact ⟨target', .helper hhelper htarget', houtline⟩
  | context htarget =>
    unfold inclusionContext at htarget
    split at htarget
    · next hempty =>
      cases htarget
      refine ⟨other.inner.path, .context ?_, hother.inner⟩
      rw [inclusionContext, if_pos hempty]
    · next hempty =>
      obtain ⟨target', htarget', houtline⟩ := hother.bind htarget
      refine ⟨target', .context ?_, houtline⟩
      rw [inclusionContext, if_neg hempty]
      exact htarget'
  | items hkind htarget hlength =>
    obtain ⟨target', htarget', houtline⟩ := hother.bind htarget
    exact ⟨target', .items hkind htarget' hlength, houtline⟩
  | place hkind htarget =>
    obtain ⟨target', htarget', houtline⟩ := hother.bind htarget
    exact ⟨target', .place hkind htarget', houtline⟩
  | flag hkind htarget =>
    obtain ⟨target', htarget', houtline⟩ := hother.bind htarget
    exact ⟨target', .flag hkind htarget', houtline⟩

end

/-! ## Plans and uses -/

/-- What a use asks of the data at a path. -/
def Use.demand? (use : Use) (target : AccessPath) : Option Demand :=
  use.asks.map fun asked => ⟨target, asked.1, asked.2⟩

/-- A part of code is what a use of a path becomes. -/
def Use.ShownBy : Use → AccessPath → Part → Prop
  | .text, path, part =>
    part = .atom (if path.isVariable then .number false path 0 else .value path)
  | .bytes _, path, part => part = .atom (.value path)
  | .number signed _, path, part => ∃ decimals, part = .atom (.number signed path decimals)
  | .items _, path, part => ∃ index, part = .loop index path
  | .flag, path, part => part = .condition path
  | .context, path, part => ∃ group name, part = .atom (.call group name path)
  | .place, _, _ => False

theorem Use.ShownBy.paths_eq {use : Use} {path : AccessPath} {part : Part}
    (h : use.ShownBy path part) : part.paths = [path] := by
  cases use with
  | text =>
    have hpart : part = .atom _ := h
    rw [hpart]
    split <;> rfl
  | bytes width =>
    cases h
    rfl
  | number signed width =>
    obtain ⟨decimals, rfl⟩ := h
    rfl
  | items length =>
    obtain ⟨index, rfl⟩ := h
    rfl
  | flag =>
    cases h
    rfl
  | context =>
    obtain ⟨group, name, rfl⟩ := h
    rfl
  | place => exact h.elim

section

variable {scope : Scope} {params : List Expr} {hash : Hash}

/-- The plan of an interpolation is what its tag uses; nothing is asked of a loop index that is
written as it is. -/
theorem interpolationPlan_uses {head : Expr} {plan : Atom × Option Demand}
    (h : interpolationPlan scope head params hash = .ok plan) (escaped : Bool) (span : Span) :
    ∃ target use, TagUses scope (.interpolation head params hash escaped span) target use ∧
      use.ShownBy target (.atom plan.1) ∧
      (plan.2 = use.demand? target ∨ plan.2 = none ∧ target.isVariable = true) := by
  unfold interpolationPlan at h
  cases head with
  | path p =>
    obtain ⟨helper, hhelper, h⟩ := bind_eq_ok.1 h
    cases helper with
    | some helper =>
      cases helper with
      | integer signed width =>
        obtain ⟨_, _, h⟩ := bind_eq_ok.1 h
        obtain ⟨decimals, _, h⟩ := bind_eq_ok.1 h
        obtain ⟨target, htarget, h⟩ := bind_eq_ok.1 h
        cases h
        exact ⟨target, _, .helper hhelper htarget, ⟨_, rfl⟩, .inl rfl⟩
      | bytes width =>
        obtain ⟨_, _, h⟩ := bind_eq_ok.1 h
        obtain ⟨target, htarget, h⟩ := bind_eq_ok.1 h
        cases h
        exact ⟨target, _, .helper hhelper htarget, rfl, .inl rfl⟩
    | none =>
      dsimp only at h
      split at h
      · cases h
      · obtain ⟨target, htarget, h⟩ := bind_eq_ok.1 h
        refine ⟨target, .text, .text hhelper htarget, ?_⟩
        cases hvariable : target.isVariable with
        | true =>
          rw [hvariable] at h
          cases h
          exact ⟨by simp [Use.ShownBy, hvariable], .inr ⟨rfl, rfl⟩⟩
        | false =>
          rw [hvariable] at h
          cases h
          exact ⟨by simp [Use.ShownBy, hvariable], .inl rfl⟩
  | _ => cases h

theorem loopPlan_uses {head : PathExpr} {hasInverse : Bool} {d : Demand}
    (hkind : blockKind head params = .ok .each) (h : loopPlan scope params hash hasInverse = .ok d)
    (binders : List String) (body : Program) (inverse : Option Program) (span : Span) :
    TagUses scope (.block head params hash binders body inverse span) d.target (.items d.length) ∧
      (Use.items d.length).demand? d.target = some d ∧ d.target.isVariable = false := by
  unfold loopPlan at h
  cases hasInverse with
  | true => cases h
  | false =>
    obtain ⟨_, _, h⟩ := bind_eq_ok.1 h
    obtain ⟨length, hlength, h⟩ := bind_eq_ok.1 h
    obtain ⟨items, hitems, h⟩ := bind_eq_ok.1 h
    split at h
    · cases h
    · next hvariable =>
      cases h
      exact ⟨.items hkind hitems hlength, rfl, by simpa using hvariable⟩

theorem conditionPlan_uses {head : PathExpr} {negated : Bool} {d : Demand}
    (hkind : blockKind head params = .ok (.conditional negated))
    (h : conditionPlan scope head params hash = .ok d) (binders : List String) (body : Program)
    (inverse : Option Program) (span : Span) :
    TagUses scope (.block head params hash binders body inverse span) d.target .flag ∧
      Use.flag.demand? d.target = some d ∧ d.target.isVariable = false := by
  unfold conditionPlan at h
  obtain ⟨_, _, h⟩ := bind_eq_ok.1 h
  obtain ⟨target, htarget, h⟩ := bind_eq_ok.1 h
  split at h
  · cases h
  · next hvariable =>
    cases h
    exact ⟨.flag hkind htarget, rfl, by simpa using hvariable⟩

end

/-! ## What typings say about statements -/

section

variable {programs : List (String × Program)} {Γ : List Signature} {t : Shape}
  {scope inner other : Scope} {loops around : List Loop} {P : Program} {s : Statement}
  {target : AccessPath} {use : Use}

/-- A tag has what it asks for. -/
theorem Fits.met (h : Fits programs Γ t scope s) (huses : TagUses scope s target use) :
    ∀ d ∈ use.demand? target, d.MetBy t := by
  cases h with
  | content | comment | constant => cases huses
  | @interpolation _ _ _ _ escaped span plan hplan hmet =>
    obtain ⟨target', use', huses', _, hdemand⟩ := interpolationPlan_uses hplan escaped span
    obtain ⟨rfl, rfl⟩ := huses'.unique huses
    intro d hd
    obtain hdemand | ⟨_, hvariable⟩ := hdemand
    · rw [← hdemand] at hd
      exact hmet d hd
    · -- what does not start at the input is met by anything
      intro horigin
      obtain ⟨asked, _, rfl⟩ := Option.map_eq_some_iff.1 hd
      rw [AccessPath.isVariable, horigin] at hvariable
      cases hvariable
  | inclusion =>
    cases huses
    rintro d ⟨⟩
  | @each _ _ _ _ binders body inverse span _ hkind hplan hmet _ =>
    obtain ⟨huses', hdemand, _⟩ := loopPlan_uses hkind hplan binders body inverse span
    obtain ⟨rfl, rfl⟩ := huses'.unique huses
    rw [hdemand]
    rintro d ⟨⟩
    exact hmet
  | dive hkind =>
    cases huses with
    | items hkind' | flag hkind' =>
      rw [hkind] at hkind'
      cases hkind'
    | place =>
      rintro d ⟨⟩
  | @conditional _ _ _ _ binders body inverse span _ _ hkind hplan hmet _ _ =>
    obtain ⟨huses', hdemand, _⟩ := conditionPlan_uses hkind hplan binders body inverse span
    obtain ⟨rfl, rfl⟩ := huses'.unique huses
    rw [hdemand]
    rintro d ⟨⟩
    exact hmet

/-- Where a program fits, each of its statements does, in a scope that differs in the names of
indices only. -/
theorem Stands.fits (h : Stands scope loops P s inner around) (hother : scope.Parallel other)
    (hfits : ∀ x ∈ P, Fits programs Γ t other x) :
    ∃ inner', inner.Parallel inner' ∧ Fits programs Γ t inner' s := by
  induction h generalizing other with
  | here => exact ⟨other, hother, hfits _ List.mem_cons_self⟩
  | later _ ih => exact ih hother fun x hx => hfits x (List.mem_cons_of_mem _ hx)
  | @inLoop _ _ _ _ _ _ _ binders body inverse span _ _ items index hkind hitems _ ih =>
    cases hfits _ List.mem_cons_self with
    | each _ hplan _ hbody =>
      obtain ⟨huses, _⟩ := loopPlan_uses hkind hplan binders body inverse span
      obtain ⟨items', hitems', houtline⟩ := hother.bind hitems
      cases huses with
      | items _ htarget _ =>
        rw [hitems'] at htarget
        cases htarget
        exact ih (loopScope_parallel hother houtline binders index indexBase) hbody
    | dive hkind' | conditional hkind' =>
      rw [hkind] at hkind'
      cases hkind'
  | inPlace hkind hplace _ ih =>
    cases hfits _ List.mem_cons_self with
    | dive _ hopen hbody =>
      obtain ⟨target, htarget, rfl⟩ := openWith_ok hopen
      obtain ⟨place', hplace', houtline⟩ := hother.bind hplace
      rw [hplace'] at htarget
      cases htarget
      exact ih (hother.dive houtline rfl) hbody
    | each hkind' | conditional hkind' =>
      rw [hkind] at hkind'
      cases hkind'
  | inBranch hkind _ ih =>
    cases hfits _ List.mem_cons_self with
    | conditional _ _ _ hbody _ => exact ih hother hbody
    | each hkind' | dive hkind' =>
      rw [hkind] at hkind'
      cases hkind'
  | inInverse hkind _ ih =>
    cases hfits _ List.mem_cons_self with
    | conditional _ _ _ _ hinverse => exact ih hother (hinverse _ rfl)
    | each hkind' | dive hkind' =>
      rw [hkind] at hkind'
      cases hkind'

end

/-! ## What code says about statements -/

section

variable {programs : List (String × Program)} {scope inner other : Scope}
  {loops around : List Loop} {names : List String} {v v' : Variables} {P : Program}
  {s : Statement} {parts : List Placed} {target : AccessPath} {use : Use}

/-- What is written for a program is what is written for its first statement and for the others. -/
theorem Written.uncons (h : Written programs scope names v (s :: P) parts v') :
    ∃ first others v₁, Written programs scope names v [s] first v₁ ∧
      Written programs scope names v₁ P others v' ∧ parts = first ++ others := by
  cases h with
  | content hrest =>
    refine ⟨_, _, _, .content .nil, hrest, ?_⟩
    rw [List.append_nil]
  | comment hrest => exact ⟨_, _, _, .comment .nil, hrest, rfl⟩
  | constant hrest => exact ⟨_, _, _, .constant .nil, hrest, rfl⟩
  | interpolation hplan hrest => exact ⟨_, _, _, .interpolation hplan .nil, hrest, rfl⟩
  | inclusion hplan hrest => exact ⟨_, _, _, .inclusion hplan .nil, hrest, rfl⟩
  | each hkind hplan hindex hbody hrest =>
    refine ⟨_, _, _, .each hkind hplan hindex hbody .nil, hrest, ?_⟩
    simp
  | dive hkind hopen hbody hrest =>
    refine ⟨_, _, _, .dive hkind hopen hbody .nil, hrest, ?_⟩
    simp
  | conditional hkind hplan htest hbody hinverse hrest =>
    refine ⟨_, _, _, .conditional hkind hplan htest hbody hinverse .nil, hrest, ?_⟩
    simp

/-- Where a program is written, each of its statements is, in a scope that differs in the names of
indices only. -/
theorem Stands.written (h : Stands scope loops P s inner around) (hother : scope.Parallel other)
    (hwritten : Written programs other names v P parts v') :
    ∃ inner' names' v₁ v₂ own, inner.Parallel inner' ∧
      Written programs inner' names' v₁ [s] own v₂ ∧ own ⊆ parts := by
  -- the code of a statement is part of the code around it, in scopes that grow apart in names only
  induction h generalizing other names v parts v' with
  | here =>
    obtain ⟨first, others, v₁, hfirst, _, rfl⟩ := hwritten.uncons
    exact ⟨other, names, v, v₁, first, hother, hfirst, List.subset_append_left _ _⟩
  | later _ ih =>
    obtain ⟨first, others, v₁, _, hothers, rfl⟩ := hwritten.uncons
    obtain ⟨inner', names', v₂, v₃, own, hinner, hown, hsub⟩ := ih hother hothers
    exact ⟨inner', names', v₂, v₃, own, hinner, hown,
      List.Subset.trans hsub (List.subset_append_right _ _)⟩
  | @inLoop _ _ _ _ _ _ _ binders body inverse span _ _ items index hkind hitems _ ih =>
    cases hwritten with
    | @each _ _ _ _ _ _ _ _ _ _ _ _ _ inside parts d index' _ hplan _ hbody _ =>
      obtain ⟨huses, _⟩ := loopPlan_uses hkind hplan binders body none span
      obtain ⟨items', hitems', houtline⟩ := hother.bind hitems
      cases huses with
      | items _ htarget _ =>
        rw [hitems'] at htarget
        cases htarget
        obtain ⟨inner', names', v₂, v₃, own, hinner, hown, hsub⟩ :=
          ih (loopScope_parallel hother houtline binders index index') hbody
        refine ⟨inner', names', v₂, v₃, own, hinner, hown, fun x hx => ?_⟩
        exact List.mem_cons_of_mem _ (List.mem_append_left _ (hsub hx))
    | dive hkind' | conditional hkind' =>
      rw [hkind] at hkind'
      cases hkind'
  | inPlace hkind hplace _ ih =>
    cases hwritten with
    | dive _ hopen hbody _ =>
      obtain ⟨target, htarget, rfl⟩ := openWith_ok hopen
      obtain ⟨place', hplace', houtline⟩ := hother.bind hplace
      rw [hplace'] at htarget
      cases htarget
      obtain ⟨inner', names', v₂, v₃, own, hinner, hown, hsub⟩ :=
        ih (hother.dive houtline rfl) hbody
      exact ⟨inner', names', v₂, v₃, own, hinner, hown,
        List.Subset.trans hsub (List.subset_append_left _ _)⟩
    | each hkind' | conditional hkind' =>
      rw [hkind] at hkind'
      cases hkind'
  | inBranch hkind _ ih =>
    cases hwritten with
    | conditional _ _ _ hbody _ _ =>
      obtain ⟨inner', names', v₂, v₃, own, hinner, hown, hsub⟩ := ih hother hbody
      refine ⟨inner', names', v₂, v₃, own, hinner, hown, fun x hx => ?_⟩
      exact List.mem_append_right _ (List.mem_append_left _ (hsub hx))
    | each hkind' | dive hkind' =>
      rw [hkind] at hkind'
      cases hkind'
  | inInverse hkind _ ih =>
    cases hwritten with
    | conditional _ _ _ _ hinverse _ =>
      obtain ⟨inner', names', v₂, v₃, own, hinner, hown, hsub⟩ := ih hother hinverse
      refine ⟨inner', names', v₂, v₃, own, hinner, hown, fun x hx => ?_⟩
      exact List.mem_append_right _ (List.mem_append_right _ (List.mem_append_left _ (hsub hx)))

/-- What the tag of a statement uses is in the code for it. The flag of a condition may be missing,
and a place that is only looked from is never written. -/
theorem Written.shows {parts : List Placed} (h : Written programs scope names v [s] parts v')
    (huses : TagUses scope s target use) (hplace : use ≠ .place) (hflag : use ≠ .flag) :
    ∃ x ∈ parts, use.ShownBy target x.2 := by
  cases h with
  | content | comment | constant => cases huses
  | @interpolation _ _ _ _ _ _ _ escaped span _ _ plan hplan _ =>
    obtain ⟨target', use', huses', hshown, _⟩ := interpolationPlan_uses hplan escaped span
    obtain ⟨rfl, rfl⟩ := huses'.unique huses
    exact ⟨_, List.mem_cons_self, hshown⟩
  | inclusion hplan _ =>
    cases huses with
    | context hcontext =>
      obtain ⟨_, _, _, _, hcontext'⟩ := inclusionPlan_eq_ok.1 hplan
      rw [hcontext] at hcontext'
      cases hcontext'
      exact ⟨_, List.mem_cons_self, _, _, rfl⟩
  | @each _ _ _ _ _ _ _ _ _ binders body span _ _ _ _ _ hkind hplan _ _ _ =>
    obtain ⟨huses', _⟩ := loopPlan_uses hkind hplan binders body none span
    obtain ⟨rfl, rfl⟩ := huses'.unique huses
    exact ⟨_, List.mem_cons_self, _, rfl⟩
  | dive hkind _ _ _ =>
    cases huses with
    | items hkind' =>
      rw [hkind] at hkind'
      cases hkind'
    | place => exact absurd rfl hplace
    | flag => exact absurd rfl hflag
  | conditional hkind _ _ _ _ _ =>
    cases huses with
    | items hkind' =>
      rw [hkind] at hkind'
      cases hkind'
    | place => exact absurd rfl hplace
    | flag => exact absurd rfl hflag

/-- What a program uses is in its code, up to the names of indices. -/
theorem Uses.shown {parts : List Placed} (h : Uses scope P target use)
    (hwritten : Written programs scope names v P parts v') (hplace : use ≠ .place)
    (hflag : use ≠ .flag) :
    ∃ x ∈ parts, ∃ path, path.outline = target.outline ∧ use.ShownBy path x.2 := by
  obtain ⟨s, inner, around, hstands, huses⟩ := h.stands []
  obtain ⟨inner', names', v₁, v₂, own, hinner, hown, hsub⟩ := hstands.written (.refl _) hwritten
  obtain ⟨path, hpath, houtline⟩ := huses.parallel hinner
  obtain ⟨x, hx, hshown⟩ := hown.shows hpath hplace hflag
  exact ⟨x, hsub hx, path, houtline.symm, hshown⟩

/-- Each path in parts of code is what a program uses. -/
def AllUsed (scope : Scope) (P : Program) (parts : List Placed) : Prop :=
  ∀ x ∈ parts, ∀ path ∈ x.2.paths, ∃ use, Uses scope P path use ∧ use.ShownBy path x.2

namespace AllUsed

variable {others : List Placed} {Q : Program}

theorem mono (h : AllUsed scope P parts)
    (huses : ∀ {path use}, Uses scope P path use → Uses other Q path use) :
    AllUsed other Q parts := by
  intro x hx path hpath
  obtain ⟨use, hpathUses, hshown⟩ := h x hx path hpath
  exact ⟨use, huses hpathUses, hshown⟩

theorem append (h : AllUsed scope P parts) (h' : AllUsed scope P others) :
    AllUsed scope P (parts ++ others) :=
  List.forall_mem_append.2 ⟨h, h'⟩

/-- The part that a tag becomes. -/
theorem cons (huses : TagUses scope s target use) {x : Placed} (hshown : use.ShownBy target x.2)
    (h : AllUsed scope (s :: P) parts) : AllUsed scope (s :: P) (x :: parts) := by
  refine List.forall_mem_cons.2 ⟨fun path hpath => ?_, h⟩
  rw [hshown.paths_eq, List.mem_singleton] at hpath
  subst hpath
  exact ⟨use, huses.uses P, hshown⟩

end AllUsed

/-- A path in the code is used by the program that the code is written for. -/
theorem Written.used (h : Written programs scope names v P parts v') : AllUsed scope P parts := by
  induction h with
  | nil =>
    intro x hx
    cases hx
  | content _ ih =>
    refine AllUsed.append ?_ (ih.mono .later)
    split
    · simp [AllUsed]
    · simp [AllUsed, Part.paths, Atom.paths]
  | comment _ ih => exact ih.mono .later
  | constant _ ih =>
    refine List.forall_mem_cons.2 ⟨fun path hpath => ?_, ih.mono .later⟩
    cases hpath
  | @interpolation _ _ _ _ _ _ _ escaped span _ _ _ hplan _ ih =>
    obtain ⟨target, use, huses, hshown, _⟩ := interpolationPlan_uses hplan escaped span
    exact (ih.mono .later).cons huses hshown
  | inclusion hplan _ ih =>
    obtain ⟨_, _, _, _, hcontext⟩ := inclusionPlan_eq_ok.1 hplan
    exact (ih.mono .later).cons (.context hcontext) ⟨_, _, rfl⟩
  | @each _ _ _ _ _ _ _ _ _ binders body span _ _ _ _ _ hkind hplan _ _ _ ihbody ihrest =>
    obtain ⟨huses, _⟩ := loopPlan_uses hkind hplan binders body none span
    refine AllUsed.cons huses ⟨_, rfl⟩ (AllUsed.append ?_ (ihrest.mono .later))
    cases huses with
    | items _ hitems _ => exact ihbody.mono fun hinside => .inLoop hkind hitems hinside
  | dive hkind hopen _ _ ihbody ihrest =>
    obtain ⟨place, hplace, rfl⟩ := openWith_ok hopen
    exact (ihbody.mono fun hinside => .inPlace hkind hplace hinside).append (ihrest.mono .later)
  | @conditional scope _ _ _ _ _ head params hash binders body inverse span rest _ _ second _ _ _
      hkind hplan htest _ _ _ ihbody ihinverse ihrest =>
    have hsecond :
        AllUsed scope (.block head params hash binders body inverse span :: rest) second := by
      refine ihinverse.mono fun hinside => ?_
      cases inverse with
      | none => cases hinside
      | some otherwise => exact .inInverse hkind hinside
    have hbranches := (ihbody.mono (.inBranch hkind)).append (hsecond.append (ihrest.mono .later))
    obtain rfl | rfl := htest
    · exact hbranches
    · obtain ⟨huses, _⟩ := conditionPlan_uses hkind hplan binders body inverse span
      exact AllUsed.cons huses rfl hbranches

end

/-! ## Functions -/

/-- The functions of a lowered template: their names, unless it is the main one, their programs,
their code, and the nodes of their inputs. -/
inductive Routine (programs : List (String × Program)) (program : Program) (l : Lowered) :
    Option String → Program → List Stmt → NodeId → Prop where
  | main : Routine programs program l none program l.code l.root
  | part {p : LoweredPartial} {body : Program} :
      p ∈ l.partials → programs.lookup p.name = some body →
        Routine programs program l (some p.name) body p.code p.input

section

variable {programs : List (String × Program)} {program P : Program} {l : Lowered}
  {name : Option String} {code : List Stmt} {input : NodeId}

/-- The code of a function is what its program becomes. -/
theorem Routine.writes (h : Routine programs program l name P code input)
    (hl : lower programs program = .ok l) : Writes programs P code := by
  obtain ⟨hmain, hentered⟩ := lower_writes hl
  cases h with
  | main => exact hmain
  | part hp hbody =>
    obtain ⟨body', hbody', hwrites⟩ := hentered.writes _ hp
    rw [hbody] at hbody'
    cases hbody'
    exact hwrites

/-- The statements of a function have what they ask for from the type of its input. -/
theorem Routine.fits (h : Routine programs program l name P code input)
    (hl : lower programs program = .ok l) :
    ∀ s ∈ P, Fits programs (signatures l.store l.partials) (l.store.shape input) {} s := by
  have htyping := lower_typing hl
  obtain ⟨_, _, _, _, _, _, hroot⟩ := lower_ok.1 hl
  cases h with
  | main =>
    rw [hroot]
    exact htyping.body
  | @part p _ hp hbody =>
    obtain ⟨i, hi⟩ := List.mem_iff_getElem?.1 hp
    have hσ : (signatures l.store l.partials)[i]? = some (p.signature l.store) := by
      rw [signatures, List.getElem?_map, hi]
      rfl
    obtain ⟨body', hbody', _, hfits⟩ := htyping.partials i _ hσ
    cases Option.some.inj (hbody.symm.trans hbody')
    intro s hs
    exact (hfits s hs).mono (List.take_subset _ _)

end

end Lower
end Stencil
