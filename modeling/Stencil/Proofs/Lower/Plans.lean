import Stencil.Proofs.Lower.Evolution
import Stencil.Proofs.Lower.Uses
import Stencil.Proofs.Types.Shape

/-!
# What tags ask for

The syntax of a tag and its scope say what the tag asks of which data. Only then is the state of
lowering looked at. This file takes the two apart:

* `Demand`                             : a kind and a length that some data is asked to have;
* `interpolationPlan`, `loopPlan`, `conditionPlan`, `inclusionPlan` : what a tag asks for;
* `interpolation_eq`, `openLoop_eq`, `openCondition_eq`, `includePartial_eq` : a tag is lowered by
  making its plan and then carrying it out.

Plans depend on the names of loop indices in their paths only. Scopes that differ in these names
are `Parallel`, and make plans that ask for the same.
-/

namespace Stencil

open Meaning (Sight View)
open Template (PathExpr)

/-! ## Outlines of paths -/

/-- What a path is without the names of loop indices: whether it starts at the input, and its
steps. -/
def AccessPath.outline (path : AccessPath) : Bool × List Step :=
  (path.origin == .input, path.accessors.map Accessor.step)

theorem AccessPath.outline_push (path : AccessPath) (a : Accessor) :
    (path.push a).outline = (path.outline.1, path.outline.2 ++ [a.step]) := by
  simp [outline, push]

theorem AccessPath.isVariable_eq (path : AccessPath) :
    path.isVariable = (!path.outline.1 && path.outline.2.isEmpty) := by
  unfold isVariable outline
  cases path.origin with
  | input => rfl
  | «variable» name => simp

theorem AccessPath.origin_eq_of_outline {path other : AccessPath} (h : path.outline = other.outline)
    (hpath : path.origin = .input) : other.origin = .input := by
  have hfirst := congrArg Prod.fst h
  simpa [outline, hpath] using hfirst.symm

theorem AccessPath.steps_eq_of_outline {path other : AccessPath}
    (h : path.outline = other.outline) :
    path.accessors.map Accessor.step = other.accessors.map Accessor.step :=
  congrArg Prod.snd h

theorem Frame.resolve_of_look {f : Frame} {p : PathExpr} {path : AccessPath}
    (h : f.sight.look AccessPath.segment p = some path) : f.resolve p = .ok path := by
  unfold Sight.look at h
  unfold Frame.resolve
  by_cases hdata : p.data = true
  · simp only [hdata, if_true] at h ⊢
    by_cases hindex : "@" ++ ".".intercalate p.parts = indexAlias
    · simp only [hindex, if_true] at h
      simp only [hindex, bne_self_eq_false, Bool.false_eq_true, if_false]
      have hlookup : f.aliases.lookup indexAlias = some path := h
      rw [hlookup]
    · simp [hindex] at h
  · simp only [hdata, Bool.false_eq_true, if_false] at h ⊢
    cases hparts : p.parts with
    | nil =>
      simp only [hparts, Option.some.injEq] at h
      exact congrArg Except.ok h
    | cons head rest =>
      simp only [hparts, Option.some.injEq] at h
      exact congrArg Except.ok h

/-- What is looked up in a scope is what the scope resolves. -/
theorem Scope.resolve_of_look {s : Scope} {p : PathExpr} {path : AccessPath}
    (h : s.view.look AccessPath.segment p = some path) : s.resolve p = .ok path := by
  have hsights : s.view.inner :: s.view.outer = (s.inner :: s.outer).map Frame.sight := rfl
  unfold View.look at h
  rw [hsights, List.getElem?_map] at h
  unfold Scope.resolve
  by_cases hdepth : p.depth = 0
  · rw [hdepth] at h
    simp only [hdepth, beq_self_eq_true, if_true]
    exact Frame.resolve_of_look h
  · have hbeq : (p.depth == 0) = false := by
      simpa using hdepth
    simp only [hbeq, Bool.false_eq_true, if_false]
    change ((s.climb p.depth).map Frame.sight).bind _ = _ at h
    cases hframe : s.climb p.depth with
    | none =>
      rw [hframe] at h
      cases h
    | some frame =>
      rw [hframe] at h
      exact Frame.resolve_of_look (p := p.withoutDepth) h

namespace Scope

/-- Two scopes that differ in the names of loop indices only. -/
def Parallel (a b : Scope) : Prop := a.view.map AccessPath.outline = b.view.map AccessPath.outline

namespace Parallel

variable {a b : Scope}

theorem refl (a : Scope) : a.Parallel a := rfl

theorem symm (h : a.Parallel b) : b.Parallel a := Eq.symm h

/-- A reference that one scope resolves is resolved by the other. -/
theorem resolve (h : a.Parallel b) {p : PathExpr} {x : AccessPath} (ha : a.resolve p = .ok x) :
    ∃ y, b.resolve p = .ok y ∧ x.outline = y.outline := by
  -- looking something up in the outlines of a view is the outline of what the view has there
  have hlook : ∀ c : Scope, (c.view.map AccessPath.outline).look
      (fun o part => (o.1, o.2 ++ [(Accessor.ofSegment part).step])) p =
        (c.view.look AccessPath.segment p).map AccessPath.outline :=
    fun c => View.look_map (fun path part => path.outline_push _) c.view p
  have hsame := hlook b
  rw [← h, hlook a, look_of_resolve ha] at hsame
  obtain ⟨y, hy, houtline⟩ := Option.map_eq_some_iff.1 hsame.symm
  exact ⟨y, resolve_of_look hy, houtline.symm⟩

/-- The same for a reference that is an argument. -/
theorem bind (h : a.Parallel b) {c : Except Error PathExpr} {x : AccessPath}
    (ha : (c >>= a.resolve) = .ok x) : ∃ y, (c >>= b.resolve) = .ok y ∧ x.outline = y.outline := by
  obtain ⟨p, rfl, ha⟩ := Results.bind_eq_ok.1 ha
  exact h.resolve ha

theorem inner (h : a.Parallel b) : a.inner.path.outline = b.inner.path.outline :=
  congrArg (fun v => v.inner.here) h

theorem dive (h : a.Parallel b) {x y : AccessPath} (hxy : x.outline = y.outline)
    {aliases aliases' : List (String × AccessPath)}
    (haliases : (aliases.map fun e => (e.1, e.2.outline)) =
      aliases'.map fun e => (e.1, e.2.outline)) :
    (a.dive x aliases).Parallel (b.dive y aliases') := by
  unfold Parallel
  rw [view_dive, view_dive, View.map_enter, View.map_enter, h, hxy, List.map_reverse,
    List.map_reverse, haliases]

end Parallel

end Scope

namespace Lower

open Code (Atom Stmt)
open Template (Expr Hash PathExpr Program)
open Stencil.Types (Kind Label NodeId Shape narrow)
open Lowering (infer lift)
open Results (bind_eq_ok run_bind_eq_ok)

/-- The scope of a loop's body. -/
def loopScope (scope : Scope) (binders : List String) (items : AccessPath) (index : String) :
    Scope :=
  scope.dive (items.push (.index index)) (loopAliases binders index (items.push (.index index)))

theorem loopScope_parallel {a b : Scope} (h : a.Parallel b) {items items' : AccessPath}
    (hitems : items.outline = items'.outline) (binders : List String) (index index' : String) :
    (loopScope a binders items index).Parallel (loopScope b binders items' index') := by
  have hitem : (items.push (.index index)).outline = (items'.push (.index index')).outline := by
    rw [AccessPath.outline_push, AccessPath.outline_push, hitems]
    rfl
  apply h.dive hitem
  -- the position goes by another name, of which its outline keeps nothing
  have hposition : ∀ name, (⟨.variable name, []⟩ : AccessPath).outline = (false, []) :=
    fun _ => rfl
  unfold loopAliases
  by_cases hthis : (binders.headD "this" == "this") = true
  · simp only [hthis, if_true, List.map_cons, List.map_nil, hposition]
  · simp only [hthis, Bool.false_eq_true, if_false, List.map_cons, List.map_nil, hposition, hitem]

/-! ## Demands -/

/-- What is asked of the data at a path. -/
structure Demand where
  target : AccessPath
  kind : Kind
  length : Option Nat

namespace Demand

/-- What is asked, as a label; a length of zero asks for nothing. -/
def label (d : Demand) : Label :=
  ⟨some d.kind, match d.length with | some (n + 1) => some (n + 1) | _ => none⟩

/-- A type has at the path what is asked, if the path starts at the input. -/
def MetBy (t : Shape) (d : Demand) : Prop :=
  d.target.origin = .input → t.bound (d.target.accessors.map Accessor.step) d.label

/-- Makes the types of the input have what is asked. -/
def narrow (root : NodeId) (d : Demand) : Lowering Unit :=
  infer (Types.narrow root d.target d.kind d.length)

/-- The same is asked of the same data. -/
def Parallel (d e : Demand) : Prop :=
  d.target.outline = e.target.outline ∧ d.kind = e.kind ∧ d.length = e.length

theorem Parallel.metBy {d e : Demand} (h : d.Parallel e) {t : Shape} (hd : d.MetBy t) :
    e.MetBy t := by
  obtain ⟨d, kind, length⟩ := d
  obtain ⟨e, kind', length'⟩ := e
  obtain ⟨houtline, rfl, rfl⟩ := h
  intro horigin
  rw [← AccessPath.steps_eq_of_outline houtline]
  exact hd (AccessPath.origin_eq_of_outline houtline.symm horigin)

end Demand

/-! ## Plans -/

/-- The expression of an interpolation, and what it asks for unless it is a loop index. -/
def interpolationPlan (scope : Scope) (head : Expr) (params : List Expr) (hash : Hash) :
    Except Error (Atom × Option Demand) := do
  match head with
  | .path p =>
    match ← headHelper? p with
    | some (.integer signed width) =>
      expectKeys hash ["decimals"] p.written
      let decimals ← integerKeyword? hash "decimals"
      let target ← pathArgument params p.written >>= scope.resolve
      return (.number signed target (decimals.getD 0),
        some ⟨target, if signed then .int else .uint, width⟩)
    | some (.bytes width) =>
      expectKeys hash [] p.written
      let target ← pathArgument params p.written >>= scope.resolve
      return (.value target, some ⟨target, .string, some width⟩)
    | none =>
      if !params.isEmpty || !hash.isEmpty then
        throw (.unsupported (.unknownHelper p.written))
      let target ← scope.resolve p
      if target.isVariable then return (.number false target 0, none)
      else return (.value target, some ⟨target, .string, none⟩)
  | other => throw (.unsupported (.headForm other.formName))

/-- What a loop asks of its items. -/
def loopPlan (scope : Scope) (params : List Expr) (hash : Hash) (hasInverse : Bool) :
    Except Error Demand := do
  if hasInverse then throw (.unsupported .elseInEach)
  expectKeys hash ["length"] "each"
  let length ← integerKeyword? hash "length"
  let items ← pathArgument params "each" >>= scope.resolve
  if items.isVariable then throw (.unsupported (.iteratedIndex items.text))
  return ⟨items, .array, length⟩

/-- What a condition asks of its flag. -/
def conditionPlan (scope : Scope) (head : PathExpr) (params : List Expr) (hash : Hash) :
    Except Error Demand := do
  expectKeys hash [] head.written
  let target ← conditionPath head params >>= scope.resolve
  if target.isVariable then throw (.unsupported (.indexCondition target.text))
  return ⟨target, .bool, none⟩

/-- The partial that is included, with the group that is asked for and the context. -/
structure Inclusion where
  program : Program
  group : Option String
  context : AccessPath

def inclusionPlan (programs : List (String × Program)) (scope : Scope) (name : String)
    (params : List Expr) (hash : Hash) : Except Error Inclusion := do
  if !Name.isIdentifier name then throw (.unsupported (.partialName name))
  match programs.lookup name with
  | none => throw (.unknownPartial name)
  | some program =>
    expectKeys hash ["extra"] name
    let group ← groupArgument hash
    let context ← inclusionContext scope name params
    return { program, group, context }

/-- Carries out the inclusion of a partial. -/
def Inclusion.call (programs : List (String × Program)) (level : Nat) (opened : List String)
    (root : NodeId) (name : String) (i : Inclusion) : Lowering Unit := do
  match (← get).partials.find? (·.name == name) with
  | some known => callAgain known root i.group i.context
  | none =>
    if opened.contains name then throw (.recursivePartial name)
    match level with
    | 0 => throw (.recursivePartial name)
    | level + 1 =>
      callFirst (includePartial programs level (name :: opened)) root name i.group i.context
        i.program

/-! ## Tags carry out their plans -/

/-- Results that need no state, one after the other. -/
theorem lift_bind {α β γ : Type} (x : Except Error α) (f : α → Except Error β)
    (g : β → Lowering γ) : (lift (x >>= f) >>= g) = lift x >>= fun a => lift (f a) >>= g := by
  cases x with
  | error e => rfl
  | ok a => rfl

/-- Taking a name changes the local variables only. -/
theorem allocate_takes {opened : List String} {st : State} (hst : st.Valid) (base : String) :
    Lowers opened st
      (fun name st' => st.locals.allocate base = some (name, st'.locals) ∧
        st' = { st with locals := st'.locals })
      (Lowering.allocate base st) := by
  rw [allocate_eq]
  cases hallocate : st.locals.allocate base with
  | none => exact trivial
  | some taken =>
    obtain ⟨name, locals⟩ := taken
    refine ⟨hst.with_locals _, ⟨.refl _, .refl _, ?_, fun _ _ h => h⟩, rfl, rfl⟩
    obtain ⟨_, _, heq⟩ := Option.bind_eq_some_iff.1 hallocate
    cases heq
    exact List.prefix_append _ _

theorem interpolation_eq (root : NodeId) (scope : Scope) (head : Expr) (params : List Expr)
    (hash : Hash) :
    interpolation root scope head params hash = do
      let plan ← lift (interpolationPlan scope head params hash)
      plan.2.forM (Demand.narrow root)
      return plan.1 := by
  unfold interpolation interpolationPlan
  cases head with
  | path p =>
    simp only [lift_bind]
    congr 1
    funext helper
    cases helper with
    | none =>
      simp only
      split
      · rfl
      · simp only [lift_bind]
        congr 1
        funext target
        split <;> rfl
    | some helper =>
      cases helper with
      | integer signed width =>
        simp only [lift_bind]
        rfl
      | bytes width =>
        simp only [lift_bind]
        rfl
  | _ => rfl

theorem openLoop_eq (root : NodeId) (scope : Scope) (params : List Expr) (hash : Hash)
    (binders : List String) (hasInverse : Bool) :
    openLoop root scope params hash binders hasInverse = do
      let d ← lift (loopPlan scope params hash hasInverse)
      d.narrow root
      let index ← Lowering.allocate indexBase
      return { index, items := d.target, scope := loopScope scope binders d.target index } := by
  unfold openLoop loopPlan
  cases hasInverse with
  | true => rfl
  | false =>
    -- both sides go through the same checks, and only then do they act on the state
    simp only [lift_bind, Bool.false_eq_true, if_false]
    congr 1
    funext _
    congr 1
    funext length
    congr 1
    funext reference
    congr 1
    funext items
    split <;> rfl

theorem openCondition_eq (root : NodeId) (scope : Scope) (head : PathExpr) (params : List Expr)
    (hash : Hash) :
    openCondition root scope head params hash = do
      let flag ← lift (conditionPlan scope head params hash)
      flag.narrow root
      return flag.target := by
  unfold openCondition conditionPlan
  simp only [lift_bind]
  congr 1
  funext _
  congr 1
  funext reference
  congr 1
  funext target
  split <;> rfl

theorem includePartial_eq (programs : List (String × Program)) (level : Nat)
    (opened : List String) (root : NodeId) (scope : Scope) (name : String) (params : List Expr)
    (hash : Hash) :
    includePartial programs level opened root scope name params hash = do
      let i ← lift (inclusionPlan programs scope name params hash)
      i.call programs level opened root name
      return .call i.group name i.context := by
  unfold includePartial inclusionPlan
  cases Name.isIdentifier name with
  | false => rfl
  | true =>
    simp only [Bool.not_true, Bool.false_eq_true, if_false]
    cases programs.lookup name with
    | none => rfl
    | some program =>
      simp only [lift_bind]
      congr 1
      funext _
      congr 1
      funext group
      congr 1
      funext context
      -- behind the checks, the cases are those of the call
      change _ = Inclusion.call programs level opened root name ⟨program, group, context⟩ >>= _
      unfold Inclusion.call
      rw [bind_assoc]
      congr 1
      funext st
      cases st.partials.find? (·.name == name) with
      | some known => rfl
      | none =>
        cases opened.contains name with
        | true => rfl
        | false =>
          cases level with
          | zero => rfl
          | succ level => rfl

/-- An inclusion that is lowered has a plan, which was carried out. -/
theorem plan_of_includePartial {programs : List (String × Program)} {level : Nat}
    {opened : List String} {root : NodeId} {scope : Scope} {name : String} {params : List Expr}
    {hash : Hash} {st st' : State} {a : Atom}
    (h : includePartial programs level opened root scope name params hash st = .ok a st') :
    ∃ i, inclusionPlan programs scope name params hash = .ok i ∧
      i.call programs level opened root name st = .ok () st' := by
  rw [includePartial_eq] at h
  obtain ⟨i, st₁, hplan, h⟩ := run_bind_eq_ok.1 h
  obtain ⟨_, st₂, hcall, h⟩ := run_bind_eq_ok.1 h
  cases h
  -- a plan needs no state, so that the call starts where the inclusion does
  cases hresult : inclusionPlan programs scope name params hash with
  | error e =>
    rw [hresult] at hplan
    cases hplan
  | ok i =>
    rw [hresult] at hplan
    cases hplan
    exact ⟨i, rfl, hcall⟩

/-! ## Inclusions keep the local variables -/

/-- A computation that leaves the local variables of the function as they are. -/
def KeepsLocals {α : Type} (m : Lowering α) : Prop :=
  ∀ st a st', m st = .ok a st' → st'.locals = st.locals

namespace KeepsLocals

variable {α β : Type}

theorem throw (e : Error) : KeepsLocals (MonadExcept.throw e : Lowering α) := by
  intro st a st' h
  cases h

theorem bind {m : Lowering α} {f : α → Lowering β} (hm : KeepsLocals m)
    (hf : ∀ a, KeepsLocals (f a)) : KeepsLocals (m >>= f) := by
  intro st b st' h
  obtain ⟨a, st₁, hrun, h⟩ := run_bind_eq_ok.1 h
  exact (hf a st₁ b st' h).trans (hm st a st₁ hrun)

theorem infer (m : Types.Inference α) : KeepsLocals (Lowering.infer m) := by
  intro st a st' h
  unfold Lowering.infer at h
  cases hrun : m st.store with
  | error e store =>
    rw [hrun] at h
    cases h
  | ok b store =>
    rw [hrun] at h
    cases h
    rfl

theorem modify {f : State → State} (hf : ∀ st, (f st).locals = st.locals) :
    KeepsLocals (modify f : Lowering PUnit) := by
  intro st a st' h
  cases h
  exact hf st

/-- Another function has local variables of its own. -/
theorem inNewFunction (m : Lowering α) : KeepsLocals (Lowering.inNewFunction m) := by
  intro st a st' h
  rw [inNewFunction_eq] at h
  cases hrun : m { st with locals := {} } with
  | error e st₁ =>
    rw [hrun] at h
    cases h
  | ok b st₁ =>
    rw [hrun] at h
    cases h
    rfl

end KeepsLocals

theorem callAgain_keepsLocals (known : LoweredPartial) (root : NodeId) (group : Option String)
    (context : AccessPath) : KeepsLocals (callAgain known root group context) := by
  unfold callAgain
  split
  · exact .throw _
  · refine .bind (.infer _) fun node => .bind (.infer _) fun _ => ?_
    exact .modify fun _ => rfl

theorem callFirst_keepsLocals (include_ : Includer) (root : NodeId) (name : String)
    (group : Option String) (context : AccessPath) (program : Program) :
    KeepsLocals (callFirst include_ root name group context program) := by
  unfold callFirst
  refine .bind (.infer _) fun node => .bind (.inNewFunction _) fun code => ?_
  exact .modify fun _ => rfl

theorem Inclusion.call_keepsLocals (programs : List (String × Program)) (level : Nat)
    (opened : List String) (root : NodeId) (name : String) (i : Inclusion) :
    KeepsLocals (i.call programs level opened root name) := by
  unfold Inclusion.call
  intro st
  change ∀ a st', (match st.partials.find? (·.name == name) with
    | some known => callAgain known root i.group i.context
    | none => _ : Lowering Unit) st = .ok a st' → _
  cases st.partials.find? (·.name == name) with
  | some known => exact callAgain_keepsLocals known root i.group i.context st
  | none =>
    cases opened.contains name with
    | true => exact KeepsLocals.throw _ st
    | false =>
      cases level with
      | zero => exact KeepsLocals.throw _ st
      | succ level => exact callFirst_keepsLocals _ root name i.group i.context i.program st

/-! ## Plans of parallel scopes -/

section

variable {a b : Scope} {params : List Expr} {hash : Hash}

theorem isVariable_eq_of_outline {x y : AccessPath} (h : x.outline = y.outline) :
    x.isVariable = y.isVariable := by
  rw [AccessPath.isVariable_eq, AccessPath.isVariable_eq, h]

/-- Interpolations in parallel scopes ask for the same. -/
theorem interpolationPlan_parallel (h : a.Parallel b) {head : Expr} {plan : Atom × Option Demand}
    (ha : interpolationPlan a head params hash = .ok plan) :
    ∃ plan', interpolationPlan b head params hash = .ok plan' ∧
      ∀ t, (∀ d ∈ plan.2, d.MetBy t) → ∀ d ∈ plan'.2, d.MetBy t := by
  -- the same is asked at a path with the same outline
  have hmet : ∀ {x y : AccessPath} {kind : Kind} {length : Option Nat}, x.outline = y.outline →
      ∀ t, (∀ d ∈ some (⟨x, kind, length⟩ : Demand), d.MetBy t) →
        ∀ d ∈ some (⟨y, kind, length⟩ : Demand), d.MetBy t := by
    intro x y kind length hxy t hx d hd
    cases hd
    have hparallel : Demand.Parallel ⟨x, kind, length⟩ ⟨y, kind, length⟩ := ⟨hxy, rfl, rfl⟩
    exact hparallel.metBy (hx _ rfl)
  unfold interpolationPlan at ha ⊢
  cases head with
  | path p =>
    obtain ⟨helper, hhelper, ha⟩ := bind_eq_ok.1 ha
    cases helper with
    | some helper =>
      cases helper with
      | integer signed width =>
        obtain ⟨_, hkeys, ha⟩ := bind_eq_ok.1 ha
        obtain ⟨decimals, hdecimals, ha⟩ := bind_eq_ok.1 ha
        obtain ⟨x, hx, ha⟩ := bind_eq_ok.1 ha
        cases ha
        obtain ⟨y, hy, hxy⟩ := h.bind hx
        exact ⟨_, bind_eq_ok.2 ⟨_, hhelper, bind_eq_ok.2 ⟨_, hkeys, bind_eq_ok.2 ⟨_, hdecimals,
          bind_eq_ok.2 ⟨y, hy, rfl⟩⟩⟩⟩, hmet hxy⟩
      | bytes width =>
        obtain ⟨_, hkeys, ha⟩ := bind_eq_ok.1 ha
        obtain ⟨x, hx, ha⟩ := bind_eq_ok.1 ha
        cases ha
        obtain ⟨y, hy, hxy⟩ := h.bind hx
        exact ⟨_, bind_eq_ok.2 ⟨_, hhelper, bind_eq_ok.2 ⟨_, hkeys, bind_eq_ok.2 ⟨y, hy, rfl⟩⟩⟩,
          hmet hxy⟩
    | none =>
      by_cases hplain : (!params.isEmpty || !hash.isEmpty) = true
      · simp only [hplain, if_true] at ha
        cases ha
      · simp only [hplain, Bool.false_eq_true, if_false] at ha
        obtain ⟨x, hx, ha⟩ := bind_eq_ok.1 ha
        obtain ⟨y, hy, hxy⟩ := h.resolve hx
        rw [isVariable_eq_of_outline hxy] at ha
        -- in both cases the plan is the one of the other scope
        cases hvariable : y.isVariable with
        | true =>
          rw [hvariable] at ha
          cases ha
          refine ⟨(.number false y 0, none), bind_eq_ok.2 ⟨_, hhelper, ?_⟩, ?_⟩
          · simp only [hplain, Bool.false_eq_true, if_false]
            exact bind_eq_ok.2 ⟨y, hy, by rw [hvariable]; rfl⟩
          · intro t _ d hd
            cases hd
        | false =>
          rw [hvariable] at ha
          cases ha
          refine ⟨(.value y, some ⟨y, .string, none⟩), bind_eq_ok.2 ⟨_, hhelper, ?_⟩, hmet hxy⟩
          simp only [hplain, Bool.false_eq_true, if_false]
          exact bind_eq_ok.2 ⟨y, hy, by rw [hvariable]; rfl⟩
  | _ => cases ha

theorem loopPlan_parallel (h : a.Parallel b) {hasInverse : Bool} {d : Demand}
    (ha : loopPlan a params hash hasInverse = .ok d) :
    ∃ e, loopPlan b params hash hasInverse = .ok e ∧ d.Parallel e := by
  unfold loopPlan at ha ⊢
  cases hasInverse with
  | true => cases ha
  | false =>
    obtain ⟨_, hkeys, ha⟩ := bind_eq_ok.1 ha
    obtain ⟨length, hlength, ha⟩ := bind_eq_ok.1 ha
    obtain ⟨x, hx, ha⟩ := bind_eq_ok.1 ha
    obtain ⟨y, hy, hxy⟩ := h.bind hx
    rw [isVariable_eq_of_outline hxy] at ha
    cases hvariable : y.isVariable with
    | true =>
      rw [hvariable] at ha
      cases ha
    | false =>
      rw [hvariable] at ha
      cases ha
      refine ⟨⟨y, .array, length⟩, ?_, hxy, rfl, rfl⟩
      refine bind_eq_ok.2 ⟨_, hkeys, bind_eq_ok.2 ⟨_, hlength, bind_eq_ok.2 ⟨y, hy, ?_⟩⟩⟩
      rw [hvariable]
      rfl

theorem conditionPlan_parallel (h : a.Parallel b) {head : PathExpr} {d : Demand}
    (ha : conditionPlan a head params hash = .ok d) :
    ∃ e, conditionPlan b head params hash = .ok e ∧ d.Parallel e := by
  unfold conditionPlan at ha ⊢
  obtain ⟨_, hkeys, ha⟩ := bind_eq_ok.1 ha
  obtain ⟨x, hx, ha⟩ := bind_eq_ok.1 ha
  obtain ⟨y, hy, hxy⟩ := h.bind hx
  rw [isVariable_eq_of_outline hxy] at ha
  cases hvariable : y.isVariable with
  | true =>
    rw [hvariable] at ha
    cases ha
  | false =>
    rw [hvariable] at ha
    cases ha
    refine ⟨⟨y, .bool, none⟩, bind_eq_ok.2 ⟨_, hkeys, bind_eq_ok.2 ⟨y, hy, ?_⟩⟩, hxy, rfl, rfl⟩
    rw [hvariable]
    rfl

theorem openWith_parallel (h : a.Parallel b) {hasInverse : Bool} {inner : Scope}
    (ha : openWith a params hash hasInverse = .ok inner) :
    ∃ other, openWith b params hash hasInverse = .ok other ∧ inner.Parallel other := by
  unfold openWith at ha ⊢
  cases hasInverse with
  | true => cases ha
  | false =>
    obtain ⟨_, hkeys, ha⟩ := bind_eq_ok.1 ha
    obtain ⟨x, hx, ha⟩ := bind_eq_ok.1 ha
    cases ha
    obtain ⟨y, hy, hxy⟩ := h.bind hx
    exact ⟨_, bind_eq_ok.2 ⟨_, hkeys, bind_eq_ok.2 ⟨y, hy, rfl⟩⟩, h.dive hxy rfl⟩

theorem inclusionPlan_eq_ok {programs : List (String × Program)} {name : String} {i : Inclusion} :
    inclusionPlan programs a name params hash = .ok i ↔
      Name.isIdentifier name = true ∧ programs.lookup name = some i.program ∧
        expectKeys hash ["extra"] name = .ok () ∧ groupArgument hash = .ok i.group ∧
        inclusionContext a name params = .ok i.context := by
  unfold inclusionPlan
  cases Name.isIdentifier name with
  | false =>
    simp only [Bool.false_eq_true, false_and, iff_false]
    intro h
    cases h
  | true =>
    cases programs.lookup name with
    | none =>
      simp only [reduceCtorEq, false_and, and_false, iff_false]
      intro h
      cases h
    | some program =>
      simp only [Bool.not_true, Bool.false_eq_true, if_false, bind_eq_ok]
      constructor
      · rintro ⟨_, hkeys, group, hgroup, context, hcontext, hi⟩
        cases hi
        exact ⟨trivial, rfl, hkeys, hgroup, hcontext⟩
      · rintro ⟨_, hprogram, hkeys, hgroup, hcontext⟩
        cases hprogram
        exact ⟨_, hkeys, _, hgroup, _, hcontext, rfl⟩

theorem inclusionPlan_parallel (h : a.Parallel b) {programs : List (String × Program)}
    {name : String} {i : Inclusion} (ha : inclusionPlan programs a name params hash = .ok i) :
    ∃ j, inclusionPlan programs b name params hash = .ok j ∧ i.program = j.program ∧
      i.group = j.group ∧ i.context.outline = j.context.outline := by
  obtain ⟨hname, hprogram, hkeys, hgroup, hx⟩ := inclusionPlan_eq_ok.1 ha
  have hcontext : ∃ y, inclusionContext b name params = .ok y ∧ i.context.outline = y.outline := by
    unfold inclusionContext at hx ⊢
    by_cases hempty : params.isEmpty = true
    · rw [if_pos hempty] at hx ⊢
      rw [← Except.ok.inj hx]
      exact ⟨_, rfl, h.inner⟩
    · rw [if_neg hempty] at hx ⊢
      exact h.bind hx
  obtain ⟨y, hy, hxy⟩ := hcontext
  exact ⟨⟨i.program, i.group, y⟩, inclusionPlan_eq_ok.2 ⟨hname, hprogram, hkeys, hgroup, hy⟩,
    rfl, rfl, hxy⟩

end

end Lower
end Stencil
