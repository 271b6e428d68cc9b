import Stencil.Proofs.Lower.Principal
import Stencil.Proofs.Lower.Typing
import Stencil.Proofs.Types.Within

/-!
# Templates with types are lowered

A typing leaves room for all that lowering asks for: nothing that lowering does can fail, and the
types stay within those of the typing.

* `Conforms Γ T st` : what the state knows is within a typing;
* `Succeeds`        : the outcome of a computation that has a result, as a judgement;
* `Lowerable`       : a statement that can be lowered wherever its input has the right type.

A partial includes only those before it in the typing, so that the levels of inclusion last. The
main result is `lower_within_typing`.
-/

namespace Stencil
namespace Lower

open Template (Expr Hash PathExpr Program Span Statement)
open Stencil.Types (Advances Inference NodeId Shape Store)

variable {α β : Type}

/-! ## The judgement -/

/-- The outcome of a computation that started on `st` and has a result: the state is valid and has
evolved from `st`, and the result fulfils `post`. -/
def Succeeds (opened : List String) (st : State) (post : α → State → Prop) :
    EStateM.Result Error State α → Prop
  | .ok a st' => st'.Valid ∧ st.Evolves opened st' ∧ post a st'
  | .error _ _ => False

namespace Succeeds

variable {opened : List String} {st : State}

theorem pure {post : α → State → Prop} (hst : st.Valid) {a : α} (h : post a st) :
    Succeeds opened st post (.ok a st) :=
  ⟨hst, .refl _ st, h⟩

/-- A computation that follows the rules and has a result. -/
theorem of_lowers {mid post : α → State → Prop} {r : EStateM.Result Error State α}
    (h : Lowers opened st mid r) {a : α} {st' : State} (hr : r = .ok a st') (hpost : post a st') :
    Succeeds opened st post r := by
  subst hr
  exact ⟨h.1, h.2.1, hpost⟩

theorem of_evolves {post : α → State → Prop} {st' : State} {r : EStateM.Result Error State α}
    (h : st.Evolves opened st') (hr : Succeeds opened st' post r) : Succeeds opened st post r := by
  cases r with
  | ok a st'' => exact ⟨hr.1, h.trans hr.2.1, hr.2.2⟩
  | error e st'' => exact hr

theorem mono {post post' : α → State → Prop} {r : EStateM.Result Error State α}
    (h : Succeeds opened st post r) (himp : ∀ a st', post a st' → post' a st') :
    Succeeds opened st post' r := by
  cases r with
  | ok a st' => exact ⟨h.1, h.2.1, himp a st' h.2.2⟩
  | error e st' => exact h

theorem bind {m : Lowering α} {f : α → Lowering β} {mid : α → State → Prop}
    {post : β → State → Prop} (hm : Succeeds opened st mid (m st))
    (hf : ∀ a st', st'.Valid → st.Evolves opened st' → mid a st' →
      Succeeds opened st' post (f a st')) :
    Succeeds opened st post ((m >>= f) st) := by
  change Succeeds opened st post (EStateM.bind m f st)
  unfold EStateM.bind
  cases hr : m st with
  | ok a st' =>
    rw [hr] at hm
    exact of_evolves hm.2.1 (hf a st' hm.1 hm.2.1 hm.2.2)
  | error e st' =>
    rw [hr] at hm
    exact hm

theorem get (hst : st.Valid) :
    Succeeds opened st (fun a st' => a = st ∧ st' = st) ((MonadState.get : Lowering State) st) :=
  pure hst ⟨rfl, rfl⟩

/-- A result that needs no state. -/
theorem lift (hst : st.Valid) {x : Except Error α} {a : α} (h : x = .ok a) :
    Succeeds opened st (fun b st' => b = a ∧ st' = st) (Lowering.lift x st) := by
  subst h
  exact pure hst ⟨rfl, rfl⟩

end Succeeds

/-! ## States within a typing -/

/-- What a state knows is within a typing: of the input, and of the contexts of each partial. -/
structure Conforms (Γ : List Signature) (T : Shape) (st : State) : Prop where
  bounded : st.store.BoundedBy 0 T.bound
  partials : ∀ p ∈ st.partials, ∃ σ ∈ Γ, σ.name = p.name ∧ σ.group = p.group ∧
    ∀ site ∈ p.callSites, st.store.HasType T site.node σ.input

/-- A function is being written for an input of the type `t`, and some of its loops have taken their
names. -/
structure Ready (Γ : List Signature) (T : Shape) (root : NodeId) (t : Shape) (loops : Nat)
    (st : State) : Prop where
  conforms : Conforms Γ T st
  input : st.store.HasType T root t
  locals : Variables.after loops = some st.locals

section

variable {Γ : List Signature} {T t : Shape} {opened : List String} {st : State} {root k : Nat}

/-- The store may grow within the typing. -/
theorem Conforms.of_grows (h : Conforms Γ T st) {st' : State}
    (hpartials : st'.partials = st.partials) (hgrows : st.store.Grows st'.store)
    (hbounded : st'.store.BoundedBy 0 T.bound) : Conforms Γ T st' where
  bounded := hbounded
  partials := by
    intro p hp
    rw [hpartials] at hp
    obtain ⟨σ, hσ, hname, hgroup, hsites⟩ := h.partials p hp
    exact ⟨σ, hσ, hname, hgroup, fun site hsite => (hsites site hsite).of_grows hgrows⟩

/-- A computation over the store that succeeds and stays within the typing. -/
theorem Ready.infer {post : α → Store → Prop} {m : Inference α} (h : Ready Γ T root t k st)
    (hst : st.Valid) (hadvances : Advances st.store post (m st.store))
    (hrun : ∃ a s, m st.store = .ok a s ∧ s.BoundedBy 0 T.bound) :
    Succeeds opened st (fun a st' => Ready Γ T root t k st' ∧ post a st'.store ∧
      st' = { st with store := st'.store }) (Lowering.infer m st) := by
  obtain ⟨a, s, hok, hbounded⟩ := hrun
  have hlowers : Lowers opened st _ (Lowering.infer m st) := .infer hst hadvances
  have hresult : Lowering.infer m st = .ok a { st with store := s } := by
    simp only [Lowering.infer, hok]
  rw [hok] at hadvances
  obtain ⟨_, hgrows, hpost⟩ := hadvances
  refine .of_lowers hlowers hresult ⟨⟨?_, h.input.of_grows hgrows, h.locals⟩, hpost, rfl⟩
  exact h.conforms.of_grows rfl hgrows hbounded

/-- What the type meets can be asked for. -/
theorem Ready.narrow (h : Ready Γ T root t k st) (hst : st.Valid) {d : Demand} (hd : d.MetBy t) :
    Succeeds opened st (fun _ st' => Ready Γ T root t k st') (d.narrow root st) := by
  have hroot := h.input.lt_size hst.forest hst.nonempty
  have hkind : d.target.origin = .input →
      t.bound (d.target.accessors.map Accessor.step) ⟨some d.kind, none⟩ :=
    fun horigin => t.isBound.kind (hd horigin)
  have hlength : d.target.origin = .input → ∀ n, d.length = some (n + 1) →
      t.bound (d.target.accessors.map Accessor.step) ⟨some d.kind, some (n + 1)⟩ := by
    intro horigin n hn
    have hbound := hd horigin
    rw [Demand.label, hn] at hbound
    exact hbound
  obtain ⟨s, hrun, hbounded⟩ := Types.narrow_within hst.forest hst.nonempty h.conforms.bounded
    h.input hkind hlength
  have hadvances := Types.narrow_advances hst.forest hroot d.target d.kind d.length
  exact (h.infer hst hadvances ⟨(), s, hrun, hbounded⟩).mono fun _ _ hready => hready.1

/-- There is a name for the next loop. -/
theorem Ready.allocate (h : Ready Γ T root t k st) (hst : st.Valid)
    (hnames : (Variables.after (k + 1)).isSome) :
    Succeeds opened st (fun _ st' => Ready Γ T root t (k + 1) st')
      (Lowering.allocate indexBase st) := by
  obtain ⟨taken, htaken⟩ := Option.isSome_iff_exists.1 hnames
  have hafter := htaken
  rw [Variables.after, h.locals, Option.bind_some] at htaken
  obtain ⟨⟨name, following⟩, hallocate, rfl⟩ := Option.map_eq_some_iff.1 htaken
  have hrun : Lowering.allocate indexBase st = .ok name { st with locals := following } := by
    rw [allocate_eq, hallocate]
  refine .of_lowers (allocate_takes hst indexBase) hrun ⟨?_, h.input, hafter⟩
  exact h.conforms.of_grows rfl (.refl _) h.conforms.bounded

/-! ## Statements -/

/-- A statement that stands in a scope can be lowered for any input of the type `t`, whatever the
indices of the loops around it are called. -/
def Lowerable (Γ : List Signature) (T : Shape) (include_ : Includer) (opened : List String)
    (root : Nat) (t : Shape) (scope : Scope) (x : Statement) : Prop :=
  ∀ (actual : Scope) (st : State) (k : Nat), scope.Parallel actual → st.Valid →
    Ready Γ T root t k st → (Variables.after (k + statementLoops x)).isSome →
      Succeeds opened st (fun _ st' => Ready Γ T root t (k + statementLoops x) st')
        (lowerStatement include_ root actual x st)

variable {include_ : Includer} {scope : Scope}

theorem lowerStatements_succeeds {P : Program}
    (h : ∀ x ∈ P, Lowerable Γ T include_ opened root t scope x) {actual : Scope}
    (hactual : scope.Parallel actual) (hst : st.Valid) (hready : Ready Γ T root t k st)
    (hnames : (Variables.after (k + programLoops P)).isSome) :
    Succeeds opened st (fun _ st' => Ready Γ T root t (k + programLoops P) st')
      (lowerStatements include_ root actual P st) := by
  induction P generalizing st k with
  | nil => exact .pure hst hready
  | cons x rest ih =>
    unfold lowerStatements
    rw [programLoops, ← Nat.add_assoc] at hnames ⊢
    have hfirst := Variables.after_of_le (Nat.le_add_right _ _) hnames
    apply Succeeds.bind (h x List.mem_cons_self actual st k hactual hst hready hfirst)
    intro first st₁ hst₁ _ hready₁
    have hrest := ih (fun y hy => h y (List.mem_cons_of_mem _ hy)) hst₁ hready₁ hnames
    apply Succeeds.bind hrest
    intro others st₂ hst₂ _ hready₂
    exact .pure hst₂ hready₂

/-- An includer that succeeds where an inclusion fits, with the partials in `Δ`. -/
def Includer.Completes (Γ : List Signature) (T : Shape) (programs : List (String × Program))
    (include_ : Includer) (Δ : List Signature) (opened : List String) : Prop :=
  ∀ (root : Nat) (t : Shape) (scope : Scope) (name : String) (params : List Expr) (hash : Hash)
    (span : Span), Fits programs Δ t scope (.inclusion name params hash span) →
      Lowerable Γ T include_ opened root t scope (.inclusion name params hash span)

variable {programs : List (String × Program)} {Δ : List Signature}

theorem interpolation_succeeds {head : Expr} {params : List Expr} {hash : Hash}
    {plan : Code.Atom × Option Demand} (hplan : interpolationPlan scope head params hash = .ok plan)
    (hmet : ∀ d ∈ plan.2, d.MetBy t) (hst : st.Valid) (hready : Ready Γ T root t k st) :
    Succeeds opened st (fun _ st' => Ready Γ T root t k st')
      (interpolation root scope head params hash st) := by
  rw [interpolation_eq]
  obtain ⟨atom, demand⟩ := plan
  apply Succeeds.bind (.lift hst hplan)
  rintro _ st _ _ ⟨rfl, rfl⟩
  cases demand with
  | none => exact .pure hst hready
  | some d =>
    apply Succeeds.bind (hready.narrow hst (hmet d rfl))
    intro _ st' hst' _ hready'
    exact .pure hst' hready'

theorem openLoop_succeeds {params : List Expr} {hash : Hash} {binders : List String}
    {hasInverse : Bool} {d : Demand} (hplan : loopPlan scope params hash hasInverse = .ok d)
    (hmet : d.MetBy t) (hst : st.Valid) (hready : Ready Γ T root t k st)
    (hnames : (Variables.after (k + 1)).isSome) :
    Succeeds opened st
      (fun loop st' => Ready Γ T root t (k + 1) st' ∧
        loop.scope = loopScope scope binders d.target loop.index)
      (openLoop root scope params hash binders hasInverse st) := by
  rw [openLoop_eq]
  apply Succeeds.bind (.lift hst hplan)
  rintro _ st _ _ ⟨rfl, rfl⟩
  apply Succeeds.bind (hready.narrow hst hmet)
  intro _ st₁ hst₁ _ hready₁
  apply Succeeds.bind (hready₁.allocate hst₁ hnames)
  intro index st₂ hst₂ _ hready₂
  exact .pure hst₂ ⟨hready₂, rfl⟩

theorem openCondition_succeeds {head : PathExpr} {params : List Expr} {hash : Hash} {d : Demand}
    (hplan : conditionPlan scope head params hash = .ok d) (hmet : d.MetBy t) (hst : st.Valid)
    (hready : Ready Γ T root t k st) :
    Succeeds opened st (fun _ st' => Ready Γ T root t k st')
      (openCondition root scope head params hash st) := by
  rw [openCondition_eq]
  apply Succeeds.bind (.lift hst hplan)
  rintro _ st _ _ ⟨rfl, rfl⟩
  apply Succeeds.bind (hready.narrow hst hmet)
  intro _ st₁ hst₁ _ hready₁
  exact .pure hst₁ hready₁

/-- A statement that fits can be lowered. -/
theorem Fits.lowerable (hinclude : include_.Completes Γ T programs Δ opened) {x : Statement}
    (h : Fits programs Δ t scope x) : Lowerable Γ T include_ opened root t scope x := by
  induction h with
  | content | comment | constant =>
    intro actual st k _ hst hready _
    exact .pure hst hready
  | interpolation hplan hmet =>
    intro actual st k hactual hst hready _
    obtain ⟨plan', hplan', hmet'⟩ := interpolationPlan_parallel hactual hplan
    unfold lowerStatement
    apply Succeeds.bind (interpolation_succeeds hplan' (hmet' t hmet) hst hready)
    intro a st' hst' _ hready'
    exact .pure hst' hready'
  | inclusion hplan horigin hσ hname hgroup hu hsame =>
    exact hinclude _ _ _ _ _ _ _ (.inclusion hplan horigin hσ hname hgroup hu hsame)
  | @each scope head params hash binders body inverse span d hkind hplan hmet _ ih =>
    intro actual st k hactual hst hready hnames
    -- a loop has no other branch
    cases inverse with
    | some otherwise => cases hplan
    | none =>
      rw [statementLoops_each hkind, ← Nat.add_assoc] at hnames ⊢
      obtain ⟨e, he, hparallel⟩ := loopPlan_parallel hactual hplan
      have hfirst := Variables.after_of_le (Nat.le_add_right _ _) hnames
      unfold lowerStatement
      apply Succeeds.bind (.lift hst hkind)
      rintro _ st _ _ ⟨rfl, rfl⟩
      apply Succeeds.bind (openLoop_succeeds he (hparallel.metBy hmet) hst hready hfirst)
      rintro loop st₁ hst₁ _ ⟨hready₁, hscope⟩
      have hinner : (loopScope scope binders d.target indexBase).Parallel loop.scope := by
        rw [hscope]
        exact loopScope_parallel hactual hparallel.1 binders indexBase loop.index
      apply Succeeds.bind (lowerStatements_succeeds ih hinner hst₁ hready₁ hnames)
      intro outputs st₂ hst₂ _ hready₂
      exact .pure hst₂ hready₂
  | @dive scope inner head params hash binders body inverse span hkind hopen _ ih =>
    intro actual st k hactual hst hready hnames
    cases inverse with
    | some otherwise => cases hopen
    | none =>
      rw [statementLoops_dive hkind] at hnames ⊢
      obtain ⟨inner', hopen', hparallel⟩ := openWith_parallel hactual hopen
      unfold lowerStatement
      apply Succeeds.bind (.lift hst hkind)
      rintro _ st _ _ ⟨rfl, rfl⟩
      apply Succeeds.bind (.lift hst hopen')
      rintro _ st _ _ ⟨rfl, rfl⟩
      apply Succeeds.bind (lowerStatements_succeeds ih hparallel hst hready hnames)
      intro outputs st₁ hst₁ _ hready₁
      exact .pure hst₁ hready₁
  | @conditional scope head params hash binders body inverse span negated d hkind hplan hmet _ _ ih
      ih' =>
    intro actual st k hactual hst hready hnames
    obtain ⟨e, he, hparallel⟩ := conditionPlan_parallel hactual hplan
    unfold lowerStatement
    apply Succeeds.bind (.lift hst hkind)
    rintro _ st _ _ ⟨rfl, rfl⟩
    apply Succeeds.bind (openCondition_succeeds he (hparallel.metBy hmet) hst hready)
    intro path st₁ hst₁ _ hready₁
    rw [statementLoops_conditional hkind, ← Nat.add_assoc] at hnames ⊢
    have hfirst := Variables.after_of_le (Nat.le_add_right _ _) hnames
    apply Succeeds.bind (lowerStatements_succeeds ih hactual hst₁ hready₁ hfirst)
    intro first st₂ hst₂ _ hready₂
    cases inverse with
    | none => exact .pure hst₂ hready₂
    | some otherwise =>
      apply Succeeds.bind (lowerStatements_succeeds (ih' otherwise rfl) hactual hst₂ hready₂ hnames)
      intro second st₃ hst₃ _ hready₃
      exact .pure hst₃ hready₃

theorem lowerBody_succeeds (hinclude : include_.Completes Γ T programs Δ opened) {P : Program}
    (h : ∀ x ∈ P, Fits programs Δ t {} x) (hst : st.Valid) (hready : Ready Γ T root t 0 st)
    (hnames : (Variables.after (programLoops P)).isSome) :
    Succeeds opened st (fun _ st' => Conforms Γ T st') (lowerBody include_ root P st) := by
  unfold lowerBody
  rw [← Nat.zero_add (programLoops P)] at hnames
  apply Succeeds.bind (lowerStatements_succeeds (fun x hx => (h x hx).lowerable hinclude) (.refl {})
    hst hready hnames)
  intro outputs st' hst' _ hready'
  exact .pure hst' hready'.conforms

/-! ## Inclusions -/

/-- Partials of different names have different signatures. -/
theorem signature_unique (hΓ : (Γ.map (·.name)).Nodup) {σ τ : Signature} (hσ : σ ∈ Γ) (hτ : τ ∈ Γ)
    (h : σ.name = τ.name) : σ = τ :=
  List.inj_on_of_nodup_map hΓ hσ hτ h

/-- A partial is not among those before it. -/
theorem name_not_before (hΓ : (Γ.map (·.name)).Nodup) {i : Nat} {σ τ : Signature}
    (hσ : Γ[i]? = some σ) (hτ : τ ∈ Γ.take i) : τ.name ≠ σ.name := by
  intro hname
  obtain ⟨j, hj⟩ := List.mem_iff_getElem?.1 hτ
  have hlt : j < (Γ.take i).length := (List.getElem?_eq_some_iff.1 hj).1
  rw [List.length_take] at hlt
  rw [List.getElem?_take_of_lt (by omega)] at hj
  have hsame : (Γ.map (·.name))[j]? = (Γ.map (·.name))[i]? := by
    rw [List.getElem?_map, List.getElem?_map, hj, hσ]
    exact congrArg some hname
  have hlength : j < (Γ.map (·.name)).length := by
    rw [List.length_map]
    omega
  have heq := (List.getElem?_inj hlength hΓ).1 hsame
  omega

/-- A further call with a context of the right type. -/
theorem Ready.addCallSite (h : Ready Γ T root t k st) (hst : st.Valid)
    (hΓ : (Γ.map (·.name)).Nodup) {σ : Signature} (hσ : σ ∈ Γ) {site : CallSite}
    (hsite : st.store.HasType T site.node σ.input) :
    Succeeds opened st (fun _ st' => Ready Γ T root t k st') (addCallSite σ.name site st) := by
  have hlt := hsite.lt_size hst.forest hst.nonempty
  have hrun : Lower.addCallSite σ.name site st =
      .ok () { st with partials := st.partials.map (·.called σ.name site) } := rfl
  refine .of_lowers (addCallSite_lowers hst σ.name site hlt) hrun
    ⟨⟨h.conforms.bounded, ?_⟩, h.input, h.locals⟩
  intro q hq
  obtain ⟨p, hp, rfl⟩ := List.mem_map.1 hq
  obtain ⟨τ, hτ, hname, hgroup, hsites⟩ := h.conforms.partials p hp
  have hextends := p.extends_called σ.name site
  refine ⟨τ, hτ, hname.trans hextends.name.symm, hgroup.trans hextends.group.symm, ?_⟩
  intro x hx
  by_cases hcalled : p.name = σ.name
  · -- the partial that is called: its signature is the one of the call
    obtain rfl := signature_unique hΓ hτ hσ (hname.trans hcalled)
    obtain hx | rfl := LoweredPartial.mem_called hx
    · exact hsites x hx
    · exact hsite
  · have hsame : p.called σ.name site = p := by
      simp [LoweredPartial.called, hcalled]
    rw [hsame] at hx
    exact hsites x hx

/-- The call of a partial that has been lowered before. -/
theorem callAgain_succeeds (hΓ : (Γ.map (·.name)).Nodup) (hst : st.Valid)
    (hready : Ready Γ T root t k st) {known : LoweredPartial} (hknown : known ∈ st.partials)
    {σ : Signature} (hσ : σ ∈ Γ) (hname : σ.name = known.name) {context : AccessPath}
    (horigin : context.origin = .input) {u : Shape}
    (hu : t.follow (context.accessors.map Accessor.step) = some u) (hsame : u.Same σ.input) :
    Succeeds opened st (fun _ st' => Ready Γ T root t k st')
      (callAgain known root σ.group context st) := by
  have hroot := hready.input.lt_size hst.forest hst.nonempty
  -- the signature is the one that the partial was lowered for
  obtain ⟨τ, hτ, hname', hgroup, hsites⟩ := hready.conforms.partials known hknown
  obtain rfl := signature_unique hΓ hσ hτ (hname.trans hname'.symm)
  have hinput : st.store.HasType T known.input σ.input := by
    obtain ⟨site, hsite, heq⟩ := hst.first known hknown
    rw [← heq]
    exact hsites site hsite
  unfold callAgain
  simp only [hgroup, bne_self_eq_false, Bool.false_eq_true, if_false]
  have hresolve := Types.resolveNode_within hst.forest hst.nonempty hready.conforms.bounded
    hready.input horigin hu
  apply Succeeds.bind
    (hready.infer hst (Types.resolveNode_advances hst.forest hroot context) hresolve)
  rintro node st₁ hst₁ hev₁ ⟨hready₁, ⟨_, hnode⟩, _⟩
  -- both contexts are of one type, so that they can be unified
  have hnode₁ : st₁.store.HasType T node σ.input := (hready₁.input.follow hnode hu).trans hsame
  have hinput₁ := hinput.of_grows hev₁.grows
  have hadvances := Types.unify_advances context.text hst₁.forest
    (hnode₁.lt_size hst₁.forest hst₁.nonempty) (hinput₁.lt_size hst₁.forest hst₁.nonempty)
  obtain ⟨s, hunify, hbounded⟩ := Types.unify_within_type hst₁.forest hst₁.nonempty
    hready₁.conforms.bounded hnode₁ hinput₁ context.text
  apply Succeeds.bind (hready₁.infer hst₁ hadvances ⟨(), s, hunify, hbounded⟩)
  rintro _ st₂ hst₂ hev₂ ⟨hready₂, _, _⟩
  rw [← hname]
  exact hready₂.addCallSite hst₂ hΓ hσ (hnode₁.of_grows hev₂.grows)

/-- The first call of a partial, whose body is lowered for it. -/
theorem callFirst_succeeds {σ : Signature} (hσ : σ ∈ Γ)
    (hlowers : include_.Lowers (σ.name :: opened))
    (hinclude : include_.Completes Γ T programs Δ (σ.name :: opened)) {program : Program}
    (hnames : (Variables.after (programLoops program)).isSome)
    (hprogram : ∀ x ∈ program, Fits programs Δ σ.input {} x) (hst : st.Valid)
    (hready : Ready Γ T root t k st) (hopened : σ.name ∉ opened)
    (hnew : ∀ p ∈ st.partials, p.name ≠ σ.name) {context : AccessPath}
    (horigin : context.origin = .input) {u : Shape}
    (hu : t.follow (context.accessors.map Accessor.step) = some u) (hsame : u.Same σ.input) :
    Succeeds opened st (fun _ st' => Ready Γ T root t k st')
      (callFirst include_ root σ.name σ.group context program st) := by
  have hroot := hready.input.lt_size hst.forest hst.nonempty
  have hspec := callFirst_lowers hlowers hst hroot hopened hnew σ.group context program
  -- the context has the type of the signature
  have hresolve := Types.resolveNode_within hst.forest hst.nonempty hready.conforms.bounded
    hready.input horigin hu
  have hfound : Succeeds opened st _ (Lowering.infer (Types.resolveNode root context) st) :=
    hready.infer hst (Types.resolveNode_advances hst.forest hroot context) hresolve
  cases hrun₁ : Lowering.infer (Types.resolveNode root context) st with
  | error e st₁ =>
    rw [hrun₁] at hfound
    exact hfound.elim
  | ok node st₁ =>
    rw [hrun₁] at hfound
    obtain ⟨hst₁, _, hready₁, ⟨_, hnode⟩, heq₁⟩ := hfound
    have hnode₁ : st₁.store.HasType T node σ.input := (hready₁.input.follow hnode hu).trans hsame
    -- the body is written as another function, with no local variables taken
    have hstart : Ready Γ T node σ.input 0 { st₁ with locals := {} } :=
      ⟨hready₁.conforms.of_grows rfl (.refl _) hready₁.conforms.bounded, hnode₁, rfl⟩
    have hbody := lowerBody_succeeds hinclude hprogram (hst₁.with_locals {}) hstart hnames
    cases hrun₂ : lowerBody include_ node program { st₁ with locals := {} } with
    | error e st₂ =>
      rw [hrun₂] at hbody
      exact hbody.elim
    | ok code st₂ =>
      rw [hrun₂] at hbody
      obtain ⟨_, hev₂, hconforms₂⟩ := hbody
      have hrun : callFirst include_ root σ.name σ.group context program st = .ok ()
          { st₂ with
            locals := st₁.locals
            partials := st₂.partials ++ [newPartial σ.name node code σ.group context] } := by
        have hwritten : Lowering.inNewFunction (lowerBody include_ node program) st₁ =
            .ok code { st₂ with locals := st₁.locals } := by
          rw [inNewFunction_eq, hrun₂]
        exact (Results.run_bind_ok hrun₁).trans (Results.run_bind_ok hwritten)
      refine .of_lowers hspec hrun ⟨⟨hconforms₂.bounded, ?_⟩, ?_, hready₁.locals⟩
      · intro p hp
        obtain hp | hp := List.mem_append.1 hp
        · exact hconforms₂.partials p hp
        · cases List.mem_singleton.1 hp
          refine ⟨σ, hσ, rfl, rfl, ?_⟩
          intro site hsite
          cases List.mem_singleton.1 hsite
          exact hnode₁.of_grows hev₂.grows
      · exact hready₁.input.of_grows hev₂.grows

/-- The call of a partial, by whether it has been lowered before. -/
theorem Inclusion.call_succeeds (hΓ : (Γ.map (·.name)).Nodup) {σ : Signature} (hσ : σ ∈ Γ)
    {below : Nat}
    (hinclude : (includePartial programs below (σ.name :: opened)).Completes Γ T programs Δ
      (σ.name :: opened))
    {i : Inclusion} (hnames : (Variables.after (programLoops i.program)).isSome)
    (hprogram : ∀ x ∈ i.program, Fits programs Δ σ.input {} x) (hst : st.Valid)
    (hready : Ready Γ T root t k st) (hopened : σ.name ∉ opened) (hgroup : σ.group = i.group)
    (horigin : i.context.origin = .input) {u : Shape}
    (hu : t.follow (i.context.accessors.map Accessor.step) = some u) (hsame : u.Same σ.input) :
    Succeeds opened st (fun _ st' => Ready Γ T root t k st')
      (i.call programs (below + 1) opened root σ.name st) := by
  unfold Inclusion.call
  apply Succeeds.bind (.get hst)
  rintro _ st _ _ ⟨rfl, rfl⟩
  rw [← hgroup]
  cases hknown : st.partials.find? (·.name == σ.name) with
  | some known =>
    have hname : known.name = σ.name := by
      simpa using List.find?_some hknown
    exact callAgain_succeeds hΓ hst hready (List.mem_of_find?_eq_some hknown) hσ hname.symm horigin
      hu hsame
  | none =>
    have hnew : ∀ p ∈ st.partials, p.name ≠ σ.name := by
      intro p hp
      simpa using List.find?_eq_none.1 hknown p hp
    have hcontains : opened.contains σ.name = false := by
      simpa using hopened
    simp only [hcontains, Bool.false_eq_true, if_false]
    exact callFirst_succeeds hσ (includePartial_lowers programs below (σ.name :: opened)) hinclude
      hnames hprogram hst hready hopened hnew horigin hu hsame

/-- Inclusions of the first partials of a typing succeed, as long as none of these is being lowered
and there are levels for all of them. -/
theorem includePartial_completes (hΓ : (Γ.map (·.name)).Nodup)
    (htyped : ∀ (i : Nat) (σ : Signature), Γ[i]? = some σ → σ.Typed programs (Γ.take i)) (n : Nat) :
    ∀ (level : Nat) (opened : List String), n ≤ level → (∀ σ ∈ Γ.take n, σ.name ∉ opened) →
      (includePartial programs level opened).Completes Γ T programs (Γ.take n) opened := by
  -- a partial includes those before it only, so that the induction is on where it stands
  induction n using Nat.strongRecOn with
  | ind n ih =>
    intro level opened hlevel hfresh root t scope name params hash span hfits actual st k
      hactual hst hready _
    cases hfits with
    | @inclusion _ _ _ _ _ i σ u hplan horigin hσ hname hgroup hu hsame =>
      subst hname
      obtain ⟨i', hplan', _, hgroup', houtline⟩ := inclusionPlan_parallel hactual hplan
      rw [AccessPath.steps_eq_of_outline houtline] at hu
      have horigin' := AccessPath.origin_eq_of_outline houtline horigin
      have hσΓ := List.mem_of_mem_take hσ
      obtain ⟨j, hj⟩ := List.mem_iff_getElem?.1 hσ
      have hjn : j < n := by
        have hlt := (List.getElem?_eq_some_iff.1 hj).1
        exact Nat.lt_of_lt_of_le hlt (List.length_take_le n Γ)
      rw [List.getElem?_take_of_lt hjn] at hj
      obtain ⟨below, rfl⟩ : ∃ below, level = below + 1 :=
        ⟨level - 1, by omega⟩
      have hbelow : ∀ τ ∈ Γ.take j, τ.name ∉ σ.name :: opened := by
        intro τ hτ hmem
        obtain heq | hmem := List.mem_cons.1 hmem
        · exact name_not_before hΓ hj hτ heq
        · have hsub := List.take_subset_take_left Γ (Nat.le_of_lt hjn)
          exact hfresh τ (hsub hτ) hmem
      have hinclude := ih j hjn below (σ.name :: opened) (by omega) hbelow
      -- the program of the plan is the one that the typing has for this partial
      obtain ⟨program, hlookup, hnames, hprogram⟩ := htyped j σ hj
      obtain ⟨_, hlookup', _⟩ := inclusionPlan_eq_ok.1 hplan'
      rw [hlookup'] at hlookup
      cases hlookup
      have hrun : Succeeds opened st (fun _ st' => Ready Γ T root t k st')
          (includePartial programs (below + 1) opened root actual σ.name params hash st) := by
        rw [includePartial_eq]
        apply Succeeds.bind (.lift hst hplan')
        rintro _ st _ _ ⟨rfl, rfl⟩
        apply Succeeds.bind (Inclusion.call_succeeds hΓ hσΓ hinclude hnames hprogram hst hready
          (hfresh σ hσ) (hgroup.trans hgroup') horigin' hu hsame)
        intro _ st' hst' _ hready'
        exact .pure hst' hready'
      unfold lowerStatement
      apply Succeeds.bind hrun
      intro a st' hst' _ hready'
      exact .pure hst' hready'

end

/-! ## Templates -/

theorem State.bounded_initial {T : Shape} (hT : T.label.kind = some .struct) :
    State.initial.store.BoundedBy 0 T.bound := by
  intro p j hj
  cases p with
  | nil =>
    cases hj
    refine ⟨T, Shape.follow_nil T, ?_, Types.LengthLe.none_left _⟩
    intro kind hkind
    cases hkind
    exact hT
  | cons σ p =>
    obtain ⟨c, hc, _⟩ := Store.follow_cons.1 hj
    rw [State.child?_initial] at hc
    cases hc

/-- A type within which all contexts of each partial are of one type solves the equations between
them. -/
theorem Conforms.solution {Γ : List Signature} {T : Shape} {st : State} (h : Conforms Γ T st)
    (hst : st.Valid) : Solution st T where
  above := (Store.shape_le_iff hst.forest).2 h.bounded
  agree := by
    intro p hp a ha b hb
    obtain ⟨σ, _, _, _, hsites⟩ := h.partials p hp
    obtain ⟨P, u, hP, hu, hut⟩ := hsites a ha
    obtain ⟨Q, v, hQ, hv, hvt⟩ := hsites b hb
    exact ⟨P, Q, u, v, hP, hQ, hu, hv, hut.trans hvt.symm⟩

/-- A template that has a typing is lowered, and the types of its input and of the contexts of its
partials are within those of the typing. -/
theorem lower_within_typing {programs : List (String × Program)} {P : Program}
    {Γ : List Signature} {T : Shape} (h : Typing programs P Γ T) :
    ∃ l, lower programs P = .ok l ∧ (l.store.shape 0).Le T ∧
      ∀ p ∈ l.partials, ∃ σ ∈ Γ, σ.name = p.name ∧ (l.store.shape p.input).Le σ.input := by
  have hready : Ready Γ T 0 T 0 State.initial := by
    refine ⟨⟨State.bounded_initial h.root, ?_⟩, ⟨[], T, rfl, Shape.follow_nil T, .refl T⟩, rfl⟩
    intro p hp
    cases hp
  have hinclude : (includePartial programs programs.length []).Completes Γ T programs
      (Γ.take Γ.length) [] :=
    includePartial_completes h.names h.partials Γ.length programs.length [] h.length_le
      fun _ _ hmem => by cases hmem
  rw [List.take_length] at hinclude
  have hbody := lowerBody_succeeds hinclude h.body State.valid_initial hready h.loops
  change Succeeds _ _ _ (lowerProgram programs 0 P State.initial) at hbody
  cases hlower : lowerProgram programs 0 P State.initial with
  | error e st =>
    rw [hlower] at hbody
    exact hbody.elim
  | ok code st =>
    rw [hlower] at hbody
    obtain ⟨hst, _, hconforms⟩ := hbody
    -- the rounds stay within the type as well
    obtain ⟨st', hsettle, hle⟩ := settleTypes_of_solution hst (hconforms.solution hst)
    have hfinish := (finish_ok_iff hst).2 hsettle
    obtain ⟨hst', hgrows, hpartials, _⟩ := settleTypes_correct hst hsettle
    refine ⟨⟨code, st'.partials, st'.store, 0⟩,
      lower_ok.2 ⟨st, st', hlower, hfinish, rfl, rfl, rfl⟩, hle, ?_⟩
    intro p hp
    have hp' : p ∈ st.partials := hpartials ▸ hp
    obtain ⟨σ, hσ, hname, _, hsites⟩ := hconforms.partials p hp'
    -- the input of a partial is the context of its first call
    obtain ⟨site, hsite, hinput⟩ := hst.first p hp'
    refine ⟨σ, hσ, hname, ?_⟩
    rw [← hinput]
    exact ((hsites site hsite).of_grows hgrows).shape_le hst'.forest hle

/-- A template that has a typing is lowered, and the type of its input is within the one of the
typing. -/
theorem lower_of_typing {programs : List (String × Program)} {P : Program} {Γ : List Signature}
    {T : Shape} (h : Typing programs P Γ T) :
    ∃ l, lower programs P = .ok l ∧ (l.store.shape 0).Le T := by
  obtain ⟨l, hl, hle, _⟩ := lower_within_typing h
  exact ⟨l, hl, hle⟩

end Lower
end Stencil
