import Stencil.Proofs.Lower.LoopVariables
import Stencil.Proofs.Types.Members

/-!
# Members of the input

The types that are inferred for a template have members only where its references name them: if
all segments of references have names of some kind, all members have such names
(`lower_membersIn`). Lowering walks along the paths of references, and the rounds after it copy
members from one context of a partial to another.
-/

namespace Stencil

/-- The members that a path goes through have names of some kind. -/
def AccessPath.MembersIn (names : String → Prop) (path : AccessPath) : Prop :=
  ∀ name, .member name ∈ path.accessors → names name

namespace Lower

open Code (Atom)
open Template (Expr Hash PathExpr Program Statement)
open Stencil.Types (Inference NodeId narrow narrow_keepsMembers resolveNode_keepsMembers
  unify_keepsMembers)
open Lowering (infer lift)
open Results (run_bind_eq_ok)

variable {names : String → Prop}

theorem stable_membersIn : Stable names fun _ path => path.MembersIn names where
  segment := by
    intro around path part hpart h name hname
    obtain hname | hname := List.mem_append.1 hname
    · exact h name hname
    · have hsegment : .member name = Accessor.ofSegment part := List.mem_singleton.1 hname
      unfold Accessor.ofSegment at hsegment
      split at hsegment
      · cases hsegment
      · cases hsegment
        exact hpart
  inside _ h := h
  item := by
    intro around items index _ h name hname
    obtain hname | hname := List.mem_append.1 hname
    · exact h name hname
    · cases List.mem_singleton.1 hname
  position := by
    intro around index _ name hname
    cases hname

/-- The members of the types that have been inferred have names of some kind. -/
def State.MembersIn (names : String → Prop) (st : State) : Prop := st.store.MembersIn names

section

variable {α β : Type}

theorem keeps_lift_bind {I : State → Prop} {x : Except Error α} {f : α → Lowering β}
    (hf : ∀ a, x = .ok a → Keeps I (f a)) : Keeps I (lift x >>= f) := by
  intro st b st' h hst
  obtain ⟨a, ha, h⟩ := lift_bind_eq_ok.1 h
  exact hf a ha st b st' h hst

theorem keeps_infer {m : Inference α} (hm : Keeps (Types.Store.MembersIn names) m) :
    Keeps (State.MembersIn names) (infer m) := by
  intro st a st' h hst
  unfold Lowering.infer at h
  split at h
  · next hrun =>
    cases h
    exact hm _ _ _ hrun hst
  · cases h

theorem keeps_inNewFunction {m : Lowering α} (hm : Keeps (State.MembersIn names) m) :
    Keeps (State.MembersIn names) (Lowering.inNewFunction m) := by
  intro st a st' h hst
  rw [inNewFunction_eq] at h
  split at h
  · next st₁ hrun =>
    cases h
    exact hm _ _ st₁ hrun hst
  · cases h

end

/-! ## Tags -/

section

variable {scope : Scope} (root : NodeId) {params : List Expr} (hash : Hash)

theorem membersIn_resolve (hscope : scope.view.All (AccessPath.MembersIn names)) {p : PathExpr}
    (hparts : ∀ part ∈ p.parts, names part) {path : AccessPath} (h : scope.resolve p = .ok path) :
    path.MembersIn names :=
  @Stable.resolve names _ [] scope stable_membersIn hscope p hparts path h

/-- Where the argument of a tag leads. -/
theorem membersIn_argument (hscope : scope.view.All (AccessPath.MembersIn names))
    (hparams : ∀ p, .path p ∈ params → ∀ part ∈ p.parts, names part) {context : String}
    {path : AccessPath} (h : (pathArgument params context >>= scope.resolve) = .ok path) :
    path.MembersIn names := by
  obtain ⟨p, hp, hresolve⟩ := resolves_of_argument h
  exact membersIn_resolve hscope (hparams p hp) hresolve

theorem interpolation_keepsMembers (hscope : scope.view.All (AccessPath.MembersIn names))
    {head : Expr} (hhead : ∀ p, head = .path p → ∀ part ∈ p.parts, names part)
    (hparams : ∀ p, .path p ∈ params → ∀ part ∈ p.parts, names part) :
    Keeps (State.MembersIn names) (interpolation root scope head params hash) := by
  unfold interpolation
  split
  · next p =>
    refine keeps_lift_bind fun helper _ => ?_
    split
    · refine keeps_lift_bind fun _ _ => keeps_lift_bind fun decimals _ => ?_
      refine keeps_lift_bind fun target htarget => ?_
      have hmembers := membersIn_argument hscope hparams htarget
      exact .bind (keeps_infer (narrow_keepsMembers root hmembers _ _)) fun _ => .pure _
    · refine keeps_lift_bind fun _ _ => keeps_lift_bind fun target htarget => ?_
      have hmembers := membersIn_argument hscope hparams htarget
      exact .bind (keeps_infer (narrow_keepsMembers root hmembers _ _)) fun _ => .pure _
    · split
      · exact .throw _
      · refine keeps_lift_bind fun target htarget => ?_
        have hmembers := membersIn_resolve hscope (hhead p rfl) htarget
        split
        · exact .pure _
        · exact .bind (keeps_infer (narrow_keepsMembers root hmembers _ _)) fun _ => .pure _
  · exact .throw _

theorem openLoop_keepsMembers (hscope : scope.view.All (AccessPath.MembersIn names))
    (hparams : ∀ p, .path p ∈ params → ∀ part ∈ p.parts, names part) (binders : List String)
    (hasInverse : Bool) :
    Keeps (State.MembersIn names) (openLoop root scope params hash binders hasInverse) := by
  rw [openLoop_eq]
  refine keeps_lift_bind fun d hd => ?_
  obtain ⟨p, hp, hresolve⟩ := loopPlan_resolves hd
  have hmembers := membersIn_resolve hscope (hparams p hp) hresolve
  refine .bind (keeps_infer (narrow_keepsMembers root hmembers _ _)) fun _ => ?_
  refine .bind ?_ fun index => .pure _
  intro st index st' h hst
  rw [allocate_eq] at h
  split at h
  · cases h
    exact hst
  · cases h

theorem openCondition_keepsMembers (hscope : scope.view.All (AccessPath.MembersIn names))
    {head : PathExpr} (hhead : ∀ part ∈ head.parts, names part)
    (hparams : ∀ p, .path p ∈ params → ∀ part ∈ p.parts, names part) :
    Keeps (State.MembersIn names) (openCondition root scope head params hash) := by
  rw [openCondition_eq]
  refine keeps_lift_bind fun d hd => ?_
  obtain ⟨p, hp, hresolve⟩ := conditionPlan_resolves hd
  have hmembers : d.target.MembersIn names := by
    obtain rfl | hp := hp
    · exact membersIn_resolve hscope hhead hresolve
    · exact membersIn_resolve hscope (hparams p hp) hresolve
  exact .bind (keeps_infer (narrow_keepsMembers root hmembers _ _)) fun _ => .pure _

end

/-! ## Statements -/

/-- An includer that adds members only where references name them. -/
def Includer.KeepsMembers (names : String → Prop) (include_ : Includer) : Prop :=
  ∀ (root : NodeId) (scope : Scope) (name : String) (params : List Expr) (hash : Hash),
    scope.view.All (AccessPath.MembersIn names) →
      (∀ p, .path p ∈ params → ∀ part ∈ p.parts, names part) →
        Keeps (State.MembersIn names) (include_ root scope name params hash)

section

variable {include_ : Includer} {root : NodeId}

theorem Derivation.keepsMembers (hinclude : include_.KeepsMembers names) {scope : Scope}
    {P : Program} {st st' : State} {outputs : List CodeOutput}
    (h : Derivation include_ root scope P st outputs st')
    (hscope : scope.view.All (AccessPath.MembersIn names)) (hsegments : SegmentsIn names P)
    (hst : st.MembersIn names) : st'.MembersIn names := by
  induction h with
  | nil => exact hst
  | content _ ih | comment _ ih | constant _ ih => exact ih hscope hsegments.later hst
  | interpolation hatom _ ih =>
    have hparts := hsegments.interpolation
    refine ih hscope hsegments.later ?_
    exact interpolation_keepsMembers root _ hscope (fun p hp => hparts p (.inl hp))
      (fun p hp => hparts p (.inr hp)) _ _ _ hatom hst
  | inclusion hatom _ ih =>
    refine ih hscope hsegments.later ?_
    exact hinclude root _ _ _ _ hscope hsegments.inclusion _ _ _ hatom hst
  | each _ hloop _ _ ihbody ih =>
    have hparams := hsegments.block_params
    have hst₁ := openLoop_keepsMembers root _ hscope hparams _ _ _ _ _ hloop hst
    obtain ⟨⟨d, hplan, _, hinner⟩, hindex, _⟩ := openLoop_eq_ok hloop
    obtain ⟨p, hp, hresolve⟩ := loopPlan_resolves hplan
    have hitems := membersIn_resolve hscope (hparams p hp) hresolve
    refine ih hscope hsegments.later (ihbody ?_ hsegments.block_body hst₁)
    rw [hinner]
    exact @Stable.loopScope _ names _ [] _ stable_membersIn hscope
      (IndexName.of_allocate hindex).1 _ hitems _
  | dive _ hopen _ _ ihbody ih =>
    obtain ⟨target, htarget, rfl⟩ := openWith_ok hopen
    have hmembers := membersIn_argument hscope hsegments.block_params htarget
    have hinner := hscope.enter hmembers (by simp : ∀ e ∈ [], _)
    exact ih hscope hsegments.later (ihbody hinner hsegments.block_body hst)
  | conditional _ hpath _ _ _ ihbody ihinverse ih =>
    have hst₁ := openCondition_keepsMembers root _ hscope hsegments.block_head
      hsegments.block_params _ _ _ hpath hst
    have hst₂ := ihbody hscope hsegments.block_body hst₁
    exact ih hscope hsegments.later (ihinverse hscope hsegments.block_inverse hst₂)

theorem lowerBody_keepsMembers (hinclude : include_.KeepsMembers names) {P : Program}
    (hsegments : SegmentsIn names P) :
    Keeps (State.MembersIn names) (lowerBody include_ root P) := by
  have hroot : ({} : Scope).view.All (AccessPath.MembersIn names) := by
    refine Scope.view_root ?_
    intro name hname
    cases hname
  unfold lowerBody
  refine .bind ?_ fun _ => .pure _
  intro st outputs st' h hst
  exact (lowerStatements_eq_ok.1 h).keepsMembers hinclude hroot hsegments hst

end

/-! ## Partials -/

section

variable {root : NodeId} {context : AccessPath}

theorem callAgain_keepsMembers (hcontext : context.MembersIn names) (known : LoweredPartial)
    (group : Option String) :
    Keeps (State.MembersIn names) (callAgain known root group context) := by
  unfold callAgain
  split
  · exact .throw _
  · refine .bind (keeps_infer (resolveNode_keepsMembers root hcontext)) fun node => ?_
    refine .bind (keeps_infer (unify_keepsMembers node known.input _)) fun _ => ?_
    exact .modify fun _ h => h

theorem callFirst_keepsMembers {include_ : Includer} (hinclude : include_.KeepsMembers names)
    (hcontext : context.MembersIn names) (name : String) (group : Option String)
    {program : Program} (hprogram : SegmentsIn names program) :
    Keeps (State.MembersIn names) (callFirst include_ root name group context program) := by
  unfold callFirst
  refine .bind (keeps_infer (resolveNode_keepsMembers root hcontext)) fun node => ?_
  refine .bind (keeps_inNewFunction (lowerBody_keepsMembers hinclude hprogram)) fun code => ?_
  exact .modify fun _ h => h

end

variable {programs : List (String × Program)}

theorem Inclusion.call_keepsMembers {level : Nat} {opened : List String} {root : NodeId}
    {name : String} {i : Inclusion} (hcontext : i.context.MembersIn names)
    (hprogram : SegmentsIn names i.program)
    (hbelow : ∀ below, level = below + 1 →
      (includePartial programs below (name :: opened)).KeepsMembers names) :
    Keeps (State.MembersIn names) (i.call programs level opened root name) := by
  unfold Inclusion.call
  refine .get_bind fun st _ => ?_
  split
  · next known _ => exact callAgain_keepsMembers hcontext known i.group
  · cases opened.contains name with
    | true => exact .throw_bind _ _
    | false =>
      cases level with
      | zero => exact .throw _
      | succ below =>
        exact callFirst_keepsMembers (hbelow below rfl) hcontext name i.group hprogram

theorem includePartial_keepsMembers (hprograms : ∀ x ∈ programs, SegmentsIn names x.2)
    (level : Nat) (opened : List String) :
    (includePartial programs level opened).KeepsMembers names := by
  induction level, opened using level_induction with
  | step level opened hbelow =>
    intro root scope name params hash hscope hparams
    rw [includePartial_eq]
    refine keeps_lift_bind fun i hi => ?_
    obtain ⟨_, hprogram, _, _, hcontext⟩ := inclusionPlan_eq_ok.1 hi
    have hcontext : i.context.MembersIn names := by
      obtain hhere | ⟨p, hp, hresolve⟩ := inclusionContext_resolves hcontext
      · rw [hhere]
        exact hscope.1.1
      · exact membersIn_resolve hscope (hparams p hp) hresolve
    have hbody := hprograms _ (Lookup.mem_of_lookup hprogram)
    exact .bind (Inclusion.call_keepsMembers hcontext hbody fun below => hbelow below name)
      fun _ => .pure _

/-! ## Rounds -/

theorem shareTypes_keepsMembers : Keeps (State.MembersIn names) shareTypes := by
  unfold shareTypes
  refine .get_bind fun st _ => .forM fun p _ => ?_
  unfold shareType
  refine .bind (.forM fun site _ => ?_) fun _ => .forM fun site _ => ?_
  · exact keeps_infer (unify_keepsMembers p.input site.node _)
  · exact keeps_infer (unify_keepsMembers site.node p.input _)

theorem settleWithin_membersIn {n : Nat} {st st' : State}
    (h : settleWithin n st = some (.ok () st')) (hst : st.MembersIn names) :
    st'.MembersIn names := by
  induction n generalizing st with
  | zero => cases h
  | succ n ih =>
    unfold settleWithin at h
    split at h
    · cases h
    · next st₁ hround =>
      have hst₁ := shareTypes_keepsMembers st () st₁ hround hst
      split at h
      · cases h
        exact hst₁
      · exact ih h hst₁

/-- The members of the inferred types are segments of references. -/
theorem lower_membersIn {program : Program} {l : Lowered} (h : lower programs program = .ok l)
    (hprogram : SegmentsIn names program) (hprograms : ∀ x ∈ programs, SegmentsIn names x.2) :
    l.store.MembersIn names := by
  obtain ⟨st, st', hlower, hfinish, _, hstore, _⟩ := lower_ok.1 h
  have hinitial : State.initial.MembersIn names := by
    intro id
    by_cases hid : id < State.initial.store.size
    · rw [State.get_initial hid]
      intro m hm
      cases hm
    · rw [Types.Store.get_of_size_le (Nat.le_of_not_lt hid)]
      exact trivial
  have hst := lowerBody_keepsMembers (includePartial_keepsMembers hprograms _ []) hprogram _ _ _
    hlower hinitial
  -- sharing types between calls adds no members but those of one side to the other
  have hsettle := (finish_ok_iff (valid_of_lowerProgram hlower)).1 hfinish
  obtain ⟨n, hn⟩ := settleTypes_eq_some_iff.1 hsettle
  rw [hstore]
  exact settleWithin_membersIn hn hst

end Lower
end Stencil
