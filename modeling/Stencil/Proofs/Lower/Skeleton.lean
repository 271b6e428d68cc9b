import Stencil.Proofs.Factor.Skeleton
import Stencil.Proofs.Lower.Plans
import Stencil.Proofs.Lower.Rounds

/-!
# Lowering reads tags only

Text and constants become code, but they take no part in inference: the types, the partials and
the calls of a lowered template depend on its tags only. This file defines:

* `State.withoutCode`, `Lowered.withoutCode` : what lowering keeps besides code;
* `Lockstep`                             : two computations that differ in code only;
* `inferred`                             : what is inferred for a template from its sources.

Lowering two programs with the same tags goes in lockstep (`lowerStatements_lockstep`), and so do
the rounds that follow (`finish_lockstep`). How text is shared changes no tags, so that the main
result `sharing_invisible` holds: the length from which on text is shared cannot be seen in
what is inferred.
-/

namespace Stencil
namespace Lower

open Code (Atom)
open Factor (SameSkeletons readWith skeleton tagLeaf)
open Lowering (infer lift)
open Results (toOption_eq_some)
open Template (Expr Hash PathExpr Program Statement)
open Stencil.Types (Inference NodeId Store)

/-- A lowered partial without its code. -/
def LoweredPartial.withoutCode (p : LoweredPartial) : LoweredPartial := { p with code := [] }

/-- What inference keeps. -/
def State.withoutCode (st : State) : State :=
  { st with partials := st.partials.map LoweredPartial.withoutCode }

/-- A lowered template without its code. -/
def Lowered.withoutCode (l : Lowered) : Lowered :=
  { l with code := [], partials := l.partials.map LoweredPartial.withoutCode }

section

variable {st st' : State}

theorem State.store_eq (h : st.withoutCode = st'.withoutCode) : st.store = st'.store :=
  congrArg (·.store) h

theorem State.locals_eq (h : st.withoutCode = st'.withoutCode) : st.locals = st'.locals :=
  congrArg (·.locals) h

theorem State.partials_eq (h : st.withoutCode = st'.withoutCode) :
    st.partials.map LoweredPartial.withoutCode = st'.partials.map LoweredPartial.withoutCode :=
  congrArg (·.partials) h

theorem State.with_store_eq (h : st.withoutCode = st'.withoutCode) (store : Store) :
    { st with store }.withoutCode = { st' with store }.withoutCode :=
  congrArg (fun st : State => { st with store }) h

theorem State.with_locals_eq (h : st.withoutCode = st'.withoutCode) (locals : Variables) :
    { st with locals }.withoutCode = { st' with locals }.withoutCode :=
  congrArg (fun st : State => { st with locals }) h

end

/-! ## Lockstep -/

section

variable {α β γ δ : Type}

/-- Two outcomes that agree but for code, with results in the relation `R`. -/
inductive Matches (R : α → β → Prop) :
    EStateM.Result Error State α → EStateM.Result Error State β → Prop where
  | ok {a : α} {b : β} {st st' : State} : R a b → st.withoutCode = st'.withoutCode →
      Matches R (.ok a st) (.ok b st')
  | error {e : Error} {st st' : State} : Matches R (.error e st) (.error e st')

/-- Two computations whose outcomes agree but for code, if the states before do. -/
def Lockstep (R : α → β → Prop) (m : Lowering α) (n : Lowering β) : Prop :=
  ∀ st st', st.withoutCode = st'.withoutCode → Matches R (m st) (n st')

/-- Results of which nothing is said. -/
abbrev Free (_ : α) (_ : β) : Prop := True

namespace Lockstep

variable {R : α → β → Prop} {S : γ → δ → Prop} {m : Lowering α} {n : Lowering β}

theorem pure {a : α} {b : β} (h : R a b) : Lockstep R (pure a) (pure b) :=
  fun _ _ hst => .ok h hst

theorem throw (e : Error) : Lockstep R (MonadExcept.throw e) (MonadExcept.throw e) :=
  fun _ _ _ => .error

theorem bind {f : α → Lowering γ} {g : β → Lowering δ} (hm : Lockstep R m n)
    (hf : ∀ a b, R a b → Lockstep S (f a) (g b)) : Lockstep S (m >>= f) (n >>= g) := by
  intro st st' hst
  change Matches S (EStateM.bind m f st) (EStateM.bind n g st')
  unfold EStateM.bind
  have hmatches := hm st st' hst
  cases hrun : m st with
  | error e st₁ =>
    rw [hrun] at hmatches
    cases hrun' : n st' with
    | error e' st₁' =>
      rw [hrun'] at hmatches
      cases hmatches
      exact .error
    | ok b st₁' =>
      rw [hrun'] at hmatches
      cases hmatches
  | ok a st₁ =>
    rw [hrun] at hmatches
    cases hrun' : n st' with
    | error e' st₁' =>
      rw [hrun'] at hmatches
      cases hmatches
    | ok b st₁' =>
      rw [hrun'] at hmatches
      cases hmatches with
      | ok hR hst₁ => exact hf a b hR st₁ st₁' hst₁

/-- The same computation in front of others. -/
theorem bind_eq {k : Lowering α} {f : α → Lowering γ} {g : α → Lowering δ}
    (hk : Lockstep Eq k k) (hf : ∀ a, Lockstep S (f a) (g a)) : Lockstep S (k >>= f) (k >>= g) := by
  refine hk.bind ?_
  rintro a _ rfl
  exact hf a

theorem lift (x : Except Error α) : Lockstep Eq (lift x) (lift x) := by
  cases x with
  | error e => exact throw e
  | ok a => exact pure rfl

theorem infer (m : Inference α) : Lockstep Eq (infer m) (infer m) := by
  intro st st' hst
  unfold Lowering.infer
  rw [State.store_eq hst]
  cases m st'.store with
  | ok a store => exact .ok rfl (State.with_store_eq hst store)
  | error e store => exact .error

theorem allocate (base : String) :
    Lockstep Eq (Lowering.allocate base) (Lowering.allocate base) := by
  intro st st' hst
  rw [allocate_eq, allocate_eq, State.locals_eq hst]
  cases st'.locals.allocate base with
  | none => exact .error
  | some taken => exact .ok rfl (State.with_locals_eq hst taken.2)

theorem get {f : State → Lowering γ} {g : State → Lowering δ}
    (h : ∀ st st', st.withoutCode = st'.withoutCode → Lockstep S (f st) (g st')) :
    Lockstep S (MonadState.get >>= f) (MonadState.get >>= g) :=
  fun st st' hst => h st st' hst st st' hst

theorem inNewFunction (h : Lockstep R m n) :
    Lockstep R (Lowering.inNewFunction m) (Lowering.inNewFunction n) := by
  intro st st' hst
  rw [inNewFunction_eq, inNewFunction_eq, State.locals_eq hst]
  have hmatches := h _ _ (State.with_locals_eq hst {})
  generalize m { st with locals := {} } = r at hmatches ⊢
  generalize n { st' with locals := {} } = r' at hmatches ⊢
  cases hmatches with
  | error => exact .error
  | ok hR hst₁ => exact .ok hR (State.with_locals_eq hst₁ st'.locals)

theorem symm (h : Lockstep Free m n) : Lockstep Free n m := by
  intro st st' hst
  have hmatches := h st' st hst.symm
  generalize m st' = r at hmatches ⊢
  generalize n st = r' at hmatches ⊢
  cases hmatches with
  | error => exact .error
  | ok _ hst₁ => exact .ok trivial hst₁.symm

theorem trans {k : Lowering γ} (h : Lockstep Free m n) (h' : Lockstep Free n k) :
    Lockstep Free m k := by
  intro st st' hst
  have hmatches := h st st' hst
  have hmatches' := h' st' st' rfl
  generalize m st = r at hmatches ⊢
  generalize n st' = r' at hmatches hmatches'
  generalize k st' = r'' at hmatches' ⊢
  cases hmatches with
  | error =>
    cases hmatches'
    exact .error
  | ok _ hst₁ =>
    cases hmatches' with
    | ok _ hst₂ => exact .ok trivial (hst₁.trans hst₂)

end Lockstep

end

/-! ## Tags -/

section

variable (root : NodeId) (scope : Scope) (params : List Expr) (hash : Hash)

theorem interpolation_lockstep (head : Expr) :
    Lockstep Eq (interpolation root scope head params hash)
      (interpolation root scope head params hash) := by
  rw [interpolation_eq]
  refine .bind_eq (.lift _) fun plan => .bind_eq ?_ fun _ => .pure rfl
  cases plan.2 with
  | none => exact .pure rfl
  | some d => exact .infer _

theorem openLoop_lockstep (binders : List String) (hasInverse : Bool) :
    Lockstep Eq (openLoop root scope params hash binders hasInverse)
      (openLoop root scope params hash binders hasInverse) := by
  rw [openLoop_eq]
  exact .bind_eq (.lift _) fun d => .bind_eq (.infer _) fun _ =>
    .bind_eq (.allocate _) fun index => .pure rfl

theorem openCondition_lockstep (head : PathExpr) :
    Lockstep Eq (openCondition root scope head params hash)
      (openCondition root scope head params hash) := by
  rw [openCondition_eq]
  exact .bind_eq (.lift _) fun d => .bind_eq (.infer _) fun _ => .pure rfl

end

/-! ## Statements -/

/-- Two includers that go in lockstep. -/
def Includer.Lockstep (I J : Includer) : Prop :=
  ∀ root scope name params hash,
    Lower.Lockstep Free (I root scope name params hash) (J root scope name params hash)

theorem lowerStatements_append (I : Includer) (root : NodeId) (scope : Scope) (P Q : Program) :
    lowerStatements I root scope (P ++ Q) = do
      let first ← lowerStatements I root scope P
      return first ++ (← lowerStatements I root scope Q) := by
  induction P with
  | nil => simp [lowerStatements]
  | cons s P ih => simp [lowerStatements, ih, ← List.append_assoc]

section

variable {I J : Includer}

theorem Lockstep.single {root : NodeId} {scope : Scope} {m : Lowering (List CodeOutput)}
    {s : Statement} (h : Lockstep Free m (lowerStatement J root scope s)) :
    Lockstep Free m (lowerStatements J root scope [s]) := by
  rw [← bind_pure m]
  simp only [lowerStatements, pure_bind]
  exact h.bind fun _ _ _ => .pure trivial

mutual

theorem lowerStatement_lockstep (h : I.Lockstep J) (root : NodeId) :
    (s : Statement) → (scope : Scope) → Lockstep Free (lowerStatement I root scope s)
      (lowerStatements J root scope (Factor.replaceStatement tagLeaf s))
  | .content value span, scope => by
    rw [Factor.replaceStatement_leaf rfl]
    simp only [lowerStatement, tagLeaf, lowerStatements]
    exact .pure trivial
  | .comment value span, scope => by
    rw [Factor.replaceStatement_leaf rfl]
    simp only [lowerStatement, tagLeaf, lowerStatements]
    exact .pure trivial
  | .constant name span, scope => by
    rw [Factor.replaceStatement_leaf rfl]
    simp only [lowerStatement, tagLeaf, lowerStatements]
    exact .pure trivial
  | .interpolation head params hash escaped span, scope => by
    rw [Factor.replaceStatement_leaf rfl]
    refine .single ?_
    simp only [lowerStatement]
    exact .bind_eq (interpolation_lockstep root scope params hash head) fun _ => .pure trivial
  | .inclusion name params hash span, scope => by
    rw [Factor.replaceStatement_inclusion]
    refine .single ?_
    simp only [lowerStatement]
    exact (h root scope name params hash).bind fun _ _ _ => .pure trivial
  | .block head params hash binders body inverse span, scope => by
    have hbody := lowerStatements_lockstep h root body
    rw [Factor.replaceStatement_block]
    refine .single ?_
    unfold lowerStatement
    refine .bind_eq (.lift _) fun kind => ?_
    cases kind with
    | each =>
      rw [Option.isSome_map]
      exact .bind_eq (openLoop_lockstep root scope params hash binders _) fun loop =>
        (hbody loop.scope).bind fun _ _ _ => .pure trivial
    | dive =>
      rw [Option.isSome_map]
      exact .bind_eq (.lift _) fun inner => (hbody inner).bind fun _ _ _ => .pure trivial
    | conditional negated =>
      refine .bind_eq (openCondition_lockstep root scope params hash head) fun path => ?_
      refine (hbody scope).bind fun _ _ _ => ?_
      cases inverse with
      | none => exact .pure trivial
      | some otherwise =>
        exact (lowerStatements_lockstep h root otherwise scope).bind fun _ _ _ => .pure trivial

/-- A program goes in lockstep with its tags. -/
theorem lowerStatements_lockstep (h : I.Lockstep J) (root : NodeId) :
    (P : Program) → (scope : Scope) → Lockstep Free (lowerStatements I root scope P)
      (lowerStatements J root scope (skeleton P))
  | [], scope => by
    simp only [skeleton, Factor.replace_nil, lowerStatements]
    exact .pure trivial
  | s :: rest, scope => by
    have hrest := lowerStatements_lockstep h root rest scope
    rw [skeleton, Factor.replace_cons, lowerStatements_append]
    simp only [lowerStatements]
    exact (lowerStatement_lockstep h root s scope).bind fun _ _ _ =>
      hrest.bind fun _ _ _ => .pure trivial

end

/-- Programs with the same tags go in lockstep. -/
theorem lowerBody_lockstep (h : I.Lockstep J) (root : NodeId) {P Q : Program}
    (hskeleton : skeleton P = skeleton Q) :
    Lockstep Free (lowerBody I root P) (lowerBody J root Q) := by
  -- both go in lockstep with the tags that they have in common
  have hself : J.Lockstep J := by
    intro root scope name params hash
    exact (h root scope name params hash).symm.trans (h root scope name params hash)
  have hP := lowerStatements_lockstep h root P {}
  have hQ := lowerStatements_lockstep hself root Q {}
  rw [hskeleton] at hP
  exact (hP.trans hQ.symm).bind fun _ _ _ => .pure trivial

end

/-! ## Inclusions -/

theorem find_withoutCode {st st' : State} (h : st.withoutCode = st'.withoutCode) (name : String) :
    (st.partials.find? (·.name == name)).map LoweredPartial.withoutCode =
      (st'.partials.find? (·.name == name)).map LoweredPartial.withoutCode := by
  -- the search looks at names only
  have hfind : ∀ ps : List LoweredPartial,
      (ps.map LoweredPartial.withoutCode).find? (·.name == name) =
        (ps.find? (·.name == name)).map LoweredPartial.withoutCode := by
    intro ps
    rw [List.find?_map]
    rfl
  rw [← hfind, State.partials_eq h, hfind]

theorem LoweredPartial.withoutCode_called (p : LoweredPartial) (name : String) (site : CallSite) :
    (p.called name site).withoutCode = p.withoutCode.called name site := by
  unfold LoweredPartial.called
  change _ = if p.name == name then _ else _
  split
  · rfl
  · rfl

theorem addCallSite_lockstep (name : String) (site : CallSite) :
    Lockstep Free (addCallSite name site) (addCallSite name site) := by
  have hmap : ∀ ps : List LoweredPartial,
      (ps.map (·.called name site)).map LoweredPartial.withoutCode =
        (ps.map LoweredPartial.withoutCode).map (·.called name site) := by
    intro ps
    rw [List.map_map, List.map_map]
    exact List.map_congr_left fun p _ => p.withoutCode_called name site
  intro st st' hst
  refine .ok trivial ?_
  change State.mk st.store ((st.partials.map (·.called name site)).map LoweredPartial.withoutCode)
    st.locals = State.mk st'.store
      ((st'.partials.map (·.called name site)).map LoweredPartial.withoutCode) st'.locals
  rw [hmap, hmap, State.partials_eq hst, State.store_eq hst, State.locals_eq hst]

theorem callAgain_lockstep {known known' : LoweredPartial}
    (h : known.withoutCode = known'.withoutCode) (root : NodeId) (group : Option String)
    (context : AccessPath) :
    Lockstep Free (callAgain known root group context) (callAgain known' root group context) := by
  have hwithout : ∀ p : LoweredPartial,
      callAgain p root group context = callAgain p.withoutCode root group context := fun _ => rfl
  rw [hwithout known, h, ← hwithout known']
  unfold callAgain
  split
  · exact fun _ _ _ => .error
  · exact .bind_eq (.infer _) fun node => .bind_eq (.infer _) fun _ => addCallSite_lockstep _ _

theorem callFirst_lockstep {I J : Includer} (h : I.Lockstep J) (root : NodeId) (name : String)
    (group : Option String) (context : AccessPath) {P Q : Program}
    (hskeleton : skeleton P = skeleton Q) :
    Lockstep Free (callFirst I root name group context P)
      (callFirst J root name group context Q) := by
  refine .bind_eq (.infer _) fun node => ?_
  refine (Lockstep.inNewFunction (lowerBody_lockstep h node hskeleton)).bind ?_
  intro code code' _ st st' hst
  refine .ok trivial ?_
  change State.mk st.store ((st.partials ++ [newPartial name node code group context]).map
    LoweredPartial.withoutCode) st.locals = State.mk st'.store
      ((st'.partials ++ [newPartial name node code' group context]).map LoweredPartial.withoutCode)
        st'.locals
  rw [List.map_append, List.map_append, State.partials_eq hst, State.store_eq hst,
    State.locals_eq hst]
  rfl

/-- Plans of inclusions whose partials have the same tags. -/
def Inclusion.Same (i j : Inclusion) : Prop :=
  i.group = j.group ∧ i.context = j.context ∧ skeleton i.program = skeleton j.program

section

variable {programs others : List (String × Program)}

theorem inclusionPlan_lockstep (h : SameSkeletons programs others) (scope : Scope) (name : String)
    (params : List Expr) (hash : Hash) :
    Lockstep Inclusion.Same (lift (inclusionPlan programs scope name params hash))
      (lift (inclusionPlan others scope name params hash)) := by
  unfold inclusionPlan
  cases Name.isIdentifier name with
  | false => exact .throw _
  | true =>
    have hlookup := h.lookup_eq name
    cases hP : programs.lookup name with
    | none =>
      rw [hP] at hlookup
      rw [Option.map_eq_none_iff.1 hlookup.symm]
      exact .throw _
    | some P =>
      rw [hP] at hlookup
      obtain ⟨Q, hQ, hskeleton⟩ := Option.map_eq_some_iff.1 hlookup.symm
      rw [hQ]
      -- the checks are the same, and do not look at the bodies
      change Lockstep _ (lift (expectKeys hash ["extra"] name >>= _))
        (lift (expectKeys hash ["extra"] name >>= _))
      cases expectKeys hash ["extra"] name with
      | error e => exact .throw e
      | ok _ =>
        change Lockstep _ (lift (groupArgument hash >>= _)) (lift (groupArgument hash >>= _))
        cases groupArgument hash with
        | error e => exact .throw e
        | ok group =>
          change Lockstep _ (lift (inclusionContext scope name params >>= _))
            (lift (inclusionContext scope name params >>= _))
          cases inclusionContext scope name params with
          | error e => exact .throw e
          | ok context => exact .pure ⟨rfl, rfl, hskeleton.symm⟩

/-- An inclusion of any level, given those of the level below. -/
theorem includePartial_lockstep_of (h : SameSkeletons programs others) {level : Nat}
    {opened : List String} {root : NodeId} {scope : Scope} {name : String} {params : List Expr}
    {hash : Hash} (hbelow : ∀ below, level = below + 1 →
      (includePartial programs below (name :: opened)).Lockstep
        (includePartial others below (name :: opened))) :
    Lockstep Free (includePartial programs level opened root scope name params hash)
      (includePartial others level opened root scope name params hash) := by
  rw [includePartial_eq, includePartial_eq]
  refine (inclusionPlan_lockstep h scope name params hash).bind ?_
  rintro i j ⟨hgroup, hcontext, hskeleton⟩
  suffices hcall : Lockstep Free (i.call programs level opened root name)
      (j.call others level opened root name) from hcall.bind fun _ _ _ => .pure trivial
  unfold Inclusion.call
  rw [hgroup, hcontext]
  refine .get fun st st' hst => ?_
  have hfind := find_withoutCode hst name
  cases hknown : st.partials.find? (·.name == name) with
  | some known =>
    rw [hknown] at hfind
    obtain ⟨known', hknown', hwithout⟩ := Option.map_eq_some_iff.1 hfind.symm
    rw [hknown']
    exact callAgain_lockstep hwithout.symm root j.group j.context
  | none =>
    rw [hknown] at hfind
    rw [Option.map_eq_none_iff.1 hfind.symm]
    dsimp only
    split
    · exact fun _ _ _ => .error
    · cases level with
      | zero => exact .throw _
      | succ below =>
        exact callFirst_lockstep (hbelow below rfl) root name j.group j.context hskeleton

theorem includePartial_lockstep (h : SameSkeletons programs others) (level : Nat)
    (opened : List String) :
    (includePartial programs level opened).Lockstep (includePartial others level opened) := by
  induction level, opened using level_induction with
  | step level opened hbelow =>
    intro root scope name params hash
    exact includePartial_lockstep_of h fun below => hbelow below name

/-- Templates with the same tags are lowered in lockstep. -/
theorem lowerProgram_lockstep (h : SameSkeletons programs others) (root : NodeId) {P Q : Program}
    (hskeleton : skeleton P = skeleton Q) :
    Lockstep Free (lowerProgram programs root P) (lowerProgram others root Q) := by
  unfold lowerProgram
  rw [h.length_eq]
  exact lowerBody_lockstep (includePartial_lockstep h _ []) root hskeleton

end

/-! ## Agreement of call sites -/

/-- What does not look at code can be done without it. -/
theorem forM_withoutCode {m : Type → Type} [Monad m] {f : LoweredPartial → m PUnit}
    (hf : ∀ p, f p = f p.withoutCode) (ps : List LoweredPartial) :
    ps.forM f = (ps.map LoweredPartial.withoutCode).forM f := by
  induction ps with
  | nil => rfl
  | cons p ps ih =>
    change (f p >>= fun _ => ps.forM f) = (f p.withoutCode >>= fun _ => _)
    rw [ih, ← hf p]

theorem shareTypes_lockstep : Lockstep Free shareTypes shareTypes := by
  have hround : ∀ ps : List LoweredPartial,
      shareRound ps = shareRound (ps.map LoweredPartial.withoutCode) :=
    forM_withoutCode fun _ => rfl
  intro st st' hst
  rw [shareTypes_eq, shareTypes_eq, hround, State.partials_eq hst, ← hround]
  have hinfer := Lockstep.infer (shareRound st'.partials) st st' hst
  generalize infer (shareRound st'.partials) st = r at hinfer ⊢
  generalize infer (shareRound st'.partials) st' = r' at hinfer ⊢
  cases hinfer with
  | ok _ hst₁ => exact .ok trivial hst₁
  | error => exact .error

/-- The rounds on two states come to an end together. -/
theorem settleWithin_matches (n : Nat) {st st' : State} (hst : st.withoutCode = st'.withoutCode)
    {r : EStateM.Result Error State Unit} (h : settleWithin n st = some r) :
    ∃ r', settleWithin n st' = some r' ∧ Matches Free r r' := by
  induction n generalizing st st' with
  | zero => cases h
  | succ n ih =>
    have hround := shareTypes_lockstep st st' hst
    unfold settleWithin at h ⊢
    generalize shareTypes st = x at hround h
    generalize shareTypes st' = y at hround ⊢
    cases hround with
    | error =>
      cases h
      exact ⟨_, rfl, .error⟩
    | @ok _ _ st₁ st₁' _ hst₁ =>
      dsimp only at h ⊢
      rw [State.store_eq hst, State.store_eq hst₁] at h
      split at h
      · next heq =>
        cases h
        rw [if_pos heq]
        exact ⟨_, rfl, .ok trivial hst₁⟩
      · next hne =>
        rw [if_neg hne]
        exact ih hst₁ h

theorem settleTypes_matches {st st' : State} (hst : st.withoutCode = st'.withoutCode)
    {r : EStateM.Result Error State Unit} (h : st.settleTypes = some r) :
    ∃ r', st'.settleTypes = some r' ∧ Matches Free r r' := by
  obtain ⟨n, hn⟩ := settleTypes_eq_some_iff.1 h
  obtain ⟨r', hr', hmatches⟩ := settleWithin_matches n hst hn
  exact ⟨r', settleTypes_eq_some_iff.2 ⟨n, hr'⟩, hmatches⟩

theorem checkCalls_withoutCode (s : Store) (ps : List LoweredPartial) :
    checkCalls s ps = checkCalls s (ps.map LoweredPartial.withoutCode) :=
  forM_withoutCode (fun _ => rfl) ps

theorem finish_lockstep : Lockstep Free finish finish := by
  intro st st' hst
  rw [finish_eq, finish_eq]
  cases hsettle : st.settleTypes with
  | none =>
    cases hsettle' : st'.settleTypes with
    | none => exact .error
    | some r' =>
      obtain ⟨r, hr, _⟩ := settleTypes_matches hst.symm hsettle'
      rw [hsettle] at hr
      cases hr
  | some r =>
    obtain ⟨r', hr', hmatches⟩ := settleTypes_matches hst hsettle
    rw [hr']
    cases hmatches with
    | error => exact .error
    | @ok _ _ st₁ st₁' _ hst₁ =>
      dsimp only
      rw [checkCalls_withoutCode, State.partials_eq hst₁, ← checkCalls_withoutCode,
        State.store_eq hst₁]
      cases checkCalls st₁'.store st₁'.partials with
      | error e => exact .error
      | ok _ => exact .ok trivial hst₁

/-! ## Lowered templates -/

/-- What is inferred for templates with the same tags is the same. -/
theorem lower_withoutCode {programs others : List (String × Program)}
    (h : SameSkeletons programs others) {P Q : Program} (hskeleton : skeleton P = skeleton Q) :
    (lower programs P).map Lowered.withoutCode = (lower others Q).map Lowered.withoutCode := by
  have hrun : Lockstep Free
      (EStateM.bind (lowerProgram programs 0 P) fun code =>
        EStateM.bind finish fun _ => (pure code : Lowering _))
      (EStateM.bind (lowerProgram others 0 Q) fun code =>
        EStateM.bind finish fun _ => (pure code : Lowering _)) :=
    (lowerProgram_lockstep h 0 hskeleton).bind fun _ _ _ =>
      finish_lockstep.bind fun _ _ _ => .pure trivial
  have hmatches := hrun State.initial State.initial rfl
  rw [lower_eq, lower_eq]
  generalize EStateM.bind _ _ State.initial = r at hmatches ⊢
  generalize EStateM.bind _ _ State.initial = r' at hmatches ⊢
  cases hmatches with
  | error => rfl
  | ok _ hst =>
    simp only [Except.map, Lowered.withoutCode, State.partials_eq hst, State.store_eq hst]

/-- What cannot be read is not shared. -/
theorem factor_fails {read : String → Except Error Program} {sources : List (String × String)}
    {template : String} {minLength : Nat} {e : Error}
    (h : Factor.factor read sources minLength template = .error e) (minLength' : Nat) :
    Factor.factor read sources minLength' template = .error e := by
  unfold Factor.factor at h ⊢
  cases hread : Factor.readAll read sources template {} with
  | error e' L =>
    rw [hread] at h
    exact h
  | ok program L =>
    rw [hread] at h
    cases h

/-- What is inferred for a template and the partials that it reaches. -/
def inferred (parse : String → Except Error Program) (condense : Bool)
    (sources : List (String × String)) (template : String) (minLength : Nat) :
    Except Error Lowered :=
  (Factor.factor (readWith parse condense) sources minLength template >>= fun shared =>
    lower shared.partials shared.program).map Lowered.withoutCode

theorem inferred_eq {parse : String → Except Error Program}
    (hparse : ∀ source program, parse source = .ok program → Factor.ConstantFree program)
    (condense : Bool) (sources : List (String × String)) (template : String)
    (minLength minLength' : Nat) :
    inferred parse condense sources template minLength =
      inferred parse condense sources template minLength' := by
  have hfree : ∀ source program, readWith parse condense source = .ok program →
      Factor.ConstantFree program := fun source program h => hparse _ program h
  unfold inferred
  rcases Factor.factor_cases sources hfree minLength template with
    ⟨e, hfails, _⟩ | ⟨shared, program, hfactor, hread, _, hfaithful⟩
  · rw [hfails, factor_fails hfails minLength']
  · rcases Factor.factor_cases sources hfree minLength' template with
      ⟨e, hfails, _⟩ | ⟨other, program', hfactor', hread', _, hfaithful'⟩
    · rw [hfails, factor_fails hfails minLength]
    · cases hread.symm.trans hread'
      obtain ⟨hskeleton, hpartials⟩ := hfaithful.skeletons hfaithful'
      rw [hfactor, hfactor']
      exact lower_withoutCode hpartials hskeleton

/-- How text is shared cannot be seen in what is inferred, for any way of reading sources that does
not give constants: for every length from which on text is shared, a template fails with the same
error, or it gives the same types and the same partials in the same order, with the same inputs,
groups and calls. The second time, sources may be read in a way that reports other faults: what has
been said holds all the same, unless reading is what fails. -/
theorem sharing_invisible (parse : String → Except Error Program)
    (hparse : ∀ source program, parse source = .ok program → Factor.ConstantFree program)
    (condense : Bool) (sources : List (String × String)) (template : String)
    (minLength minLength' : Nat) :
    inferred parse condense sources template minLength =
        inferred parse condense sources template minLength' ∧
      ∀ parse', (∀ source, (parse source).toOption = (parse' source).toOption) →
        inferred parse condense sources template minLength =
            inferred parse' condense sources template minLength' ∨
          ∃ fault fault',
            Factor.factor (readWith parse condense) sources minLength template = .error fault ∧
            Factor.factor (readWith parse' condense) sources minLength' template =
              .error fault' := by
  refine ⟨inferred_eq hparse condense sources template minLength minLength', ?_⟩
  intro parse' hagree
  have hparse' : ∀ source program, parse' source = .ok program →
      Factor.ConstantFree program := by
    intro source program h
    refine hparse source program (toOption_eq_some.1 ?_)
    rw [hagree, h]
    rfl
  have hfactor : (Factor.factor (readWith parse condense) sources minLength template).toOption =
      (Factor.factor (readWith parse' condense) sources minLength template).toOption :=
    Factor.factor_congr (fun _ => hagree _) sources minLength template
  cases h : Factor.factor (readWith parse' condense) sources minLength template with
  | error fault' =>
    rw [h] at hfactor
    cases h' : Factor.factor (readWith parse condense) sources minLength template with
    | error fault => exact .inr ⟨fault, fault', rfl, factor_fails h minLength'⟩
    | ok shared =>
      rw [h'] at hfactor
      cases hfactor
  | ok shared =>
    -- both read the same, so that only the lengths are left to compare
    rw [h] at hfactor
    left
    rw [← inferred_eq hparse' condense sources template minLength, inferred, inferred, h,
      toOption_eq_some.1 hfactor]

/-- Whether a shared template can be lowered, with rounds that end at once. -/
def lowersAtOnce (shared : Factor.SharedTemplate) : Bool :=
  endsWith (lowerProgram shared.partials 0 shared.program State.initial) fun st =>
    settlesWith 1 st fun _ => true

/-- Templates are read, but all that is said of one that cannot be read is that it is empty. -/
def mutedParse (source : String) : Except Error Program :=
  (Template.parse source).mapError fun _ => .emptyTemplate

theorem toOption_mutedParse (source : String) :
    (Template.parse source).toOption = (mutedParse source).toOption := by
  unfold mutedParse
  cases Template.parse source <;> rfl

/-- A text that a template and its partial share, or do not share if only longer ones are. -/
theorem sharing_invisible_greeting : ∃ shared other l l',
    Factor.factor (readWith Template.parse true) [("p", "hello {{name}}")] 3
      "{{#a}}hello\n {{> p}}{{else}}{{> p}}{{/a}}" = .ok shared ∧
    Factor.factor (readWith Template.parse true) [("p", "hello {{name}}")] 50
      "{{#a}}hello\n {{> p}}{{else}}{{> p}}{{/a}}" = .ok other ∧
    shared.constants = [("__constant0", "hello ")] ∧ other.constants = [] ∧
    lower shared.partials shared.program = .ok l ∧ lower other.partials other.program = .ok l' ∧
    l.withoutCode = l'.withoutCode ∧
    inferred mutedParse true [("p", "hello {{name}}")]
      "{{#a}}hello\n {{> p}}{{else}}{{> p}}{{/a}}" 50 = .ok l.withoutCode := by
  obtain ⟨hsame, hmuted⟩ := sharing_invisible Template.parse
    (fun _ _ => Factor.parseWith_constantFree) true [("p", "hello {{name}}")]
    "{{#a}}hello\n {{> p}}{{else}}{{> p}}{{/a}}" 3 50
  replace hmuted := hmuted mutedParse toOption_mutedParse
  have hshared : (Factor.factor (readWith Template.parse true) [("p", "hello {{name}}")] 3
      "{{#a}}hello\n {{> p}}{{else}}{{> p}}{{/a}}").toOption.any (fun shared =>
        shared.constants == [("__constant0", "hello ")] && lowersAtOnce shared) = true := by
    decide +kernel
  have hother : (Factor.factor (readWith Template.parse true) [("p", "hello {{name}}")] 50
      "{{#a}}hello\n {{> p}}{{else}}{{> p}}{{/a}}").toOption.any
        (fun other => other.constants == []) = true := by
    decide +kernel
  generalize inferred mutedParse _ _ _ 50 = muted at hmuted ⊢
  unfold inferred at hsame hmuted
  generalize Factor.factor (readWith Template.parse true) _ 3 _ = first at hsame hmuted hshared ⊢
  generalize Factor.factor (readWith Template.parse true) _ 50 _ = second at hsame hother ⊢
  cases first with
  | error e => cases hshared
  | ok shared =>
    cases second with
    | error e => cases hother
    | ok other =>
      simp only [Except.toOption, Option.any_some, Bool.and_eq_true, beq_iff_eq] at hshared hother
      obtain ⟨l, _, hlower, _⟩ := exists_lower_of_endsWith hshared.2
      change (lower shared.partials shared.program).map Lowered.withoutCode =
        (lower other.partials other.program).map Lowered.withoutCode at hsame
      rw [hlower] at hsame
      have hread : muted = .ok l.withoutCode := by
        obtain hmuted | ⟨_, _, hfails, _⟩ := hmuted
        · rw [← hmuted]
          change (lower shared.partials shared.program).map Lowered.withoutCode = _
          rw [hlower]
          rfl
        · cases hfails
      cases hlower' : lower other.partials other.program with
      | error e =>
        rw [hlower'] at hsame
        cases hsame
      | ok l' =>
        rw [hlower'] at hsame
        exact ⟨shared, other, l, l', rfl, rfl, hshared.1, hother, hlower, hlower',
          Except.ok.inj hsame, hread⟩

end Lower
end Stencil
