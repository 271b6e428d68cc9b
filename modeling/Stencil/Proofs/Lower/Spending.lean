import Stencil.Proofs.Lower.LoopVariables

/-!
# Names for loop indices

Every loop takes a name for its index. A search for a free name goes on for ever if all names that
it meets are taken, which needs more than `2 ^ 64` of them. This file defines:

* `Ends`, `InferenceEnds` : a computation without loops that never fails for going on for ever;
* `blocks`                : the number of blocks of a program;
* `Spends`                : a computation that takes at most a given number of names.

Lowering a program takes at most one name for each of its blocks (`lowerBody_spends`), so that names
run out only where a program has more than `2 ^ 64` blocks (`exists_blocks_of_endless`).
-/

namespace Stencil
namespace Lower

open Code (Stmt closeAppends)
open Template (Expr Hash PathExpr Program Statement)
open Text (bound64)
open Stencil.Types (Inference NodeId resolveNode)

/-! ## Computations that take no names -/

/-- A computation does not fail for ever going on. -/
def Ends {α : Type} (x : Except Error α) : Prop := x ≠ .error .endless

namespace Ends

variable {α β : Type}

theorem ok (a : α) : Ends (.ok a) := by
  intro h
  cases h

theorem error {e : Error} (h : e ≠ .endless) : Ends (.error e : Except Error α) := by
  intro heq
  cases heq
  exact h rfl

theorem bind {x : Except Error α} {f : α → Except Error β} (hx : Ends x) (hf : ∀ a, Ends (f a)) :
    Ends (x >>= f) := by
  cases x with
  | error e => exact error fun h => hx (congrArg _ h)
  | ok a => exact hf a

theorem map {x : Except Error α} (f : α → β) (hx : Ends x) : Ends (f <$> x) := by
  cases x with
  | error e => exact error fun h => hx (congrArg _ h)
  | ok a => exact ok (f a)

end Ends

section

variable (scope : Scope) (params : List Expr) (hash : Hash)

theorem expectKeys_ends (allowed : List String) (context : String) :
    Ends (expectKeys hash allowed context) := by
  unfold expectKeys
  split
  · exact .error (by simp)
  · exact .ok ()

theorem integerKeyword?_ends (key : String) : Ends (integerKeyword? hash key) := by
  unfold integerKeyword?
  split
  · refine .map _ ?_
    unfold integerArgument
    split
    · split
      · exact .ok _
      · exact .error (by simp)
    · exact .error (by simp)
  · exact .ok _

theorem pathArgument_ends (context : String) : Ends (pathArgument params context) := by
  unfold pathArgument
  split
  · exact .ok _
  all_goals exact .error (by simp)

theorem frameResolve_ends (f : Frame) (p : PathExpr) : Ends (f.resolve p) := by
  unfold Frame.resolve
  split
  · dsimp only
    split
    · exact .error (by simp)
    · split
      · exact .ok _
      · exact .error (by simp)
  · split
    · exact .ok _
    · exact .ok _

theorem resolve_ends (p : PathExpr) : Ends (scope.resolve p) := by
  unfold Scope.resolve
  split
  · exact frameResolve_ends _ p
  · split
    · exact frameResolve_ends _ _
    · exact .error (by simp)

theorem argument_ends (context : String) : Ends (pathArgument params context >>= scope.resolve) :=
  .bind (pathArgument_ends params context) (resolve_ends scope)

theorem headHelper?_ends (p : PathExpr) : Ends (headHelper? p) := by
  have hinteger : ∀ signed digits, Ends (integerHelper p.written signed digits) := by
    intro signed digits
    unfold integerHelper
    split
    · exact .ok _
    · dsimp only
      split
      · exact .error (by simp)
      · exact .ok _
  unfold headHelper?
  split
  · unfold Helper.ofName?
    split
    · exact .map _ (hinteger _ _)
    · exact .map _ (hinteger _ _)
    · refine .map _ ?_
      unfold bytesHelper
      dsimp only
      split
      · exact .error (by simp)
      · exact .ok _
    · exact .ok _
  · exact .ok _

theorem interpolationPlan_ends (head : Expr) : Ends (interpolationPlan scope head params hash) := by
  unfold interpolationPlan
  cases head with
  | path p =>
    refine .bind (headHelper?_ends p) fun helper => ?_
    cases helper with
    | some helper =>
      cases helper with
      | integer signed width =>
        exact .bind (expectKeys_ends hash _ _) fun _ => .bind (integerKeyword?_ends hash _)
          fun _ => .bind (argument_ends scope params _) fun _ => .ok _
      | bytes width =>
        exact .bind (expectKeys_ends hash _ _) fun _ => .bind (argument_ends scope params _)
          fun _ => .ok _
    | none =>
      dsimp only
      split
      · exact .error (by simp)
      · refine .bind (resolve_ends scope p) fun _ => ?_
        split
        · exact .ok _
        · exact .ok _
  | _ => exact .error (by simp)

theorem loopPlan_ends (hasInverse : Bool) : Ends (loopPlan scope params hash hasInverse) := by
  unfold loopPlan
  split
  · exact .error (by simp)
  · refine .bind (expectKeys_ends hash _ _) fun _ => .bind (integerKeyword?_ends hash _) fun _ =>
      .bind (argument_ends scope params _) fun _ => ?_
    split
    · exact .error (by simp)
    · exact .ok _

theorem conditionPlan_ends (head : PathExpr) : Ends (conditionPlan scope head params hash) := by
  have hpath : Ends (conditionPath head params) := by
    unfold conditionPath
    dsimp only
    split
    · exact .ok _
    · exact pathArgument_ends params _
  unfold conditionPlan
  refine .bind (expectKeys_ends hash _ _) fun _ => .bind (.bind hpath (resolve_ends scope))
    fun _ => ?_
  split
  · exact .error (by simp)
  · exact .ok _

theorem openWith_ends (hasInverse : Bool) : Ends (openWith scope params hash hasInverse) := by
  unfold openWith
  split
  · exact .error (by simp)
  · exact .bind (expectKeys_ends hash _ _) fun _ => .bind (argument_ends scope params _)
      fun _ => .ok _

theorem blockKind_ends (head : PathExpr) : Ends (blockKind head params) := by
  unfold blockKind
  split
  · exact .ok _
  · exact .ok _
  · exact .ok _
  · exact .ok _
  · split
    · exact .ok _
    · exact .error (by simp)

theorem inclusionPlan_ends (programs : List (String × Program)) (name : String) :
    Ends (inclusionPlan programs scope name params hash) := by
  have hgroup : Ends (groupArgument hash) := by
    unfold groupArgument
    split
    · exact .ok _
    · split
      · exact .ok _
      · exact .error (by simp)
    · exact .error (by simp)
  have hcontext : Ends (inclusionContext scope name params) := by
    unfold inclusionContext
    split
    · exact .ok _
    · exact argument_ends scope params _
  unfold inclusionPlan
  cases Name.isIdentifier name with
  | false => exact .error (by simp)
  | true =>
    cases programs.lookup name with
    | none => exact .error (by simp)
    | some program =>
      exact .bind (expectKeys_ends hash _ _) fun _ => .bind hgroup fun _ => .bind hcontext
        fun _ => .ok _

end

/-- An inference does not fail for ever going on. -/
def InferenceEnds {α : Type} (m : Inference α) : Prop := ∀ s s', m s ≠ .error .endless s'

namespace InferenceEnds

variable {α β : Type}

theorem pure (a : α) : InferenceEnds (Pure.pure a) := by
  intro s s' h
  cases h

theorem throw {e : Error} (he : e ≠ .endless) :
    InferenceEnds (MonadExcept.throw e : Inference α) := by
  intro s s' h
  cases h
  exact he rfl

theorem bind {m : Inference α} {f : α → Inference β} (hm : InferenceEnds m)
    (hf : ∀ a, InferenceEnds (f a)) : InferenceEnds (m >>= f) := by
  intro s s' h
  cases hrun : m s with
  | error e s₁ =>
    rw [Results.run_bind_error hrun] at h
    cases h
    exact hm s s' hrun
  | ok a s₁ =>
    rw [Results.run_bind_ok hrun] at h
    exact hf a s₁ s' h

theorem throw_bind {e : Error} (he : e ≠ .endless) (f : α → Inference β) :
    InferenceEnds (MonadExcept.throw e >>= f) := by
  intro s s' h
  cases h
  exact he rfl

theorem get {f : Types.Store → Inference α} (hf : ∀ s, InferenceEnds (f s)) :
    InferenceEnds (MonadState.get >>= f) := fun s s' h => hf s s s' h

theorem modify (f : Types.Store → Types.Store) :
    InferenceEnds (modify f : Inference PUnit) := by
  intro s s' h
  cases h

theorem modifyGet (f : Types.Store → α × Types.Store) :
    InferenceEnds (modifyGet f : Inference α) := by
  intro s s' h
  cases h

theorem forM {xs : List β} {f : β → Inference PUnit} (hf : ∀ x ∈ xs, InferenceEnds (f x)) :
    InferenceEnds (xs.forM f) := by
  induction xs with
  | nil => exact pure _
  | cons x xs ih =>
    change InferenceEnds (f x >>= fun _ => xs.forM f)
    exact bind (hf x List.mem_cons_self) fun _ => ih fun y hy => hf y (List.mem_cons_of_mem _ hy)

end InferenceEnds

theorem settleKind_ends (id : NodeId) (kind : Types.Kind) :
    InferenceEnds (Types.settleKind id kind) := by
  unfold Types.settleKind
  refine .get fun s => ?_
  split
  · exact .pure _
  · exact .bind (.modify _) fun _ => .pure _

theorem walk_ends {conflict : String → Types.Kind → Types.Kind → Error}
    (hconflict : ∀ label a b, conflict label a b ≠ .endless) (label : String) (id : NodeId)
    (accessors : List Accessor) : InferenceEnds (Types.walk conflict label id accessors) := by
  induction accessors generalizing label id with
  | nil => exact .pure _
  | cons a rest ih =>
    unfold Types.walk
    refine .bind (settleKind_ends id _) fun previous => ?_
    split
    · exact .throw_bind (hconflict _ _ _) _
    · exact .bind (.modifyGet _) fun next => ih _ next

theorem narrow_ends (root : NodeId) (path : AccessPath) (kind : Types.Kind) (length : Option Nat) :
    InferenceEnds (Types.narrow root path kind length) := by
  have hlength : ∀ id n, InferenceEnds (Types.raiseLength id kind n) := by
    intro id n
    unfold Types.raiseLength
    refine .get fun s => ?_
    split
    · exact .modify _
    · exact .throw (by simp)
  unfold Types.narrow
  split
  · exact .pure _
  · refine .bind (walk_ends (by simp) _ root _) fun id => .bind (settleKind_ends id kind)
      fun previous => ?_
    cases previous != kind with
    | true => exact .throw_bind (by simp) _
    | false =>
      cases length with
      | none => exact .pure _
      | some n =>
        cases n with
        | zero => exact .pure _
        | succ n => exact hlength id (n + 1)

theorem resolveNode_ends (root : NodeId) (path : AccessPath) :
    InferenceEnds (resolveNode root path) := by
  unfold resolveNode
  split
  · exact .throw (by simp)
  · exact walk_ends (by simp) _ root _

theorem unify_ends (target source : NodeId) (path : String) :
    InferenceEnds (Types.unify target source path) := by
  have hdepth : ∀ (depth : Nat) (target source : NodeId) (path : String),
      InferenceEnds (Types.unifyUpTo depth target source path) := by
    intro depth
    induction depth with
    | zero => exact fun _ _ _ => .pure _
    | succ depth ih =>
      intro target source path
      unfold Types.unifyUpTo
      refine .get fun s => ?_
      dsimp only
      cases (s.get source).kind? with
      | none => exact .pure _
      | some kind =>
        refine .bind (settleKind_ends target kind) fun previous => ?_
        cases previous != kind with
        | true => exact .throw_bind (by simp) _
        | false =>
          refine .bind ?_ fun _ => ?_
          · unfold Types.raiseLengthIfAny
            split
            · exact .pure _
            · exact .modify _
          · cases s.get source with
            | array length element => exact .bind (.modifyGet _) fun child => ih child element _
            | struct members =>
              exact .forM fun member _ => .bind (.modifyGet _) fun child => ih child member.2 _
            | _ => exact .pure _
  unfold Types.unify
  refine .get fun s => ?_
  split
  · exact .pure _
  · split
    · exact .throw (by simp)
    · exact hdepth _ _ _ _

/-! ## Counting names -/

mutual

def statementBlocks : Statement → Nat
  | .block _ _ _ _ body none _ => blocks body + 1
  | .block _ _ _ _ body (some otherwise) _ => blocks body + blocks otherwise + 1
  | .content _ _ | .comment _ _ | .constant _ _ => 0
  | .interpolation _ _ _ _ _ | .inclusion _ _ _ _ => 0

/-- The number of blocks of a program, at all depths. -/
def blocks : Program → Nat
  | [] => 0
  | s :: rest => statementBlocks s + blocks rest

end

/-- A computation takes at most `n` names for local variables. It does not go on for ever where so
many names are left. -/
def Spends {α : Type} (n : Nat) (m : Lowering α) : Prop :=
  ∀ st, st.locals.names.length + n ≤ bound64 + 1 →
    match m st with
    | .ok _ st' => st'.locals.names.length ≤ st.locals.names.length + n
    | .error e _ => e ≠ .endless

namespace Spends

variable {α β : Type} {m : Lowering α} {k n : Nat}

theorem pure (a : α) : Spends 0 (Pure.pure a : Lowering α) := fun _ _ => Nat.le_refl _

theorem throw {e : Error} (he : e ≠ .endless) : Spends 0 (MonadExcept.throw e : Lowering α) :=
  fun _ _ => he

theorem throw_bind {e : Error} (he : e ≠ .endless) (f : α → Lowering β) :
    Spends 0 (MonadExcept.throw e >>= f) := fun _ _ => he

theorem get {f : State → Lowering α} (hf : ∀ st, Spends n (f st)) :
    Spends n (MonadState.get >>= f) := fun st hst => hf st st hst

theorem mono (hm : Spends k m) (hle : k ≤ n) : Spends n m := by
  intro st hst
  have hspends := hm st (by omega)
  cases hrun : m st with
  | ok a st₁ =>
    rw [hrun] at hspends
    exact Nat.le_trans hspends (by omega)
  | error e st₁ =>
    rw [hrun] at hspends
    exact hspends

theorem bind {f : α → Lowering β} (hm : Spends k m) (hf : ∀ a, Spends n (f a)) :
    Spends (k + n) (m >>= f) := by
  intro st hst
  have hspends := hm st (by omega)
  cases hrun : m st with
  | error e st₁ =>
    rw [hrun] at hspends
    rw [Results.run_bind_error hrun]
    exact hspends
  | ok a st₁ =>
    rw [hrun] at hspends
    dsimp only at hspends
    rw [Results.run_bind_ok hrun]
    have hrest := hf a st₁ (by omega)
    cases hrun' : f a st₁ with
    | error e st₂ =>
      rw [hrun'] at hrest
      exact hrest
    | ok b st₂ =>
      rw [hrun'] at hrest
      dsimp only at hrest ⊢
      omega

/-- A computation that takes no names, and others after it. -/
theorem bind_right {f : α → Lowering β} (hm : Spends 0 m) (hf : ∀ a, Spends n (f a)) :
    Spends n (m >>= f) := by
  have hbind := hm.bind hf
  rwa [Nat.zero_add] at hbind

theorem bind_left {f : α → Lowering β} (hm : Spends k m) (hf : ∀ a, Spends 0 (f a)) :
    Spends k (m >>= f) :=
  hm.bind hf

theorem lift {x : Except Error α} (hx : Ends x) : Spends 0 (Lowering.lift x) := by
  cases x with
  | ok a => exact pure a
  | error e => exact throw fun h => hx (congrArg _ h)

theorem lift_bind {x : Except Error α} {f : α → Lowering β} (hx : Ends x)
    (hf : ∀ a, x = .ok a → Spends n (f a)) : Spends n (Lowering.lift x >>= f) := by
  cases x with
  | ok a => exact hf a rfl
  | error e => exact (throw_bind (fun h => hx (congrArg _ h)) f).mono (Nat.zero_le n)

theorem infer {m : Inference α} (hm : InferenceEnds m) : Spends 0 (Lowering.infer m) := by
  intro st _
  unfold Lowering.infer
  cases hrun : m st.store with
  | ok a store => exact Nat.le_refl _
  | error e store =>
    intro he
    exact hm st.store store (he ▸ hrun)

theorem allocate : Spends 1 (Lowering.allocate indexBase) := by
  intro st hst
  have hlength : st.locals.names.length ≤ bound64 := by omega
  obtain ⟨name, hname⟩ := Name.exists_fresh_counted countable_indexBase hlength
  have hallocate : st.locals.allocate indexBase = some (name, ⟨st.locals.names ++ [name]⟩) := by
    unfold Variables.allocate
    rw [show Name.freshName st.locals.names indexBase = some name from hname]
    rfl
  rw [allocate_eq, hallocate]
  simp

theorem inNewFunction (hm : Spends n m) (hn : n ≤ bound64) :
    Spends 0 (Lowering.inNewFunction m) := by
  intro st _
  rw [inNewFunction_eq]
  have hspends := hm { st with locals := {} } (by
    change 1 + n ≤ bound64 + 1
    omega)
  cases hrun : m { st with locals := {} } with
  | ok a st₁ => exact Nat.le_refl _
  | error e st₁ =>
    rw [hrun] at hspends
    exact hspends

end Spends

section

variable {include_ : Includer} (root : NodeId)

theorem interpolation_spends (scope : Scope) (head : Expr) (params : List Expr) (hash : Hash) :
    Spends 0 (interpolation root scope head params hash) := by
  rw [interpolation_eq]
  refine .bind_right (.lift (interpolationPlan_ends scope params hash head)) fun plan =>
    .bind_right ?_ fun _ => .pure _
  cases plan.2 with
  | none => exact .pure _
  | some d => exact .infer (narrow_ends _ _ _ _)

theorem openLoop_spends (scope : Scope) (params : List Expr) (hash : Hash) (binders : List String)
    (hasInverse : Bool) : Spends 1 (openLoop root scope params hash binders hasInverse) := by
  rw [openLoop_eq]
  exact .bind_right (.lift (loopPlan_ends scope params hash hasInverse)) fun d =>
    .bind_right (.infer (narrow_ends _ _ _ _)) fun _ => .bind_left .allocate fun _ => .pure _

theorem openCondition_spends (scope : Scope) (head : PathExpr) (params : List Expr) (hash : Hash) :
    Spends 0 (openCondition root scope head params hash) := by
  rw [openCondition_eq]
  exact .bind_right (.lift (conditionPlan_ends scope params hash head)) fun d =>
    .bind_right (.infer (narrow_ends _ _ _ _)) fun _ => .pure _

/-- Inclusions take no names. -/
def SpendsNothing (include_ : Includer) : Prop :=
  ∀ root scope name params hash, Spends 0 (include_ root scope name params hash)

mutual

theorem lowerStatement_spends (h : SpendsNothing include_) : (s : Statement) → (scope : Scope) →
    Spends (statementBlocks s) (lowerStatement include_ root scope s)
  | .content value span, scope => by
    rw [statementBlocks, lowerStatement]
    exact .pure _
  | .comment value span, scope => by
    rw [statementBlocks, lowerStatement]
    exact .pure _
  | .constant name span, scope => by
    rw [statementBlocks, lowerStatement]
    exact .pure _
  | .interpolation head params hash escaped span, scope => by
    rw [statementBlocks, lowerStatement]
    exact .bind_right (interpolation_spends root scope head params hash) fun _ => .pure _
  | .inclusion name params hash span, scope => by
    rw [statementBlocks, lowerStatement]
    exact .bind_right (h root scope name params hash) fun _ => .pure _
  | .block head params hash binders body inverse span, scope => by
    have hbody := lowerStatements_spends h body
    have hle : 1 + blocks body ≤
        statementBlocks (.block head params hash binders body inverse span) := by
      cases inverse with
      | none => exact Nat.le_of_eq (Nat.add_comm ..)
      | some otherwise =>
        rw [statementBlocks]
        omega
    unfold lowerStatement
    refine .bind_right (.lift (blockKind_ends params head)) fun kind => ?_
    cases kind with
    | each =>
      -- only a loop takes a name
      exact .mono (.bind (openLoop_spends root scope params hash binders _) fun loop =>
        .bind_left (hbody loop.scope) fun _ => .pure _) hle
    | dive =>
      exact .mono (.bind_right (.lift (openWith_ends scope params hash _)) fun inner =>
        .bind_left (hbody inner) fun _ => .pure _) (Nat.le_trans (Nat.le_add_left ..) hle)
    | conditional negated =>
      refine .bind_right (openCondition_spends root scope head params hash) fun path => ?_
      cases inverse with
      | none => exact .mono (.bind_left (hbody scope) fun _ => .pure _) (Nat.le_succ _)
      | some otherwise =>
        have hotherwise := lowerStatements_spends h otherwise
        exact .mono (.bind (hbody scope) fun _ =>
          .bind_left (hotherwise scope) fun _ => .pure _) (Nat.le_succ _)

theorem lowerStatements_spends (h : SpendsNothing include_) : (P : Program) → (scope : Scope) →
    Spends (blocks P) (lowerStatements include_ root scope P)
  | [], scope => by
    rw [blocks, lowerStatements]
    exact .pure _
  | s :: rest, scope => by
    rw [blocks, lowerStatements]
    exact .bind (lowerStatement_spends h s scope) fun _ =>
      .bind_left (lowerStatements_spends h rest scope) fun _ => .pure _

end

theorem lowerBody_spends (h : SpendsNothing include_) (P : Program) :
    Spends (blocks P) (lowerBody include_ root P) :=
  .bind_left (lowerStatements_spends root h P {}) fun _ => .pure _

theorem callAgain_spends (known : LoweredPartial) (group : Option String) (context : AccessPath) :
    Spends 0 (callAgain known root group context) := by
  unfold callAgain
  split
  · exact .throw_bind (by simp) _
  · refine .bind_right (.infer (resolveNode_ends root context)) fun node =>
      .bind_right (.infer (unify_ends _ _ _)) fun _ => ?_
    exact fun _ _ => Nat.le_refl _

theorem callFirst_spends (h : SpendsNothing include_) (name : String) (group : Option String)
    (context : AccessPath) {P : Program} (hP : blocks P ≤ bound64) :
    Spends 0 (callFirst include_ root name group context P) := by
  refine .bind_right (.infer (resolveNode_ends root context)) fun node =>
    .bind_right (.inNewFunction (lowerBody_spends node h P) hP) fun code => ?_
  exact fun _ _ => Nat.le_refl _

theorem includePartial_spends {programs : List (String × Program)}
    (hprograms : ∀ e ∈ programs, blocks e.2 ≤ bound64) (level : Nat) (opened : List String) :
    SpendsNothing (includePartial programs level opened) := by
  induction level, opened using level_induction with
  | step level opened hbelow =>
    intro root scope name params hash
    rw [includePartial_eq]
    refine .lift_bind (inclusionPlan_ends scope params hash programs name) fun i hplan =>
      .bind_right ?_ fun _ => .pure _
    have hP := hprograms _ (Lookup.mem_of_lookup (inclusionPlan_eq_ok.1 hplan).2.1)
    unfold Inclusion.call
    refine .get fun st => ?_
    cases st.partials.find? (·.name == name) with
    | some known => exact callAgain_spends root known i.group i.context
    | none =>
      cases opened.contains name with
      | true => exact .throw_bind (by simp) _
      | false =>
        cases level with
        | zero => exact .throw (by simp)
        | succ below =>
          exact callFirst_spends root (hbelow below name rfl) name i.group i.context hP

end

/-- Names for local variables run out in a program with many blocks only. -/
theorem exists_blocks_of_endless {programs : List (String × Program)} {program : Program}
    {level : Nat} {opened : List String} {root : NodeId} {st st' : State}
    (hlocals : st.locals = {})
    (h : lowerBody (includePartial programs level opened) root program st = .error .endless st') :
    ∃ P, (P = program ∨ P ∈ programs.map (·.2)) ∧ bound64 < blocks P := by
  -- with few blocks in every program no function can use up the names
  by_contra hfew
  have hblocks : ∀ P, P = program ∨ P ∈ programs.map (·.2) → blocks P ≤ bound64 := by
    intro P hP
    exact Nat.le_of_not_lt fun hmany => hfew ⟨P, hP, hmany⟩
  have hprograms : ∀ e ∈ programs, blocks e.2 ≤ bound64 :=
    fun e he => hblocks e.2 (.inr (List.mem_map_of_mem he))
  have hprogram := hblocks program (.inl rfl)
  have hlength : st.locals.names.length + blocks program ≤ bound64 + 1 := by
    rw [hlocals]
    change 1 + blocks program ≤ bound64 + 1
    omega
  have hspends := lowerBody_spends root (includePartial_spends hprograms level opened) program st
    hlength
  rw [h] at hspends
  exact hspends rfl

end Lower
end Stencil
