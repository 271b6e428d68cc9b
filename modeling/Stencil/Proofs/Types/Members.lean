import Stencil.Proofs.Types.Within

/-!
# Names of members

The members of the structs in a store are those that paths went through. This file defines:

* `Keeps`            : a computation that keeps an invariant of its state;
* `Store.MembersIn`  : all members have names of some kind.

Walking a path adds the members that the path names (`walk_keepsMembers`), and unification copies
members that are there (`unify_keepsMembers`).
-/

namespace Stencil

/-! ## Invariants -/

/-- A computation that leads from states with a property to such states, if it succeeds. -/
def Keeps {ε σ α : Type} (I : σ → Prop) (m : EStateM ε σ α) : Prop :=
  ∀ s a s', m s = .ok a s' → I s → I s'

namespace Keeps

variable {ε σ α β : Type} {I : σ → Prop}

theorem pure (a : α) : Keeps I (Pure.pure a : EStateM ε σ α) := by
  intro s b s' h hs
  cases h
  exact hs

theorem throw (e : ε) : Keeps I (MonadExcept.throw e : EStateM ε σ α) := by
  intro s a s' h
  cases h

/-- What would come after a failure does not matter. -/
theorem throw_bind (e : ε) (f : α → EStateM ε σ β) :
    Keeps I ((MonadExcept.throw e : EStateM ε σ α) >>= f) := by
  intro s a s' h
  cases h

theorem bind {m : EStateM ε σ α} {f : α → EStateM ε σ β} (hm : Keeps I m)
    (hf : ∀ a, Keeps I (f a)) : Keeps I (m >>= f) := by
  intro s b s' h hs
  obtain ⟨a, s₁, hrun, h⟩ := Results.run_bind_eq_ok.1 h
  exact hf a s₁ b s' h (hm s a s₁ hrun hs)

theorem get_bind {f : σ → EStateM ε σ β} (hf : ∀ s, I s → Keeps I (f s)) :
    Keeps I (MonadState.get >>= f) :=
  fun s b s' h hs => hf s hs s b s' h hs

theorem modify {f : σ → σ} (hf : ∀ s, I s → I (f s)) :
    Keeps I (modify f : EStateM ε σ PUnit) := by
  intro s a s' h hs
  cases h
  exact hf s hs

theorem modifyGet {f : σ → α × σ} (hf : ∀ s, I s → I (f s).2) :
    Keeps I (modifyGet f : EStateM ε σ α) := by
  intro s a s' h hs
  cases h
  exact hf s hs

theorem forM {γ : Type} {xs : List γ} {f : γ → EStateM ε σ PUnit} (h : ∀ x ∈ xs, Keeps I (f x)) :
    Keeps I (xs.forM f) := by
  induction xs with
  | nil => exact .pure _
  | cons x xs ih =>
    obtain ⟨hx, hxs⟩ := List.forall_mem_cons.1 h
    exact .bind hx fun _ => ih hxs

end Keeps

namespace Types

/-! ## Members of nodes -/

/-- All members of a node have names of some kind. -/
def Node.MembersIn (names : String → Prop) : Node → Prop
  | .struct members => ∀ m ∈ members, names m.1
  | _ => True

instance (names : String → Prop) [DecidablePred names] (n : Node) :
    Decidable (n.MembersIn names) :=
  match n with
  | .struct members => inferInstanceAs (Decidable (∀ m ∈ members, names m.1))
  | .unknown | .string _ | .uint _ | .int _ | .bool | .array _ _ => .isTrue trivial

namespace Store

/-- All members of the structs in a store have names of some kind. -/
def MembersIn (names : String → Prop) (s : Store) : Prop :=
  ∀ id, (s.get id).MembersIn names

variable {names : String → Prop} {s : Store}

theorem MembersIn.set (h : s.MembersIn names) (id : NodeId) {node : Node}
    (hnode : node.MembersIn names) : (s.set id node).MembersIn names := by
  intro j
  by_cases hj : j = id
  · subst hj
    by_cases hsize : j < s.size
    · rw [get_set_self hsize]
      exact hnode
    · rw [get_of_size_le (by simpa using hsize)]
      exact trivial
  · rw [get_set_ne hj]
    exact h j

theorem MembersIn.alloc (h : s.MembersIn names) : (s.alloc .unknown).2.MembersIn names := by
  intro j
  rw [get_alloc_unknown]
  exact h j

theorem MembersIn.widen (h : s.MembersIn names) (id : NodeId) (kind : Kind) :
    (s.widen id kind).MembersIn names := by
  cases kind with
  | array => exact h.alloc.set id trivial
  | struct =>
    refine h.set id ?_
    intro m hm
    cases hm
  | string | uint | int | bool => exact h.set id trivial

/-- A step along a path adds the member that it names. -/
theorem MembersIn.step (h : s.MembersIn names) (id : NodeId) {a : Accessor}
    (ha : ∀ name, a = .member name → names name) : (s.step id a).2.MembersIn names := by
  unfold Store.step
  split
  · exact h
  · next members name hnode =>
    have hmembers := h id
    rw [hnode] at hmembers
    split
    · exact h
    · -- a new member, the only place where a name comes in
      refine h.alloc.set id ?_
      intro m hm
      obtain hm | hm := List.mem_append.1 hm
      · exact hmembers m hm
      · cases List.mem_singleton.1 hm
        exact ha name rfl
  · exact h

theorem MembersIn.settle (h : s.MembersIn names) (id : NodeId) (kind : Kind) :
    (s.settle id kind).MembersIn names := by
  unfold Store.settle
  split
  · exact h
  · exact h.widen id kind

theorem MembersIn.setLength (h : s.MembersIn names) (id : NodeId) {n : Nat} {node : Node}
    (hnode : (s.get id).raiseLength? n = some node) : (s.set id node).MembersIn names := by
  refine h.set id ?_
  cases hget : s.get id with
  | unknown | bool | struct => simp [hget, Node.raiseLength?] at hnode
  | string | uint | int | array =>
    rw [hget] at hnode
    cases hnode
    exact trivial

theorem MembersIn.raise (h : s.MembersIn names) (id : NodeId) (length : Option Nat) :
    (s.raise id length).MembersIn names := by
  unfold Store.raise
  split
  · exact h
  · split
    · next hnode => exact h.setLength id hnode
    · exact h

end Store

/-! ## Inference -/

section

variable {names : String → Prop}

theorem settleKind_keepsMembers (id : NodeId) (kind : Kind) :
    Keeps (Store.MembersIn names) (settleKind id kind) := by
  intro s k s' h hs
  rw [settleKind_eq] at h
  cases h
  exact hs.settle id kind

/-- Walking a path adds the members that it names. -/
theorem walk_keepsMembers (conflict : String → Kind → Kind → Error) (label : String) (id : NodeId)
    {accessors : List Accessor} (h : ∀ name, .member name ∈ accessors → names name) :
    Keeps (Store.MembersIn names) (walk conflict label id accessors) := by
  induction accessors generalizing label id with
  | nil => exact .pure id
  | cons a rest ih =>
    unfold walk
    refine .bind (settleKind_keepsMembers id (containerKind a)) fun previous => ?_
    split
    · exact .throw _
    · refine .bind (.modifyGet fun s hs => hs.step id ?_) fun next => ?_
      · rintro name rfl
        exact h name List.mem_cons_self
      · exact ih a.label next fun name hname => h name (List.mem_cons_of_mem _ hname)

theorem raiseLength_keepsMembers (id : NodeId) (kind : Kind) (n : Nat) :
    Keeps (Store.MembersIn names) (raiseLength id kind n) := by
  intro s a s' h hs
  rw [raiseLength_eq] at h
  split at h
  · next hnode =>
    cases h
    exact hs.setLength id hnode
  · cases h

theorem narrow_keepsMembers (root : NodeId) {path : AccessPath}
    (h : ∀ name, .member name ∈ path.accessors → names name) (kind : Kind) (length : Option Nat) :
    Keeps (Store.MembersIn names) (narrow root path kind length) := by
  unfold narrow
  split
  · exact .pure _
  · refine .bind (walk_keepsMembers _ _ root h) fun id => ?_
    refine .bind (settleKind_keepsMembers id kind) fun previous => ?_
    dsimp only
    split
    · exact .throw_bind _ _
    · split
      · exact raiseLength_keepsMembers id kind _
      · exact .pure _

theorem resolveNode_keepsMembers (root : NodeId) {path : AccessPath}
    (h : ∀ name, .member name ∈ path.accessors → names name) :
    Keeps (Store.MembersIn names) (resolveNode root path) := by
  unfold resolveNode
  split
  · exact .throw _
  · exact walk_keepsMembers _ _ root h

/-- Unification adds members that the source has. -/
theorem unifyInside_keepsMembers {depth : Nat}
    (below : ∀ target source path,
      Keeps (Store.MembersIn names) (unifyUpTo depth target source path))
    (target : NodeId) {known : Node} (hknown : known.MembersIn names) (path : String) :
    Keeps (Store.MembersIn names) (unifyInside depth target known path) := by
  unfold unifyInside
  split
  · refine .bind (.modifyGet fun s hs => hs.step target ?_) fun child => below child _ _
    rintro name ⟨⟩
  · refine .forM fun m hm => ?_
    refine .bind (.modifyGet fun s hs => hs.step target ?_) fun child => below child _ _
    rintro name ⟨⟩
    exact hknown m hm
  · exact .pure _

theorem unifyUpTo_keepsMembers (depth : Nat) (target source : NodeId) (path : String) :
    Keeps (Store.MembersIn names) (unifyUpTo depth target source path) := by
  induction depth generalizing target source path with
  | zero => exact .pure _
  | succ depth ih =>
    intro s a s' h hs
    rw [unifyUpTo_succ] at h
    split at h
    · cases h
      exact hs
    · next kind _ =>
      split at h
      · exact unifyInside_keepsMembers ih target (hs source) path _ a s' h
          ((hs.settle target kind).raise target _)
      · cases h

theorem unify_keepsMembers (target source : NodeId) (path : String) :
    Keeps (Store.MembersIn names) (unify target source path) := by
  unfold unify
  refine .get_bind fun s _ => ?_
  split
  · exact .pure _
  · split
    · exact .throw _
    · exact unifyUpTo_keepsMembers s.size target source path

end

end Types
end Stencil
