import Stencil.Proofs.Types.Growth
import Stencil.Types.Unify

/-!
# What inference does to a store

Narrowing and unification are made of single changes, so whatever they do, and also where they
fail, the store remains a forest and only grows. What they give back is stated about the store that
they leave.

* `Advances`             : the outcome of a computation on a store, as a judgement;
* `walk_advances`, `narrow_advances`, `resolveNode_advances` : the node at the end of a path.
-/

namespace Stencil
namespace Types

variable {α β γ : Type}

/-! ## The judgement -/

/-- The outcome of a computation that started on `s`: a forest that has grown from `s`, also where
the computation failed; a result fulfils `post`. -/
def Advances (s : Store) (post : α → Store → Prop) : EStateM.Result Error Store α → Prop
  | .ok a s' => s'.Forest ∧ s.Grows s' ∧ post a s'
  | .error _ s' => s'.Forest ∧ s.Grows s'

namespace Advances

variable {s : Store}

theorem pure {post : α → Store → Prop} (hs : s.Forest) {a : α} (h : post a s) :
    Advances s post (.ok a s) :=
  ⟨hs, .refl s, h⟩

theorem throw {post : α → Store → Prop} (hs : s.Forest) (e : Error) :
    Advances s post (.error e s) :=
  ⟨hs, .refl s⟩

theorem expands {post : α → Store → Prop} {s' : Store} {id : NodeId} (h : s.Expands s' id)
    (hs : s.Forest) (hid : id < s.size) {a : α} (hpost : post a s') :
    Advances s post (.ok a s') :=
  ⟨h.forest hs hid, h.grows, hpost⟩

theorem of_grows {post : α → Store → Prop} {s' : Store} {r : EStateM.Result Error Store α}
    (hs : s.Grows s') (h : Advances s' post r) : Advances s post r := by
  cases r with
  | ok a s'' => exact ⟨h.1, hs.trans h.2.1, h.2.2⟩
  | error e s'' => exact ⟨h.1, hs.trans h.2⟩

theorem mono {post post' : α → Store → Prop} {r : EStateM.Result Error Store α}
    (h : Advances s post r) (himp : ∀ a s', s'.Forest → s.Grows s' → post a s' → post' a s') :
    Advances s post' r := by
  cases r with
  | ok a s' => exact ⟨h.1, h.2.1, himp a s' h.1 h.2.1 h.2.2⟩
  | error e s' => exact h

theorem bind {m : Inference α} {f : α → Inference β} {mid : α → Store → Prop}
    {post : β → Store → Prop} (hm : Advances s mid (m s))
    (hf : ∀ a s', s'.Forest → s.Grows s' → mid a s' → Advances s' post (f a s')) :
    Advances s post ((m >>= f) s) := by
  change Advances s post (EStateM.bind m f s)
  unfold EStateM.bind
  cases hr : m s with
  | ok a s' =>
    rw [hr] at hm
    exact of_grows hm.2.1 (hf a s' hm.1 hm.2.1 hm.2.2)
  | error e s' =>
    rw [hr] at hm
    exact hm

/-- A loop whose passes each establish something that growth keeps. -/
theorem forM {xs : List γ} {f : γ → Inference Unit} {post : γ → Store → Prop} (hs : s.Forest)
    (hstable : ∀ x s' s'', Store.Grows s' s'' → post x s' → post x s'')
    (h : ∀ x ∈ xs, ∀ s', s'.Forest → s.Grows s' → Advances s' (fun _ => post x) (f x s')) :
    Advances s (fun _ s' => ∀ x ∈ xs, post x s') (xs.forM f s) := by
  induction xs generalizing s with
  | nil => exact pure hs (by simp)
  | cons x xs ih =>
    change Advances s _ ((f x >>= fun _ => xs.forM f) s)
    refine bind (h x List.mem_cons_self s hs (.refl s)) ?_
    intro _ s' hs' hgrows hx
    have hrest := ih hs' fun y hy s'' hs'' hgrows' =>
      h y (List.mem_cons_of_mem _ hy) s'' hs'' (hgrows.trans hgrows')
    -- what the first pass has established must outlive the others
    refine hrest.mono ?_
    intro _ s'' _ hgrows' hall y hy
    rcases List.mem_cons.1 hy with rfl | hy
    · exact hstable _ _ _ hgrows' hx
    · exact hall y hy

end Advances

/-! ## Single nodes -/

namespace Store

/-- An unknown node becomes one of the given kind; any other stays. -/
def settle (s : Store) (id : NodeId) (kind : Kind) : Store :=
  match (s.get id).kind? with
  | some _ => s
  | none => s.widen id kind

/-- A node that can have a length gets at least the given one. -/
def raise (s : Store) (id : NodeId) (length : Option Nat) : Store :=
  match length with
  | none => s
  | some n =>
    match (s.get id).raiseLength? n with
    | some node => s.set id node
    | none => s

variable {s : Store} {id : Nat}

theorem get_eq_unknown (h : (s.get id).kind? = none) : s.get id = .unknown := by
  cases hn : s.get id with
  | unknown => rfl
  | _ => simp [hn, Node.kind?] at h

theorem expands_settle (hs : s.Forest) (hid : id < s.size) (kind : Kind) :
    s.Expands (s.settle id kind) id := by
  unfold settle
  split
  · exact .refl hs id
  · next h => exact expands_widen hid (get_eq_unknown h) kind

theorem kind?_settle (hid : id < s.size) (kind : Kind) :
    ((s.settle id kind).get id).kind? = some ((s.get id).kind?.getD kind) := by
  unfold settle
  cases h : (s.get id).kind? with
  | some k => simpa using h
  | none =>
    have hlabel := congrArg Label.kind (label_widen (s := s) hid kind)
    simpa [Node.label] using hlabel

theorem expands_raiseLength (hs : s.Forest) (hid : id < s.size) (length : Option Nat) :
    s.Expands (s.raise id length) id := by
  unfold raise
  split
  · exact .refl hs id
  · split
    · next h => exact expands_raise hs hid h
    · exact .refl hs id

/-- Two nodes of one kind can have lengths or cannot. -/
theorem exists_raiseLength? {n known : Node} {l k : Nat} (hkind : n.kind? = known.kind?)
    (hl : known.length? = some l) : ∃ node, n.raiseLength? k = some node := by
  cases known with
  | string a =>
    cases n with
    | string b => exact ⟨_, rfl⟩
    | _ => cases hkind
  | uint a =>
    cases n with
    | uint b => exact ⟨_, rfl⟩
    | _ => cases hkind
  | int a =>
    cases n with
    | int b => exact ⟨_, rfl⟩
    | _ => cases hkind
  | array a e =>
    cases n with
    | array b f => exact ⟨_, rfl⟩
    | _ => cases hkind
  | _ => cases hl

theorem le_raise (k : Nat) (a : Option Nat) : k ≤ Node.raiseLength?.raise k a := by
  cases a with
  | none => exact Nat.le_refl k
  | some m => exact Nat.le_max_right m k

/-- A node of the kind of another one, with its length raised to that of the other, has all that is
known about the other itself. -/
theorem label_le_raise (hid : id < s.size) {known : Node} (hkind : (s.get id).kind? = known.kind?) :
    known.label.Le ((s.raise id known.length?).get id).label := by
  cases hl : known.length? with
  | none =>
    refine ⟨?_, ?_⟩
    · intro k hk
      exact hkind.trans hk
    · change LengthLe known.length? _
      rw [hl]
      exact LengthLe.none_left _
  | some l =>
    rcases exists_raiseLength? (k := l) hkind hl with ⟨node, hnode⟩
    have hget : (s.raise id (some l)).get id = node := by
      simp only [raise, hnode]
      exact get_set_self hid
    rcases raiseLength?_spec hnode with ⟨_, hk, hlen, _⟩
    rw [hget]
    refine ⟨?_, ?_⟩
    · intro k hknown
      exact hk.trans (hkind.trans hknown)
    · intro m hm
      have hml : m = l := by
        have hm' : known.length? = some m := hm
        rw [hl] at hm'
        cases hm'
        rfl
      refine ⟨_, hlen, ?_⟩
      rw [hml]
      exact le_raise l _

end Store

/-! ## Following and narrowing paths -/

section Narrowing

variable {s : Store} {id : Nat}

theorem settleKind_eq (s : Store) (id : NodeId) (kind : Kind) :
    settleKind id kind s = .ok ((s.get id).kind?.getD kind) (s.settle id kind) := by
  change (match (s.get id).kind? with
    | some previous => (Pure.pure previous : Inference Kind)
    | none => do
      modify fun s : Store => s.widen id kind
      return kind) s = _
  unfold Store.settle
  cases (s.get id).kind? with
  | some k => rfl
  | none => rfl

theorem settleKind_advances (hs : s.Forest) (hid : id < s.size) (kind : Kind) :
    Advances s (fun k s' => (s'.get id).kind? = some k) (settleKind id kind s) := by
  rw [settleKind_eq]
  exact .expands (Store.expands_settle hs hid kind) hs hid (Store.kind?_settle hid kind)

theorem step_advances (hs : s.Forest) (hid : id < s.size) {a : Accessor}
    (hk : (s.get id).kind? = some (containerKind a)) :
    Advances s (fun c s' => (s'.get id).child? a.step = some c)
      ((modifyGet (·.step id a) : Inference NodeId) s) := by
  change Advances s _ (.ok (s.step id a).1 (s.step id a).2)
  exact .expands (Store.expands_step hs hid a) hs hid (Store.child?_step hid hk)

/-- Where a walk ends, the path leads. -/
theorem walk_advances (conflict : String → Kind → Kind → Error) (label : String) (hs : s.Forest)
    (hid : id < s.size) (path : List Accessor) :
    Advances s (fun j s' => s'.follow id (path.map Accessor.step) = some j)
      (walk conflict label id path s) := by
  induction path generalizing s id label with
  | nil => exact .pure hs rfl
  | cons a rest ih =>
    unfold walk
    refine .bind (settleKind_advances hs hid (containerKind a)) ?_
    intro previous s₁ hs₁ hgrows₁ hkind
    have hid₁ := Nat.lt_of_lt_of_le hid hgrows₁.size_le
    -- the node is now known; if it cannot be entered this way, the walk stops here
    by_cases hne : previous = containerKind a
    · subst hne
      simp only [bne_self_eq_false, Bool.false_eq_true, if_false]
      refine .bind (step_advances hs₁ hid₁ hkind) ?_
      intro next s₂ hs₂ _ hchild
      refine (ih a.label hs₂ (hs₂.child_lt hchild)).mono ?_
      intro j s₃ _ hgrows₃ hj
      rw [List.map_cons]
      exact Store.follow_cons.2 ⟨next, hgrows₃.child hchild, hj⟩
    · have hbne : (previous != containerKind a) = true := by
        simp [hne]
      simp only [hbne, if_true]
      exact .throw hs₁ _

/-- The node at the end of a narrowed path is of the kind and has the length asked for. -/
theorem narrow_advances {root : Nat} (hs : s.Forest) (hroot : root < s.size) (path : AccessPath)
    (kind : Kind) (length : Option Nat) :
    Advances s
      (fun _ s' => path.origin = .input →
        ∃ j, s'.follow root (path.accessors.map Accessor.step) = some j ∧
          (s'.get j).kind? = some kind ∧
          ∀ n, length = some (n + 1) → ∃ m, (s'.get j).length? = some m ∧ n + 1 ≤ m)
      (narrow root path kind length s) := by
  cases horigin : path.origin with
  | «variable» name =>
    -- loop indices are numbers already: nothing is inferred about them
    simp only [narrow, horigin]
    exact .pure hs (by intro h; cases h)
  | input =>
    simp only [narrow, horigin]
    refine .bind (walk_advances _ _ hs hroot path.accessors) ?_
    intro j s₁ hs₁ hgrows₁ hj
    have hjlt := hs₁.follow_lt (Nat.lt_of_lt_of_le hroot hgrows₁.size_le) hj
    refine .bind (settleKind_advances hs₁ hjlt kind) ?_
    intro previous s₂ hs₂ hgrows₂ hkind
    have hjlt₂ : j < s₂.size := Nat.lt_of_lt_of_le hjlt hgrows₂.size_le
    have hj₂ := hgrows₂.follow hj
    by_cases hne : previous = kind
    · subst hne
      simp only [bne_self_eq_false, Bool.false_eq_true, if_false]
      -- a length of 0 is no length, so that there are two cases
      split
      · next n =>
        change Advances s₂ _ ((match (s₂.get j).raiseLength? (n + 1) with
          | some node => (modify fun s : Store => s.set j node : Inference Unit)
          | none => MonadExcept.throw (Error.lengthlessKind previous)) s₂)
        cases hraise : (s₂.get j).raiseLength? (n + 1) with
        | none => exact .throw hs₂ _
        | some node =>
          rcases Store.raiseLength?_spec hraise with ⟨_, hk, hlen, _⟩
          have hexp := Store.expands_raise hs₂ hjlt₂ hraise
          refine .expands hexp hs₂ hjlt₂ ?_
          intro _
          refine ⟨j, hexp.grows.follow hj₂, hexp.grows.kind? hkind, ?_⟩
          intro m hm
          cases hm
          rw [Store.get_set_self hjlt₂]
          exact ⟨_, hlen, Store.le_raise _ _⟩
      · next hnot =>
        refine .pure hs₂ ?_
        intro _
        refine ⟨j, hj₂, hkind, ?_⟩
        intro n hn
        exact absurd hn (hnot n)
    · have hbne : (previous != kind) = true := by
        simp [hne]
      simp only [hbne, if_true]
      exact .throw hs₂ _

/-- The context of a partial is the node that its path leads to. -/
theorem resolveNode_advances {root : Nat} (hs : s.Forest) (hroot : root < s.size)
    (path : AccessPath) :
    Advances s
      (fun j s' => path.origin = .input ∧
        s'.follow root (path.accessors.map Accessor.step) = some j)
      (resolveNode root path s) := by
  cases horigin : path.origin with
  | «variable» name =>
    simp only [resolveNode, horigin]
    exact .throw hs _
  | input =>
    simp only [resolveNode, horigin]
    refine (walk_advances _ _ hs hroot path.accessors).mono ?_
    intro j s' _ _ hj
    exact ⟨trivial, hj⟩

end Narrowing

end Types
end Stencil
