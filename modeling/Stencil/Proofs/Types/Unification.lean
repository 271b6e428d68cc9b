import Stencil.Proofs.Types.Inference

/-!
# Unification

Unification carries what is known about a source over to a target: afterwards the target has all
that was known about the source (`unifyUpTo_advances`), wherever the two lie in the store.
-/

namespace Stencil
namespace Types

/-! ## One level -/

namespace Store

/-- The target after the label of a known node has been carried over. -/
def absorb (s : Store) (target : NodeId) (known : Node) (kind : Kind) : Store :=
  (s.settle target kind).raise target known.length?

theorem absorb_advances {s : Store} {target : Nat} (hs : s.Forest) (ht : target < s.size)
    {known : Node} {kind : Kind} (hk : known.kind? = some kind)
    (hagree : (s.get target).kind?.getD kind = kind) :
    (s.absorb target known kind).Forest ∧ s.Grows (s.absorb target known kind) ∧
      known.label.Le ((s.absorb target known kind).get target).label := by
  have hexp₁ := expands_settle hs ht kind
  have hs₁ := hexp₁.forest hs ht
  have ht₁ : target < (s.settle target kind).size := Nat.lt_of_lt_of_le ht hexp₁.size_le
  have hexp₂ := expands_raiseLength hs₁ ht₁ known.length?
  refine ⟨hexp₂.forest hs₁ ht₁, hexp₁.grows.trans hexp₂.grows, ?_⟩
  refine label_le_raise ht₁ ?_
  rw [kind?_settle ht, hagree, hk]

end Store

/-- The nodes inside a source that unification goes on with, on the store after its label has been
carried over. -/
def unifyInside (depth : Nat) (target : NodeId) (known : Node) (path : String) : Inference Unit :=
  match known with
  | .array _ element => do
    let child ← modifyGet (·.step target (.index ""))
    unifyUpTo depth child element (path ++ "[]")
  | .struct members =>
    members.forM fun (name, member) => do
      let child ← modifyGet (·.step target (.member name))
      unifyUpTo depth child member (path ++ "." ++ name)
  | _ => return ()

theorem raiseLengthIfAny_eq (id : NodeId) (length : Option Nat) (s : Store) :
    raiseLengthIfAny id length s = .ok () (s.raise id length) := by
  cases length with
  | none => rfl
  | some n => rfl

theorem unifyUpTo_succ (depth : Nat) (target source : NodeId) (path : String) (s : Store) :
    unifyUpTo (depth + 1) target source path s =
      match (s.get source).kind? with
      | none => .ok () s
      | some kind =>
        if (s.get target).kind?.getD kind = kind then
          unifyInside depth target (s.get source) path (s.absorb target (s.get source) kind)
        else
          .error (.typeConflict path kind ((s.get target).kind?.getD kind))
            (s.settle target kind) := by
  rw [unifyUpTo]
  change (match (s.get source).kind? with
    | none => (pure () : Inference Unit)
    | some kind => _) s = _
  cases hk : (s.get source).kind? with
  | none => rfl
  | some kind =>
    simp only
    change (EStateM.bind (settleKind target kind) _ s) = _
    unfold EStateM.bind
    rw [settleKind_eq]
    simp only
    -- a target of unknown kind takes the kind of the source, so it agrees
    by_cases hagree : (s.get target).kind?.getD kind = kind
    · simp only [hagree, bne_self_eq_false, Bool.false_eq_true, if_false, if_true]
      change (EStateM.bind (raiseLengthIfAny target (s.get source).length?) _ _) = _
      unfold EStateM.bind
      rw [raiseLengthIfAny_eq]
      unfold unifyInside
      cases s.get source <;> rfl
    · have hbne : ((s.get target).kind?.getD kind != kind) = true := by
        simp [hagree]
      simp only [hbne, hagree, if_true, if_false]
      rfl

/-! ## The target has got all that was known -/

/-- `target` in `s'` has all that is known about `source` in `s`, up to paths of the given length. -/
def Covers (s s' : Store) (depth : Nat) (target source : NodeId) : Prop :=
  ∀ p j, p.length < depth → s.follow source p = some j →
    ∃ i, s'.follow target p = some i ∧ (s.get j).label.Le (s'.get i).label

theorem Covers.of_grows {s s₁ s₂ s' : Store} {depth : Nat} {target source : NodeId}
    (h : Covers s₁ s₂ depth target source) (hbefore : s.Grows s₁) (hafter : s₂.Grows s') :
    Covers s s' depth target source := by
  intro p j hp hj
  rcases h p j hp (hbefore.follow hj) with ⟨i, hi, hle⟩
  exact ⟨i, hafter.follow hi, (hbefore.label_le j).trans (hle.trans (hafter.label_le i))⟩

/-- The label of the source and all its children have been carried over. -/
theorem Covers.succ {s s' : Store} {depth : Nat} {target source : NodeId}
    (hlabel : (s.get source).label.Le (s'.get target).label)
    (hchild : ∀ σ c, (s.get source).child? σ = some c →
      ∃ d, (s'.get target).child? σ = some d ∧ Covers s s' depth d c) :
    Covers s s' (depth + 1) target source := by
  intro p j hp hj
  cases p with
  | nil =>
    cases hj
    exact ⟨target, rfl, hlabel⟩
  | cons σ p =>
    rcases Store.follow_cons.1 hj with ⟨c, hc, hcj⟩
    rcases hchild σ c hc with ⟨d, hd, hcovers⟩
    rcases hcovers p j (by simpa using hp) hcj with ⟨i, hi, hle⟩
    exact ⟨i, Store.follow_cons.2 ⟨d, hd, hi⟩, hle⟩

/-- Below a target that is of the kind of the source, all children of the source are carried over
if unification carries over what is below them. -/
theorem unifyInside_advances {depth : Nat} {s s₁ : Store} {target : Nat} {known : Node}
    (path : String) (hs₁ : s₁.Forest) (hgrows₁ : s.Grows s₁) (ht₁ : target < s₁.size)
    (hkind₁ : (s₁.get target).kind? = known.kind?)
    (below : ∀ {s : Store} {target : Nat} (source : NodeId) (path : String), s.Forest →
      target < s.size → Advances s (fun _ s' => Covers s s' depth target source)
        (unifyUpTo depth target source path s)) :
    Advances s₁
      (fun _ s' => ∀ σ c, known.child? σ = some c →
        ∃ d, (s'.get target).child? σ = some d ∧ Covers s s' depth d c)
      (unifyInside depth target known path s₁) := by
  cases known with
  | array length element =>
    unfold unifyInside
    refine .bind (step_advances hs₁ ht₁ hkind₁) ?_
    intro child s₂ hs₂ hgrows₂ hchild
    refine (below element _ hs₂ (hs₂.child_lt hchild)).mono ?_
    intro _ s₃ _ hgrows₃ hcovers σ c hc
    cases σ with
    | member name => cases hc
    | element =>
      cases hc
      exact ⟨child, hgrows₃.child hchild, hcovers.of_grows (hgrows₁.trans hgrows₂) (.refl _)⟩
  | struct members =>
    -- each member is carried over on the store that the members before it have left
    have hloop : Advances s₁
        (fun _ s' => ∀ m ∈ members, ∃ d, (s'.get target).child? (.member m.1) = some d ∧
          Covers s s' depth d m.2)
        (unifyInside depth target (.struct members) path s₁) := by
      refine Advances.forM hs₁ ?_ ?_
      · rintro m s' s'' hgrows ⟨d, hd, hcovers⟩
        exact ⟨d, hgrows.child hd, hcovers.of_grows (.refl _) hgrows⟩
      · intro m _ s₂ hs₂ hgrows₂
        have ht₂ : target < s₂.size := Nat.lt_of_lt_of_le ht₁ hgrows₂.size_le
        refine .bind (step_advances hs₂ ht₂ (hgrows₂.kind? hkind₁)) ?_
        intro child s₃ hs₃ hgrows₃ hchild
        refine (below m.2 _ hs₃ (hs₃.child_lt hchild)).mono ?_
        intro _ s₄ _ hgrows₄ hcovers
        exact ⟨child, hgrows₄.child hchild,
          hcovers.of_grows (hgrows₁.trans (hgrows₂.trans hgrows₃)) (.refl _)⟩
    refine hloop.mono ?_
    intro _ s₂ _ _ hall σ c hc
    cases σ with
    | element => cases hc
    | member name => exact hall (name, c) (Lookup.mem_of_lookup hc)
  | _ =>
    unfold unifyInside
    refine .pure hs₁ ?_
    intro σ c hc
    cases σ <;> cases hc

theorem unifyUpTo_advances (depth : Nat) {s : Store} {target : Nat} (source : NodeId)
    (path : String) (hs : s.Forest) (ht : target < s.size) :
    Advances s (fun _ s' => Covers s s' depth target source)
      (unifyUpTo depth target source path s) := by
  induction depth generalizing s target source path with
  | zero =>
    refine .pure hs ?_
    intro p j hp
    cases hp
  | succ depth ih =>
    rw [unifyUpTo_succ]
    cases hk : (s.get source).kind? with
    | none =>
      refine .pure hs (Covers.succ ?_ ?_)
      · rw [Store.get_eq_unknown hk]
        exact Label.unknown_le _
      · intro σ c hc
        rw [Store.get_eq_unknown hk] at hc
        simp at hc
    | some kind =>
      simp only
      split
      · next hagree =>
        -- the label comes first, so that the target can have children of this kind
        rcases Store.absorb_advances hs ht hk hagree with ⟨hs₁, hgrows₁, hlabel⟩
        have ht₁ := Nat.lt_of_lt_of_le ht hgrows₁.size_le
        have hkind₁ := (hlabel.1 kind hk).trans hk.symm
        refine .of_grows hgrows₁ ?_
        refine (unifyInside_advances path hs₁ hgrows₁ ht₁ hkind₁ ih).mono ?_
        intro _ s₂ _ hgrows₂ hchildren
        exact .succ (hlabel.trans (hgrows₂.label_le target)) hchildren
      · have hexp := Store.expands_settle hs ht kind
        exact ⟨hexp.forest hs ht, hexp.grows⟩

/-! ## Containment -/

namespace Store

variable {s : Store}

theorem mem_children_iff (hs : s.Forest) {id c : NodeId} :
    c ∈ (s.get id).children ↔ ∃ σ, (s.get id).child? σ = some c := by
  constructor
  · intro h
    cases hn : s.get id with
    | array length element =>
      rw [hn] at h
      simp only [Node.children, List.mem_singleton] at h
      exact ⟨.element, by rw [h]; rfl⟩
    | struct members =>
      rw [hn] at h
      obtain ⟨m, hm, rfl⟩ := List.mem_map.1 h
      exact ⟨.member m.1, Lookup.lookup_of_mem (hs.names_nodup hn) hm⟩
    | _ => simp [hn, Node.children] at h
  · rintro ⟨σ, hσ⟩
    exact Node.mem_children_of_child? hσ

theorem containsUpTo_iff (hs : s.Forest) {depth : Nat} {outer inner : NodeId} :
    s.containsUpTo depth outer inner = true ↔
      ∃ p, p.length ≤ depth ∧ s.follow outer p = some inner := by
  induction depth generalizing outer with
  | zero =>
    simp only [containsUpTo, beq_iff_eq]
    constructor
    · rintro rfl
      exact ⟨[], Nat.le_refl 0, rfl⟩
    · -- a path of no steps ends where it starts
      rintro ⟨p, hp, hj⟩
      have hnil := List.eq_nil_of_length_eq_zero (Nat.le_zero.1 hp)
      subst hnil
      cases hj
      rfl
  | succ depth ih =>
    simp only [containsUpTo, Bool.or_eq_true, beq_iff_eq, List.any_eq_true]
    constructor
    · rintro (rfl | ⟨c, hc, hinner⟩)
      · exact ⟨[], Nat.zero_le _, rfl⟩
      · rcases (mem_children_iff hs).1 hc with ⟨σ, hσ⟩
        rcases ih.1 hinner with ⟨p, hp, hj⟩
        exact ⟨σ :: p, Nat.succ_le_succ hp, follow_cons.2 ⟨c, hσ, hj⟩⟩
    · rintro ⟨p, hp, hj⟩
      cases p with
      | nil =>
        cases hj
        exact .inl rfl
      | cons σ p =>
        rcases follow_cons.1 hj with ⟨c, hc, hcj⟩
        exact .inr ⟨c, (mem_children_iff hs).2 ⟨σ, hc⟩, ih.2 ⟨p, Nat.le_of_succ_le_succ hp, hcj⟩⟩

/-- A node contains another one if a path leads there. -/
theorem contains_iff (hs : s.Forest) {outer inner : Nat} (hlt : outer < s.size) :
    s.contains outer inner = true ↔ ∃ p, s.follow outer p = some inner := by
  unfold contains
  rw [containsUpTo_iff hs]
  constructor
  · rintro ⟨p, _, hp⟩
    exact ⟨p, hp⟩
  · rintro ⟨p, hp⟩
    -- a path is no longer than the store is large, as numbers rise along it
    have hlen := hs.follow_length hp
    have hinner := hs.follow_lt hlt hp
    exact ⟨p, by omega, hp⟩

end Store

/-- `target` in `s'` has all that is known about `source` in `s`. -/
def CoversAll (s s' : Store) (target source : NodeId) : Prop :=
  ∀ p j, s.follow source p = some j →
    ∃ i, s'.follow target p = some i ∧ (s.get j).label.Le (s'.get i).label

theorem CoversAll.of_grows {s s₁ s₂ s' : Store} {target source : NodeId}
    (h : CoversAll s₁ s₂ target source) (hbefore : s.Grows s₁) (hafter : s₂.Grows s') :
    CoversAll s s' target source := by
  intro p j hj
  rcases h p j (hbefore.follow hj) with ⟨i, hi, hle⟩
  exact ⟨i, hafter.follow hi, (hbefore.label_le j).trans (hle.trans (hafter.label_le i))⟩

/-- Neither of two different nodes lies inside the other. -/
def Store.Separate (s : Store) (a b : NodeId) : Prop :=
  a ≠ b → s.contains a b = false ∧ s.contains b a = false

theorem Store.Separate.symm {s : Store} {a b : NodeId} (h : s.Separate a b) : s.Separate b a :=
  fun hne => (h hne.symm).symm

theorem unify_advances {s : Store} {target source : Nat} (path : String) (hs : s.Forest)
    (ht : target < s.size) (hsource : source < s.size) :
    Advances s (fun _ s' => CoversAll s s' target source ∧ s.Separate target source)
      (unify target source path s) := by
  change Advances s _ ((if target == source then (pure () : Inference Unit)
    else if s.contains target source || s.contains source target then
      throw (Error.unsupported (.nestedContext path))
    else unifyUpTo s.size target source path) s)
  split
  · next heq =>
    have htarget : target = source := by simpa using heq
    refine .pure hs ⟨?_, fun hne => absurd htarget hne⟩
    intro p j hj
    exact ⟨j, htarget ▸ hj, Label.Le.refl _⟩
  · split
    · exact .throw hs _
    · next hapart =>
      refine (unifyUpTo_advances s.size source path hs ht).mono ?_
      intro _ s' _ _ hcovers
      refine ⟨?_, fun _ => by simpa using hapart⟩
      intro p j hj
      -- no path is as long as the store is large, so the depth cuts nothing off
      have hlen := hs.follow_length hj
      have hjlt := hs.follow_lt hsource hj
      exact hcovers p j (by omega) hj

end Types
end Stencil
