import Stencil.Proofs.Results
import Stencil.Proofs.Types.Unification

/-!
# What unification leaves alone

Unification reads a source and changes a target in one store. All that it changes lies inside the
target. This file defines:

* `Store.GrowsInside` : growth of the store inside one node;
* `Steady`            : a property that no such growth can take away;
* `unifyLevel`        : one level of unification, with something else in place of the levels below.

Unification changes nothing outside its target whether or not it succeeds, and only fails for kinds
that conflict (`unifyUpTo_confines`). In a forest two nodes share a node inside only if one lies
inside the other (`Forest.inside_or_inside`), so a source apart from the target stays as it is
(`Apart.get_eq`, `Apart.follow_iff`).
-/

namespace Stencil
namespace Types

namespace Store

/-! ## Growth inside a node -/

/-- How a store may differ from an earlier one if only a node and the nodes inside it change. -/
structure GrowsInside (s s' : Store) (root : NodeId) : Prop where
  forest : s'.Forest
  grows : s.Grows s'
  changed : ∀ id, s'.get id ≠ s.get id → ∃ p, s'.follow root p = some id

namespace GrowsInside

variable {s s₁ s₂ : Store} {root id : Nat}

theorem refl (hs : s.Forest) (root : NodeId) : s.GrowsInside s root :=
  ⟨hs, .refl s, fun _ h => absurd rfl h⟩

theorem trans (h : s.GrowsInside s₁ root) (h' : s₁.GrowsInside s₂ root) :
    s.GrowsInside s₂ root := by
  refine ⟨h'.forest, h.grows.trans h'.grows, ?_⟩
  intro j hj
  by_cases hlater : s₂.get j = s₁.get j
  · rw [hlater] at hj
    obtain ⟨p, hp⟩ := h.changed j hj
    exact ⟨p, h'.grows.follow hp⟩
  · exact h'.changed j hlater

/-- What is inside a node is also inside the nodes around it. -/
theorem outward (h : s.GrowsInside s₁ id) {p : List Step} (hp : s.follow root p = some id) :
    s.GrowsInside s₁ root := by
  refine ⟨h.forest, h.grows, ?_⟩
  intro j hj
  obtain ⟨q, hq⟩ := h.changed j hj
  exact ⟨p ++ q, follow_append.2 ⟨id, h.grows.follow hp, hq⟩⟩

theorem of_expands (h : s.Expands s₁ id) (hs : s.Forest) (hid : id < s.size) :
    s.GrowsInside s₁ id := by
  refine ⟨h.forest hs hid, h.grows, ?_⟩
  intro j hj
  have hjid : j = id := by
    by_contra hne
    exact hj (h.other j hne)
  exact ⟨[], by rw [hjid]; rfl⟩

/-- New nodes are inside, as the nodes that they have become children of have changed. -/
theorem added (h : s.GrowsInside s₁ root) (hs : s.Forest) (hge : s.size ≤ id)
    (hlt : id < s₁.size) : ∃ p, s₁.follow root p = some id := by
  obtain ⟨parent, σ, hσ⟩ := h.grows.adopted id hge hlt
  have hchanged : s₁.get parent ≠ s.get parent := by
    intro heq
    rw [heq] at hσ
    exact absurd (hs.child_lt hσ) (Nat.not_lt_of_le hge)
  obtain ⟨p, hp⟩ := h.changed parent hchanged
  exact ⟨p ++ [σ], follow_concat.2 ⟨parent, hp, hσ⟩⟩

/-- Nodes that were outside are as they were. -/
theorem get_eq (h : s.GrowsInside s₁ root) (hid : id < s.size)
    (hout : ∀ p, s.follow root p ≠ some id) : s₁.get id = s.get id := by
  by_contra hne
  obtain ⟨p, hp⟩ := h.changed id hne
  exact hout p (h.grows.follow_old h.forest hp hid)

end GrowsInside

/-! ## Nodes apart from each other -/

/-- Of two nodes with a common node inside, one lies inside the other. -/
theorem Forest.inside_or_inside {s : Store} (hs : s.Forest) {a b c : NodeId} {p q : List Step}
    (hp : s.follow a p = some c) (hq : s.follow b q = some c) :
    (∃ r, s.follow a r = some b) ∨ ∃ r, s.follow b r = some a := by
  -- the last steps agree because `c` has one parent, until one of the paths is used up
  induction p using List.reverseRecOn generalizing q c with
  | nil =>
    cases hp
    exact .inr ⟨q, hq⟩
  | append_singleton p σ ih =>
    obtain ⟨k, hk, hkc⟩ := follow_concat.1 hp
    rcases List.eq_nil_or_concat q with rfl | ⟨q', τ, rfl⟩
    · cases hq
      exact .inl ⟨p ++ [σ], hp⟩
    · rw [List.concat_eq_append] at hq
      obtain ⟨k', hk', hkc'⟩ := follow_concat.1 hq
      obtain ⟨rfl, rfl⟩ := hs.parent_unique hkc hkc'
      exact ih hk hk'

/-- Two nodes of which neither lies inside the other. -/
structure Apart (s : Store) (a b : NodeId) : Prop where
  left_lt : a < s.size
  right_lt : b < s.size
  left : ∀ p, s.follow a p ≠ some b
  right : ∀ p, s.follow b p ≠ some a

theorem contains_eq_false_iff {s : Store} (hs : s.Forest) {outer inner : Nat}
    (hlt : outer < s.size) :
    s.contains outer inner = false ↔ ∀ p, s.follow outer p ≠ some inner := by
  rw [Bool.eq_false_iff, Ne, contains_iff hs hlt, not_exists]

theorem apart_iff {s : Store} (hs : s.Forest) {a b : Nat} (ha : a < s.size) (hb : b < s.size) :
    s.Apart a b ↔ s.contains a b = false ∧ s.contains b a = false := by
  rw [contains_eq_false_iff hs ha, contains_eq_false_iff hs hb]
  exact ⟨fun h => ⟨h.left, h.right⟩, fun h => ⟨ha, hb, h.1, h.2⟩⟩

namespace Apart

variable {s s' : Store} {a b : Nat} {p : List Step} {j : NodeId}

/-- Growth inside one node does not reach into a node apart from it. -/
theorem get_eq (h : s.Apart a b) (hgrows : s.GrowsInside s' a) (hj : s'.follow b p = some j) :
    s'.get j = s.get j := by
  by_contra hne
  obtain ⟨q, hq⟩ := hgrows.changed j hne
  -- then one of the two would lie inside the other already in `s`, as both are old
  rcases hgrows.forest.inside_or_inside hq hj with ⟨r, hr⟩ | ⟨r, hr⟩
  · exact h.left r (hgrows.grows.follow_old hgrows.forest hr h.right_lt)
  · exact h.right r (hgrows.grows.follow_old hgrows.forest hr h.left_lt)

theorem follow_iff (h : s.Apart a b) (hgrows : s.GrowsInside s' a) :
    s'.follow b p = some j ↔ s.follow b p = some j := by
  refine ⟨?_, hgrows.grows.follow⟩
  intro hj
  induction p using List.reverseRecOn generalizing j with
  | nil => exact hj
  | append_singleton p σ ih =>
    obtain ⟨k, hk, hkj⟩ := follow_concat.1 hj
    rw [h.get_eq hgrows hk] at hkj
    exact follow_concat.2 ⟨k, ih hk, hkj⟩

end Apart

end Store

/-- Whatever grows inside `root`, a property of the store holds. -/
def Steady (s : Store) (root : NodeId) (Q : Store → Prop) : Prop :=
  ∀ s', s.GrowsInside s' root → Q s'

/-- It still holds after some growth, whatever then grows further inside. -/
theorem Steady.inward {s s' : Store} {root id : NodeId} {Q : Store → Prop} (h : Steady s root Q)
    (hgrows : s.GrowsInside s' root) {p : List Step} (hp : s'.follow root p = some id) :
    Steady s' id Q :=
  fun s'' hgrows' => h s'' (hgrows.trans (hgrows'.outward hp))

/-! ## One level of unification -/

/-- The nodes inside a node, with the steps to them. -/
def Node.parts : Node → List (Accessor × NodeId)
  | .array _ element => [(.index "", element)]
  | .struct members => members.map fun m => (.member m.1, m.2)
  | _ => []

theorem Store.child?_of_mem_parts {s : Store} (hs : s.Forest) {id : NodeId} {a : Accessor}
    {c : NodeId} (h : (a, c) ∈ (s.get id).parts) :
    (s.get id).child? a.step = some c ∧ (s.get id).kind? = some (containerKind a) := by
  cases hn : s.get id with
  | array length element =>
    rw [hn] at h
    cases List.mem_singleton.1 h
    exact ⟨rfl, rfl⟩
  | struct members =>
    rw [hn] at h
    obtain ⟨m, hm, heq⟩ := List.mem_map.1 h
    cases heq
    exact ⟨Lookup.lookup_of_mem (hs.names_nodup hn) hm, rfl⟩
  | _ =>
    rw [hn] at h
    cases h

/-- Carries a node inside a source over to the target, by what unifies the nodes below. -/
def unifyPart (below : NodeId → NodeId → String → Inference Unit) (target : NodeId)
    (path : String) (part : Accessor × NodeId) : Inference Unit := do
  let child ← modifyGet (·.step target part.1)
  below child part.2 (path ++ part.1.text)

/-- Narrows `target` to what is known about `source` itself, and leaves the nodes inside it to
`below`. -/
def unifyLevel (below : NodeId → NodeId → String → Inference Unit) (target source : NodeId)
    (path : String) : Inference Unit := do
  let known := (← get).get source
  match known.kind? with
  | none => return ()
  | some kind =>
    let previous ← settleKind target kind
    if previous != kind then throw (.typeConflict path kind previous)
    raiseLengthIfAny target known.length?
    known.parts.forM (unifyPart below target path)

theorem unifyLevel_eq (below : NodeId → NodeId → String → Inference Unit) (target source : NodeId)
    (path : String) (s : Store) :
    unifyLevel below target source path s =
      match (s.get source).kind? with
      | none => .ok () s
      | some kind =>
        if (s.get target).kind?.getD kind = kind then
          (s.get source).parts.forM (unifyPart below target path)
            (s.absorb target (s.get source) kind)
        else
          .error (.typeConflict path kind ((s.get target).kind?.getD kind))
            (s.settle target kind) := by
  unfold unifyLevel
  change (match (s.get source).kind? with
    | none => (pure () : Inference Unit)
    | some kind => _) s = _
  cases hk : (s.get source).kind? with
  | none => rfl
  | some kind =>
    simp only
    rw [Results.run_bind_ok (settleKind_eq s target kind)]
    by_cases hagree : (s.get target).kind?.getD kind = kind
    · simp only [hagree, bne_self_eq_false, Bool.false_eq_true, if_false, if_true]
      exact Results.run_bind_ok (raiseLengthIfAny_eq target _ _)
    · have hbne : ((s.get target).kind?.getD kind != kind) = true := by
        simp [hagree]
      simp only [hbne, hagree, if_true, if_false]
      rfl

/-- A loop over the steps into a node, as it is written for each kind of node. -/
theorem unifyInside_eq_forM (depth : Nat) (target : NodeId) (known : Node) (path : String) :
    unifyInside depth target known path =
      known.parts.forM (unifyPart (unifyUpTo depth) target path) := by
  cases known with
  | array length element =>
    simp only [unifyInside, Node.parts, List.forM_eq_forM, List.forM_cons, List.forM_nil,
      bind_pure_unit]
    rfl
  | struct members =>
    simp only [unifyInside, Node.parts, List.forM_eq_forM, List.forM_map, unifyPart,
      Accessor.text, String.append_assoc]
  | _ => rfl

/-- Unification down to some depth is one level after the other. -/
theorem unifyUpTo_eq_unifyLevel (depth : Nat) (target source : NodeId) (path : String) (s : Store) :
    unifyUpTo (depth + 1) target source path s =
      unifyLevel (unifyUpTo depth) target source path s := by
  rw [unifyUpTo_succ, unifyLevel_eq]
  cases (s.get source).kind? with
  | none => rfl
  | some kind => simp only [unifyInside_eq_forM]

theorem Store.contains_self (s : Store) (id : NodeId) : s.contains id id = true := by
  unfold Store.contains
  cases s.size <;> simp [Store.containsUpTo]

/-- Nodes of which neither lies inside the other are unified down to the last level. -/
theorem unify_eq_unifyUpTo {s : Store} {target source : NodeId} (path : String)
    (hts : s.contains target source = false) (hst : s.contains source target = false) :
    unify target source path s = unifyUpTo s.size target source path s := by
  change (if target == source then (pure () : Inference Unit)
    else if s.contains target source || s.contains source target then
      throw (Error.unsupported (.nestedContext path))
    else unifyUpTo s.size target source path) s = _
  have hne : target ≠ source := by
    rintro rfl
    rw [Store.contains_self] at hts
    cases hts
  simp only [beq_eq_false_iff_ne.2 hne, hts, hst, Bool.or_self, Bool.false_eq_true, if_false]

/-! ## Unification changes its target only -/

/-- The outcome of a computation on `s`: growth inside `root`, also where it failed, and that for
kinds that conflict. -/
def Confines (s : Store) (root : NodeId) : EStateM.Result Error Store Unit → Prop
  | .ok _ s' => s.GrowsInside s' root
  | .error e s' => s.GrowsInside s' root ∧ ∃ path k k', e = .typeConflict path k k'

namespace Confines

variable {s s' : Store} {root id : Nat} {r : EStateM.Result Error Store Unit}

theorem after (h : Confines s' root r) (hgrows : s.GrowsInside s' root) : Confines s root r := by
  cases r with
  | ok _ s'' => exact hgrows.trans h
  | error e s'' => exact ⟨hgrows.trans h.1, h.2⟩

theorem outward (h : Confines s id r) {p : List Step} (hp : s.follow root p = some id) :
    Confines s root r := by
  cases r with
  | ok _ s' => exact Store.GrowsInside.outward h hp
  | error e s' => exact ⟨h.1.outward hp, h.2⟩

/-- A loop whose passes are confined to one node. -/
theorem forM {γ : Type} {xs : List γ} {f : γ → Inference Unit} (hs : s.Forest)
    (h : ∀ x ∈ xs, ∀ s', s.GrowsInside s' root → Confines s' root (f x s')) :
    Confines s root (xs.forM f s) := by
  induction xs generalizing s with
  | nil => exact .refl hs root
  | cons x xs ih =>
    have hx := h x List.mem_cons_self s (.refl hs root)
    change Confines s root ((f x >>= fun _ => xs.forM f) s)
    cases hrun : f x s with
    | error e s₁ =>
      rw [Results.run_bind_error hrun]
      rw [hrun] at hx
      exact hx
    | ok _ s₁ =>
      rw [Results.run_bind_ok hrun]
      rw [hrun] at hx
      refine (ih hx.forest ?_).after hx
      intro y hy s₂ hgrows
      exact h y (List.mem_cons_of_mem _ hy) s₂ (hx.trans hgrows)

end Confines

theorem Store.growsInside_absorb {s : Store} {target : Nat} (hs : s.Forest) (ht : target < s.size)
    (known : Node) (kind : Kind) : s.GrowsInside (s.absorb target known kind) target := by
  have hexp := expands_settle hs ht kind
  have hs₁ := hexp.forest hs ht
  have ht₁ := Nat.lt_of_lt_of_le ht hexp.size_le
  have hsettled := GrowsInside.of_expands hexp hs ht
  exact hsettled.trans (.of_expands (expands_raiseLength hs₁ ht₁ known.length?) hs₁ ht₁)

/-- A step leads to a node inside, and changes nothing outside. -/
theorem Store.growsInside_step {s : Store} {target : Nat} (hs : s.Forest) {a : Accessor}
    (hkind : (s.get target).kind? = some (containerKind a)) :
    s.GrowsInside (s.step target a).2 target ∧
      (s.step target a).2.follow target [a.step] = some (s.step target a).1 := by
  have ht := lt_size_of_kind? hkind
  refine ⟨.of_expands (expands_step hs ht a) hs ht, ?_⟩
  exact follow_cons.2 ⟨_, child?_step ht hkind, rfl⟩

theorem unifyPart_confines {below : NodeId → NodeId → String → Inference Unit}
    (hbelow : ∀ {s : Store} {target : Nat} (source : NodeId) (path : String), s.Forest →
      target < s.size → Confines s target (below target source path s))
    {s : Store} {target : Nat} (hs : s.Forest) {a : Accessor}
    (hkind : (s.get target).kind? = some (containerKind a)) (c : NodeId) (path : String) :
    Confines s target (unifyPart below target path (a, c) s) := by
  obtain ⟨hstep, hinside⟩ := Store.growsInside_step hs hkind
  have hlt := hstep.forest.follow_lt (Nat.lt_of_lt_of_le (Store.lt_size_of_kind? hkind)
    hstep.grows.size_le) hinside
  exact ((hbelow c _ hstep.forest hlt).outward hinside).after hstep

theorem unifyUpTo_confines (depth : Nat) {s : Store} {target : Nat} (source : NodeId)
    (path : String) (hs : s.Forest) (ht : target < s.size) :
    Confines s target (unifyUpTo depth target source path s) := by
  induction depth generalizing s target source path with
  | zero => exact .refl hs target
  | succ depth ih =>
    rw [unifyUpTo_eq_unifyLevel, unifyLevel_eq]
    cases hk : (s.get source).kind? with
    | none => exact .refl hs target
    | some kind =>
      simp only
      split
      · next hagree =>
        have hgrows := Store.growsInside_absorb hs ht (s.get source) kind
        have hlabel := (Store.absorb_advances hs ht hk hagree).2.2
        refine (Confines.forM hgrows.forest ?_).after hgrows
        rintro ⟨a, c⟩ hpart s' hgrows'
        -- the target has got the kind of the source, which is that of the step
        have hkind := (Store.child?_of_mem_parts hs hpart).2
        exact unifyPart_confines ih hgrows'.forest (hgrows'.grows.kind? (hlabel.1 _ hkind)) c path
      · exact ⟨.of_expands (Store.expands_settle hs ht kind) hs ht, _, _, _, rfl⟩

end Types
end Stencil
