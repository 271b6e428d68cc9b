import Stencil.Proofs.Lookup
import Stencil.Proofs.Types.Forest
import Stencil.Types.Narrow

/-!
# Growth of a store

What is known about a node is never taken back: kinds stay, lengths rise, elements stay the same
node, and members are added behind those that are there. New children are nodes that were not in
use before, and every new node is somebody's child.

This file defines:

* `Node.Grows`, `Store.Grows` : the order in which nodes and stores grow;
* `Store.Expands`             : a single change at one node.

Every single change keeps the store a forest (`Expands.forest`), and the changes that narrowing and
unification are made of are single changes (`expands_widen`, `expands_raise`, `expands_step`).
-/

namespace Stencil
namespace Types

/-! ## Nodes -/

/-- How a node may differ from an earlier one, where new children have numbers from `fresh` on. -/
inductive Node.Grows (fresh : Nat) : Node → Node → Prop where
  | unknown {n : Node} (new : ∀ σ c, n.child? σ = some c → fresh ≤ c) : Grows fresh .unknown n
  | string {a b : Option Nat} (h : LengthLe a b) : Grows fresh (.string a) (.string b)
  | uint {a b : Option Nat} (h : LengthLe a b) : Grows fresh (.uint a) (.uint b)
  | int {a b : Option Nat} (h : LengthLe a b) : Grows fresh (.int a) (.int b)
  | bool : Grows fresh .bool .bool
  | array {a b : Option Nat} {e : NodeId} (h : LengthLe a b) : Grows fresh (.array a e) (.array b e)
  | struct {members extra : List (String × NodeId)} (new : ∀ m ∈ extra, fresh ≤ m.2) :
      Grows fresh (.struct members) (.struct (members ++ extra))

namespace Node.Grows

variable {fresh : Nat} {n n' : Node}

theorem refl (fresh : Nat) (n : Node) : Grows fresh n n := by
  cases n with
  | unknown => exact .unknown (by simp)
  | string a => exact .string (.refl a)
  | uint a => exact .uint (.refl a)
  | int a => exact .int (.refl a)
  | bool => exact .bool
  | array a e => exact .array (.refl a)
  | struct members =>
    have h : Grows fresh (.struct members) (.struct (members ++ [])) := .struct (by simp)
    simpa using h

theorem trans {fresh' : Nat} {n'' : Node} (hle : fresh ≤ fresh') (h : Grows fresh n n')
    (h' : Grows fresh' n' n'') : Grows fresh n n'' := by
  cases h with
  | unknown new =>
    refine .unknown ?_
    intro σ c hc
    cases h' with
    | unknown new' => exact Nat.le_trans hle (new' σ c hc)
    | string => simp [Node.child?] at hc
    | uint => simp [Node.child?] at hc
    | int => simp [Node.child?] at hc
    | bool => simp [Node.child?] at hc
    | array =>
      refine new σ c ?_
      cases σ with
      | element => simpa using hc
      | member name => simp at hc
    | @struct members extra new' =>
      cases σ with
      | element => simp at hc
      | member name =>
        rw [Node.child?_struct_member, List.lookup_append] at hc
        cases hm : members.lookup name with
        | some d =>
          rw [hm] at hc
          cases hc
          exact new (.member name) c (by simpa using hm)
        | none =>
          rw [hm, Option.none_or] at hc
          exact Nat.le_trans hle (new' _ (Lookup.mem_of_lookup hc))
  | string h => cases h' with | string h' => exact .string (h.trans h')
  | uint h => cases h' with | uint h' => exact .uint (h.trans h')
  | int h => cases h' with | int h' => exact .int (h.trans h')
  | bool => cases h' with | bool => exact .bool
  | array h => cases h' with | array h' => exact .array (h.trans h')
  | struct new =>
    cases h' with
    | struct new' =>
      rw [List.append_assoc]
      refine .struct ?_
      intro m hm
      rcases List.mem_append.1 hm with hm | hm
      · exact new m hm
      · exact Nat.le_trans hle (new' m hm)

theorem antisymm {fresh' : Nat} (h : Grows fresh n n') (h' : Grows fresh' n' n) : n = n' := by
  cases h with
  | unknown new => cases h' with | unknown new' => rfl
  | string h => cases h' with | string h' => rw [h.antisymm h']
  | uint h => cases h' with | uint h' => rw [h.antisymm h']
  | int h => cases h' with | int h' => rw [h.antisymm h']
  | bool => rfl
  | array h => cases h' with | array h' => rw [h.antisymm h']
  | @struct members extra new =>
    generalize hm : members ++ extra = grown at h'
    cases h' with
    | @struct _ extra' _ =>
      have hlen := congrArg List.length hm
      simp only [List.length_append] at hlen
      have hnil : extra' = [] := List.eq_nil_of_length_eq_zero (by omega)
      simp [hnil]

theorem label_le (h : Grows fresh n n') : n.label.Le n'.label := by
  cases h with
  | unknown new => exact Label.unknown_le _
  | string h => exact ⟨fun _ hk => hk, h⟩
  | uint h => exact ⟨fun _ hk => hk, h⟩
  | int h => exact ⟨fun _ hk => hk, h⟩
  | bool => exact Label.Le.refl _
  | array h => exact ⟨fun _ hk => hk, h⟩
  | struct new => exact ⟨fun _ hk => hk, LengthLe.none_left _⟩

theorem child {σ : Step} {c : NodeId} (h : Grows fresh n n') (hc : n.child? σ = some c) :
    n'.child? σ = some c := by
  cases h with
  | array h => exact (Node.child?_array_congr _ _ _ σ).trans hc
  | @struct members extra new =>
    cases σ with
    | element => simp at hc
    | member name =>
      have hc' : members.lookup name = some c := hc
      simp [List.lookup_append, hc']
  | _ => simp [Node.child?] at hc

/-- Only new nodes become children. -/
theorem child_old {σ : Step} {c : Nat} (h : Grows fresh n n') (hc : n'.child? σ = some c)
    (hlt : c < fresh) : n.child? σ = some c := by
  cases h with
  | unknown new =>
    have hge := new σ c hc
    omega
  | array h => exact (Node.child?_array_congr _ _ _ σ).trans hc
  | @struct members extra new =>
    cases σ with
    | element => simp at hc
    | member name =>
      rw [Node.child?_struct_member, List.lookup_append] at hc
      cases hm : members.lookup name with
      | some d => simpa [hm] using hc
      | none =>
        rw [hm, Option.none_or] at hc
        have hge := new _ (Lookup.mem_of_lookup hc)
        simp only at hge
        omega
  | _ => simp [Node.child?] at hc

end Node.Grows

/-! ## Stores -/

namespace Store

/-- How a store may differ from an earlier one. -/
structure Grows (s s' : Store) : Prop where
  size_le : s.size ≤ s'.size
  node : ∀ id, id < s.size → Node.Grows s.size (s.get id) (s'.get id)
  adopted : ∀ id, s.size ≤ id → id < s'.size → ∃ parent σ, (s'.get parent).child? σ = some id

namespace Grows

variable {s s' s'' : Store}

theorem refl (s : Store) : s.Grows s := by
  refine ⟨Nat.le_refl _, fun id _ => .refl _ _, ?_⟩
  intro id hge hlt
  exact absurd hlt (Nat.not_lt_of_le hge)

theorem trans (h : s.Grows s') (h' : s'.Grows s'') : s.Grows s'' := by
  refine ⟨Nat.le_trans h.size_le h'.size_le, ?_, ?_⟩
  · intro id hid
    exact (h.node id hid).trans h.size_le (h'.node id (Nat.lt_of_lt_of_le hid h.size_le))
  · intro id hge hlt
    by_cases hid : id < s'.size
    · rcases h.adopted id hge hid with ⟨parent, σ, hσ⟩
      exact ⟨parent, σ, (h'.node parent (lt_size_of_child? hσ)).child hσ⟩
    · exact h'.adopted id (Nat.le_of_not_lt hid) hlt

theorem antisymm (h : s.Grows s') (h' : s'.Grows s) : s = s' := by
  have hsize : s.nodes.size = s'.nodes.size := Nat.le_antisymm h.size_le h'.size_le
  have hnodes : s.nodes = s'.nodes := by
    refine Array.ext hsize ?_
    intro i hi hi'
    have heq := (h.node i hi).antisymm (h'.node i hi')
    simpa [get, Array.getD, hi, hi'] using heq
  cases s
  cases s'
  simpa using hnodes

theorem child (h : s.Grows s') {id c : NodeId} {σ : Step} (hc : (s.get id).child? σ = some c) :
    (s'.get id).child? σ = some c :=
  (h.node id (lt_size_of_child? hc)).child hc

theorem label_le (h : s.Grows s') (id : NodeId) : (s.get id).label.Le (s'.get id).label := by
  by_cases hid : id < s.size
  · exact (h.node id hid).label_le
  · rw [get_of_size_le (Nat.le_of_not_lt hid)]
    exact Label.unknown_le _

theorem kind? (h : s.Grows s') {id : NodeId} {k : Kind} (hk : (s.get id).kind? = some k) :
    (s'.get id).kind? = some k :=
  (h.label_le id).1 k hk

/-- Growth keeps all paths. -/
theorem follow (h : s.Grows s') {id j : NodeId} {p : List Step} (hj : s.follow id p = some j) :
    s'.follow id p = some j := by
  induction p generalizing id with
  | nil => exact hj
  | cons σ p ih =>
    rcases follow_cons.1 hj with ⟨c, hc, hcj⟩
    exact follow_cons.2 ⟨c, h.child hc, ih hcj⟩

/-- A path that leads to an old node is an old path. -/
theorem follow_old (h : s.Grows s') (hs' : s'.Forest) {id j : Nat} {p : List Step}
    (hj : s'.follow id p = some j) (hlt : j < s.size) : s.follow id p = some j := by
  induction p generalizing id with
  | nil => exact hj
  | cons σ p ih =>
    rcases follow_cons.1 hj with ⟨c, hc, hcj⟩
    -- numbers only rise along a path, so all nodes on the way to an old node are old
    have hcle : c ≤ j := by
      have := hs'.follow_length hcj
      omega
    have hidc := hs'.child_gt hc
    have hchild : (s.get id).child? σ = some c :=
      (h.node id (by omega)).child_old hc (by omega)
    exact follow_cons.2 ⟨c, hchild, ih hcj⟩

/-- If all nodes lie below a root, so do the nodes that are added. -/
theorem rooted (h : s.Grows s') (hs' : s'.Forest) {root : NodeId}
    (hroot : ∀ i : Nat, i < s.size → ∃ p, s.follow root p = some i) (i : Nat)
    (hi : i < s'.size) : ∃ p, s'.follow root p = some i := by
  induction i using Nat.strongRecOn with
  | ind i ih =>
    by_cases hold : i < s.size
    · rcases hroot i hold with ⟨p, hp⟩
      exact ⟨p, h.follow hp⟩
    · -- a new node has a parent, which has a smaller number
      rcases h.adopted i (Nat.le_of_not_lt hold) hi with ⟨parent, σ, hσ⟩
      have hlt := hs'.child_gt hσ
      rcases ih parent hlt (Nat.lt_trans hlt hi) with ⟨p, hp⟩
      exact ⟨p ++ [σ], follow_concat.2 ⟨parent, hp, hσ⟩⟩

end Grows

/-! ## Single changes -/

/-- `s'` differs from `s` at one node only, which has grown by at most one new child. -/
structure Expands (s s' : Store) (id : NodeId) : Prop where
  size_le : s.size ≤ s'.size
  size_le_succ : s'.size ≤ s.size + 1
  other : ∀ j, j ≠ id → s'.get j = s.get j
  node : Node.Grows s.size (s.get id) (s'.get id)
  child_lt : ∀ {σ c}, (s'.get id).child? σ = some c → c < s'.size
  new_unique : ∀ {σ τ}, (s'.get id).child? σ = some s.size → (s'.get id).child? τ = some s.size →
    σ = τ
  names_nodup : ∀ {members}, s'.get id = .struct members → (members.map (·.1)).Nodup
  adopted : s.size < s'.size → ∃ σ, (s'.get id).child? σ = some s.size

namespace Expands

variable {s s' : Store} {id : NodeId}

theorem refl (hs : s.Forest) (id : NodeId) : s.Expands s id := by
  refine ⟨Nat.le_refl _, Nat.le_succ _, fun _ _ => rfl, .refl _ _, hs.child_lt, ?_,
    hs.names_nodup, fun h => absurd h (Nat.lt_irrefl _)⟩
  intro σ τ hσ _
  exact absurd (hs.child_lt hσ) (Nat.lt_irrefl _)

theorem grows (h : s.Expands s' id) : s.Grows s' := by
  refine ⟨h.size_le, ?_, ?_⟩
  · intro j _
    by_cases hj : j = id
    · rw [hj]
      exact h.node
    · rw [h.other j hj]
      exact .refl _ _
  · intro j hge hlt
    have hle := h.size_le_succ
    have hj : j = s.size := by omega
    rcases h.adopted (by omega) with ⟨σ, hσ⟩
    exact ⟨id, σ, by rw [hj]; exact hσ⟩

/-- A child in the changed store is an old child or the new node. -/
theorem child_cases (h : s.Expands s' id) {j c : Nat} {σ : Step} (hs : s.Forest)
    (hc : (s'.get j).child? σ = some c) :
    (s.get j).child? σ = some c ∧ c < s.size ∨ j = id ∧ c = s.size := by
  by_cases hj : j = id
  · subst hj
    by_cases hlt : c < s.size
    · exact .inl ⟨h.node.child_old hc hlt, hlt⟩
    · have hlt' : c < s'.size := h.child_lt hc
      have hle := h.size_le_succ
      exact .inr ⟨rfl, by omega⟩
  · rw [h.other j hj] at hc
    exact .inl ⟨hc, hs.child_lt hc⟩

theorem forest (h : s.Expands s' id) (hs : s.Forest) (hid : id < s.size) : s'.Forest where
  child_gt := by
    intro j c σ hc
    rcases h.child_cases hs hc with ⟨hold, _⟩ | ⟨rfl, rfl⟩
    · exact hs.child_gt hold
    · exact hid
  child_lt := by
    intro j c σ hc
    rcases h.child_cases hs hc with ⟨_, hlt⟩ | ⟨rfl, _⟩
    · exact Nat.lt_of_lt_of_le hlt h.size_le
    · exact h.child_lt hc
  -- the new node has no other parent, and only one step leads to it
  parent_unique := by
    intro i j c σ τ hi hj
    rcases h.child_cases hs hi with ⟨hi', hlt⟩ | ⟨rfl, rfl⟩
    · rcases h.child_cases hs hj with ⟨hj', _⟩ | ⟨rfl, rfl⟩
      · exact hs.parent_unique hi' hj'
      · exact absurd hlt (Nat.lt_irrefl _)
    · rcases h.child_cases hs hj with ⟨_, hlt⟩ | ⟨rfl, _⟩
      · exact absurd hlt (Nat.lt_irrefl _)
      · exact ⟨rfl, h.new_unique hi hj⟩
  names_nodup := by
    intro j members hj
    by_cases hjid : j = id
    · subst hjid
      exact h.names_nodup hj
    · rw [h.other j hjid] at hj
      exact hs.names_nodup hj

/-- Where a path leads in the changed store: to an old node, or by a last step to the new one. -/
theorem follow_cases (h : s.Expands s' id) (hs : s.Forest) {r j : Nat} {p : List Step}
    (hr : r < s.size) (hj : s'.follow r p = some j) :
    s.follow r p = some j ∧ j < s.size ∨
      ∃ q σ, p = q ++ [σ] ∧ s.follow r q = some id ∧ j = s.size ∧
        (s'.get id).child? σ = some j := by
  -- the induction runs from the end of the path, where the new node can be
  induction p using List.reverseRecOn generalizing j with
  | nil =>
    cases hj
    exact .inl ⟨rfl, hr⟩
  | append_singleton p σ ih =>
    rcases follow_concat.1 hj with ⟨k, hk, hkj⟩
    rcases ih hk with ⟨hkold, _⟩ | ⟨q, τ, _, hq, rfl, _⟩
    · rcases h.child_cases hs hkj with ⟨hold, hlt⟩ | ⟨rfl, rfl⟩
      · exact .inl ⟨follow_concat.2 ⟨k, hkold, hold⟩, hlt⟩
      · exact .inr ⟨p, σ, rfl, hkold, rfl, hkj⟩
    · -- the new node has no children yet
      rcases h.child_cases hs hkj with ⟨hold, _⟩ | ⟨heq, _⟩
      · exact absurd (lt_size_of_child? hold) (Nat.lt_irrefl _)
      · have hid := hs.follow_lt hr hq
        rw [← heq] at hid
        exact absurd hid (Nat.lt_irrefl _)

end Expands

/-! ## The changes that inference makes -/

variable {s : Store} {id : NodeId}

/-- An unknown node becomes a node without children. -/
theorem expands_set_leaf (hid : id < s.size) (hu : s.get id = .unknown) {n : Node}
    (hn : ∀ σ, n.child? σ = none) (hnames : ∀ members, n = .struct members → members = []) :
    s.Expands (s.set id n) id where
  size_le := by simp
  size_le_succ := by simp
  other := fun j hj => get_set_ne hj
  node := by
    rw [get_set_self hid, hu]
    exact .unknown (by simp [hn])
  child_lt := by
    intro σ c hc
    rw [get_set_self hid, hn] at hc
    cases hc
  new_unique := by
    intro σ τ hσ _
    rw [get_set_self hid, hn] at hσ
    cases hσ
  names_nodup := by
    intro members hm
    rw [get_set_self hid] at hm
    simp [hnames members hm]
  adopted := by simp

/-- An unknown node becomes an array, whose element is a new node. -/
theorem expands_set_array (hid : id < s.size) (hu : s.get id = .unknown) :
    s.Expands ((s.alloc .unknown).2.set id (.array none s.size)) id := by
  have hid' : id < (s.alloc .unknown).2.size := by
    rw [size_alloc]
    exact Nat.lt_succ_of_lt hid
  have hnew : ∀ {σ c}, (Node.array none s.size).child? σ = some c → σ = .element ∧ c = s.size := by
    intro σ c hc
    cases σ with
    | element =>
      cases hc
      exact ⟨rfl, rfl⟩
    | member name => cases hc
  refine ⟨by simp, by simp, ?_, ?_, ?_, ?_, ?_, ?_⟩
  · intro j hj
    rw [get_set_ne hj, get_alloc_unknown]
  · rw [get_set_self hid', hu]
    refine .unknown ?_
    intro σ c hc
    exact Nat.le_of_eq (hnew hc).2.symm
  · intro σ c hc
    rw [get_set_self hid'] at hc
    rw [(hnew hc).2, size_set, size_alloc]
    exact Nat.lt_succ_self _
  · intro σ τ hσ hτ
    rw [get_set_self hid'] at hσ hτ
    rw [(hnew hσ).1, (hnew hτ).1]
  · intro members hm
    rw [get_set_self hid'] at hm
    cases hm
  · intro _
    rw [get_set_self hid']
    exact ⟨.element, rfl⟩

theorem expands_widen (hid : id < s.size) (hu : s.get id = .unknown) (kind : Kind) :
    s.Expands (s.widen id kind) id := by
  cases kind with
  | array => exact expands_set_array hid hu
  | struct => exact expands_set_leaf hid hu (by intro σ; cases σ <;> rfl) (by simp)
  | _ => exact expands_set_leaf hid hu (by intro σ; cases σ <;> rfl) (by simp)

/-- A widened node has the kind asked for, and no length. -/
theorem label_widen (hid : id < s.size) (kind : Kind) :
    ((s.widen id kind).get id).label = ⟨some kind, none⟩ := by
  have hid' : id < (s.alloc .unknown).2.size := by
    rw [size_alloc]
    exact Nat.lt_succ_of_lt hid
  cases kind with
  | array =>
    change (((s.alloc .unknown).2.set id _).get id).label = _
    rw [get_set_self hid']
    rfl
  | _ =>
    change ((s.set id _).get id).label = _
    rw [get_set_self hid]
    rfl

/-- Raising a length keeps all else. -/
theorem raiseLength?_spec {n node : Node} {k : Nat} (h : n.raiseLength? k = some node) :
    (∀ fresh, Node.Grows fresh n node) ∧ node.kind? = n.kind? ∧
      node.length? = some (Node.raiseLength?.raise k n.length?) ∧
      (∀ σ, node.child? σ = n.child? σ) ∧ ∀ members, node ≠ .struct members := by
  have hraise : ∀ a, LengthLe a (some (Node.raiseLength?.raise k a)) := by
    intro a m hm
    subst hm
    exact ⟨_, rfl, Nat.le_max_left m k⟩
  cases n with
  | string a =>
    cases h
    exact ⟨fun _ => .string (hraise a), rfl, rfl, by intro σ; cases σ <;> rfl, by simp⟩
  | uint a =>
    cases h
    exact ⟨fun _ => .uint (hraise a), rfl, rfl, by intro σ; cases σ <;> rfl, by simp⟩
  | int a =>
    cases h
    exact ⟨fun _ => .int (hraise a), rfl, rfl, by intro σ; cases σ <;> rfl, by simp⟩
  | array a e =>
    cases h
    exact ⟨fun _ => .array (hraise a), rfl, rfl, by intro σ; cases σ <;> rfl, by simp⟩
  | _ => cases h

theorem expands_raise (hs : s.Forest) (hid : id < s.size) {k : Nat} {node : Node}
    (h : (s.get id).raiseLength? k = some node) : s.Expands (s.set id node) id := by
  rcases raiseLength?_spec h with ⟨hgrows, _, _, hchild, hstruct⟩
  refine ⟨by simp, by simp, fun j hj => get_set_ne hj, ?_, ?_, ?_, ?_, by simp⟩
  · rw [get_set_self hid]
    exact hgrows s.size
  · intro σ c hc
    rw [get_set_self hid, hchild] at hc
    rw [size_set]
    exact hs.child_lt hc
  · intro σ τ hσ _
    rw [get_set_self hid, hchild] at hσ
    exact absurd (hs.child_lt hσ) (Nat.lt_irrefl _)
  · intro members hm
    rw [get_set_self hid] at hm
    exact absurd hm (hstruct members)

/-- The children of a struct with one more member. -/
theorem child?_struct_concat (hs : s.Forest) {members : List (String × NodeId)}
    (hm : s.get id = .struct members) {name : String} {σ : Step} {c : NodeId}
    (hc : (Node.struct (members ++ [(name, s.size)])).child? σ = some c) :
    c < s.size ∨ c = s.size ∧ σ = .member name := by
  cases σ with
  | element => cases hc
  | member n =>
    rw [Node.child?_struct_member, List.lookup_append] at hc
    cases hn : members.lookup n with
    | some d =>
      rw [hn] at hc
      cases hc
      have hchild : (s.get id).child? (.member n) = some c := by
        rw [hm]
        exact hn
      exact .inl (hs.child_lt hchild)
    | none =>
      rw [hn, Option.none_or, List.lookup_cons] at hc
      by_cases heq : n = name
      · subst heq
        simp only [beq_self_eq_true] at hc
        cases hc
        exact .inr ⟨rfl, rfl⟩
      · rw [beq_eq_false_iff_ne.2 heq] at hc
        cases hc

/-- A struct gets one more member, which is a new node. -/
theorem expands_set_member (hs : s.Forest) (hid : id < s.size) {members : List (String × NodeId)}
    (hm : s.get id = .struct members) {name : String} (hname : members.lookup name = none) :
    s.Expands ((s.alloc .unknown).2.set id (.struct (members ++ [(name, s.size)]))) id := by
  have hid' : id < (s.alloc .unknown).2.size := by
    rw [size_alloc]
    exact Nat.lt_succ_of_lt hid
  have hcases := @child?_struct_concat s id hs members hm name
  refine ⟨by simp, by simp, ?_, ?_, ?_, ?_, ?_, ?_⟩
  · intro j hj
    rw [get_set_ne hj, get_alloc_unknown]
  · rw [get_set_self hid', hm]
    exact .struct (by simp)
  · intro σ c hc
    rw [get_set_self hid'] at hc
    rw [size_set, size_alloc]
    rcases hcases hc with hlt | ⟨rfl, _⟩
    · exact Nat.lt_succ_of_lt hlt
    · exact Nat.lt_succ_self _
  · intro σ τ hσ hτ
    rw [get_set_self hid'] at hσ hτ
    rcases hcases hσ with hlt | ⟨_, rfl⟩
    · exact absurd hlt (Nat.lt_irrefl _)
    · rcases hcases hτ with hlt | ⟨_, rfl⟩
      · exact absurd hlt (Nat.lt_irrefl _)
      · rfl
  · intro members' hm'
    rw [get_set_self hid'] at hm'
    cases hm'
    have hfresh : name ∉ members.map (·.1) := by
      intro hmem
      rcases List.mem_map.1 hmem with ⟨m, hin, rfl⟩
      rw [Lookup.lookup_of_mem (hs.names_nodup hm) hin] at hname
      cases hname
    rw [List.map_append, List.nodup_append]
    refine ⟨hs.names_nodup hm, by simp, ?_⟩
    intro a ha b hb
    simp only [List.map_cons, List.map_nil, List.mem_singleton] at hb
    subst hb
    intro heq
    exact hfresh (heq ▸ ha)
  · intro _
    rw [get_set_self hid']
    refine ⟨.member name, ?_⟩
    rw [Node.child?_struct_member, List.lookup_append, hname]
    simp

theorem expands_step (hs : s.Forest) (hid : id < s.size) (a : Accessor) :
    s.Expands (s.step id a).2 id := by
  unfold step
  split
  · exact .refl hs id
  · next members name hm =>
    split
    · exact .refl hs id
    · next hname => exact expands_set_member hs hid hm hname
  · exact .refl hs id

/-- Following a step gives the child at that step. -/
theorem child?_step (hid : id < s.size) {a : Accessor}
    (hk : (s.get id).kind? = some (containerKind a)) :
    ((s.step id a).2.get id).child? a.step = some (s.step id a).1 := by
  cases a with
  | index expr =>
    cases hn : s.get id with
    | array length element => simp [step, hn, Accessor.step]
    | _ => simp [hn, Node.kind?, containerKind] at hk
  | member name =>
    cases hn : s.get id with
    | struct members =>
      have hid' : id < (s.alloc .unknown).2.size := by
        rw [size_alloc]
        exact Nat.lt_succ_of_lt hid
      cases hm : members.lookup name with
      | some c => simp [step, hn, hm, Accessor.step]
      | none =>
        simp only [step, hn, hm, Accessor.step]
        rw [get_set_self hid', Node.child?_struct_member, List.lookup_append, hm]
        simp
    | _ => simp [hn, Node.kind?, containerKind] at hk

/-- Only an array gets a new child where a node is widened. -/
theorem new_widen (hid : id < s.size) {kind : Kind} {σ : Step} {c : NodeId}
    (hc : ((s.widen id kind).get id).child? σ = some c) : kind = .array ∧ σ = .element := by
  have hid' : id < (s.alloc .unknown).2.size := by
    rw [size_alloc]
    exact Nat.lt_succ_of_lt hid
  cases kind with
  | array =>
    change (((s.alloc .unknown).2.set id _).get id).child? σ = some c at hc
    rw [get_set_self hid'] at hc
    cases σ with
    | element => exact ⟨rfl, rfl⟩
    | member name => cases hc
  | _ =>
    change ((s.set id _).get id).child? σ = some c at hc
    rw [get_set_self hid] at hc
    cases σ <;> cases hc

/-- The new child that a step adds is the one that it leads to. -/
theorem new_step (hs : s.Forest) (hid : id < s.size) {a : Accessor} {σ : Step}
    (hc : ((s.step id a).2.get id).child? σ = some s.size) : σ = a.step := by
  unfold step at hc
  split at hc
  · exact absurd (hs.child_lt hc) (Nat.lt_irrefl _)
  · next members name hm =>
    split at hc
    · exact absurd (hs.child_lt hc) (Nat.lt_irrefl _)
    · have hid' : id < (s.alloc .unknown).2.size := by
        rw [size_alloc]
        exact Nat.lt_succ_of_lt hid
      simp only at hc
      rw [get_set_self hid'] at hc
      rcases child?_struct_concat hs hm hc with hlt | ⟨_, rfl⟩
      · exact absurd hlt (Nat.lt_irrefl _)
      · rfl
  · exact absurd (hs.child_lt hc) (Nat.lt_irrefl _)

/-- A step leaves the label of its node as it is. -/
theorem label_step (hid : id < s.size) (a : Accessor) :
    ((s.step id a).2.get id).label = (s.get id).label := by
  unfold step
  split
  · rfl
  · next members name hm =>
    split
    · rfl
    · have hid' : id < (s.alloc .unknown).2.size := by
        rw [size_alloc]
        exact Nat.lt_succ_of_lt hid
      simp only
      rw [get_set_self hid', hm]
      rfl
  · rfl

end Store
end Types
end Stencil
