import Mathlib.Data.List.Nodup
import Stencil.Proofs.Results
import Stencil.Proofs.Types.Built

/-!
# Calls on a store

Scopes, call sites and names hold on to nodes while further calls change the store, and some of
these calls fail halfway. This file defines:

* `Session`, `Session.run`    : a store with what calls on it have given back, and further calls;
* `Node.Keeps`, `Store.Keeps` : what a call leaves as it is.

However calls follow each other, the store is a forest (`session_forest`). Nothing that is known is
lost, and paths lead where they have led (`session_keeps`).
-/

namespace Stencil
namespace Types

/-! ## What is kept -/

/-- What is known about a node is still known. -/
structure Node.Keeps (n n' : Node) : Prop where
  kind : ∀ k, n.kind? = some k → n'.kind? = some k
  length : LengthLe n.length? n'.length?
  element : ∀ length e, n = .array length e → ∃ length', n' = .array length' e
  members : ∀ members, n = .struct members → ∃ added, n' = .struct (members ++ added)

namespace Node.Keeps

variable {n n' n'' : Node}

theorem of_grows {fresh : Nat} (h : Node.Grows fresh n n') : n.Keeps n' where
  kind := h.label_le.1
  length := h.label_le.2
  element := by
    rintro length e rfl
    cases h with
    | array _ => exact ⟨_, rfl⟩
  members := by
    rintro members rfl
    cases h with
    | struct _ => exact ⟨_, rfl⟩

theorem refl (n : Node) : n.Keeps n := of_grows (.refl 0 n)

theorem trans (h : n.Keeps n') (h' : n'.Keeps n'') : n.Keeps n'' where
  kind k hk := h'.kind k (h.kind k hk)
  length := h.length.trans h'.length
  element := by
    intro length e hn
    obtain ⟨length', hn'⟩ := h.element length e hn
    exact h'.element length' e hn'
  members := by
    intro members hn
    obtain ⟨added, hn'⟩ := h.members members hn
    obtain ⟨added', hn''⟩ := h'.members _ hn'
    exact ⟨added ++ added', by rw [hn'', List.append_assoc]⟩

theorem child (h : n.Keeps n') {σ : Step} {c : NodeId} (hc : n.child? σ = some c) :
    n'.child? σ = some c := by
  cases n with
  | array length e =>
    obtain ⟨length', rfl⟩ := h.element length e rfl
    exact (Node.child?_array_congr _ _ _ σ).trans hc
  | struct members =>
    obtain ⟨added, rfl⟩ := h.members members rfl
    cases σ with
    | element => cases hc
    | member name =>
      rw [Node.child?_struct_member] at hc ⊢
      rw [List.lookup_append, hc, Option.some_or]
  | _ => cases σ <;> cases hc

end Node.Keeps

/-- No node is lost, and what is known about nodes is still known. -/
structure Store.Keeps (s s' : Store) : Prop where
  size_le : s.size ≤ s'.size
  node : ∀ id < s.size, (s.get id).Keeps (s'.get id)

namespace Store.Keeps

variable {s s' s'' : Store}

theorem of_grows (h : s.Grows s') : s.Keeps s' :=
  ⟨h.size_le, fun id hid => .of_grows (h.node id hid)⟩

theorem refl (s : Store) : s.Keeps s := of_grows (.refl s)

theorem trans (h : s.Keeps s') (h' : s'.Keeps s'') : s.Keeps s'' :=
  ⟨Nat.le_trans h.size_le h'.size_le,
    fun id hid => (h.node id hid).trans (h'.node id (Nat.lt_of_lt_of_le hid h.size_le))⟩

/-- A new root is a new node. -/
theorem newRoot (s : Store) : s.Keeps s.newRoot.2 where
  size_le := by
    rw [size_newRoot]
    exact Nat.le_succ _
  node := by
    intro id hid
    rw [get_newRoot_ne (Nat.ne_of_lt hid)]
    exact .refl _

theorem follow (h : s.Keeps s') {id j : NodeId} {p : List Step} (hj : s.follow id p = some j) :
    s'.follow id p = some j := by
  induction p generalizing id with
  | nil => exact hj
  | cons σ p ih =>
    obtain ⟨c, hc, hcj⟩ := follow_cons.1 hj
    exact follow_cons.2 ⟨c, (h.node id (lt_size_of_child? hc)).child hc, ih hcj⟩

end Store.Keeps

theorem Advances.keeps_of_leaves {α : Type} {m : Inference α} {s s' : Store}
    {post : α → Store → Prop} (h : Advances s post (m s)) (hleaves : Leaves m s s') :
    s.Keeps s' := by
  obtain ⟨a, hrun⟩ | ⟨e, hrun⟩ := hleaves
  · rw [hrun] at h
    exact .of_grows h.2.1
  · rw [hrun] at h
    exact .of_grows h.2

/-! ## Paths that are there -/

section

variable {s : Store} {id j c : NodeId}

theorem Store.step_of_child? {a : Accessor} (h : (s.get id).child? a.step = some c) :
    s.step id a = (c, s) := by
  cases a with
  | index expr =>
    cases hn : s.get id with
    | array length element =>
      rw [hn] at h
      cases h
      simp [Store.step, hn]
    | _ => simp [hn, Accessor.step, Node.child?] at h
  | member name =>
    cases hn : s.get id with
    | struct members =>
      have hname : members.lookup name = some c := by
        rw [hn] at h
        exact h
      simp [Store.step, hn, hname]
    | _ => simp [hn, Accessor.step, Node.child?] at h

theorem settleKind_of_child? {a : Accessor} (h : (s.get id).child? a.step = some c) :
    settleKind id (containerKind a) s = .ok (containerKind a) s := by
  have hkind : (s.get id).kind? = some (containerKind a) := by
    rw [Node.kind?_of_child? h]
    cases a <;> rfl
  rw [settleKind_eq, Store.settle, hkind]
  rfl

/-- A walk along steps that are there changes nothing. -/
theorem walk_of_follow (conflict : String → Kind → Kind → Error) (label : String)
    {path : List Accessor} (h : s.follow id (path.map Accessor.step) = some j) :
    walk conflict label id path s = .ok j s := by
  induction path generalizing id label with
  | nil =>
    cases h
    rfl
  | cons a rest ih =>
    obtain ⟨c, hc, hcj⟩ := Store.follow_cons.1 h
    have hstep : (modifyGet (·.step id a) : Inference NodeId) s = .ok c s := by
      change EStateM.Result.ok (s.step id a).1 (s.step id a).2 = _
      rw [Store.step_of_child? hc]
    rw [walk, Results.run_bind_ok (settleKind_of_child? hc)]
    simp only [bne_self_eq_false, Bool.false_eq_true, if_false]
    change (((modifyGet (·.step id a) : Inference NodeId) >>= fun next =>
      walk conflict a.label next rest) s) = _
    rw [Results.run_bind_ok hstep]
    exact ih a.label hcj

theorem resolveNode_of_follow {root : NodeId} {path : AccessPath} (horigin : path.origin = .input)
    (h : s.follow root (path.accessors.map Accessor.step) = some j) :
    resolveNode root path s = .ok j s := by
  rw [resolveNode, horigin]
  exact walk_of_follow _ _ h

end

/-! ## Sessions -/

/-- The store that a computation leaves behind. -/
def leftStore {α : Type} : EStateM.Result Error Store α → Store
  | .ok _ s' => s'
  | .error _ s' => s'

theorem leaves_leftStore {α : Type} (m : Inference α) (s : Store) :
    Leaves m s (leftStore (m s)) := by
  unfold Leaves
  cases m s with
  | ok a s' => exact .inl ⟨a, rfl⟩
  | error e s' => exact .inr ⟨e, rfl⟩

/-- A path that was resolved, and the node that it led to. -/
structure Resolution where
  root : NodeId
  path : AccessPath
  node : NodeId
  deriving DecidableEq, Repr

/-- What has come of the calls on a store. -/
structure Session where
  store : Store := {}
  /-- The nodes that calls have given back. -/
  given : List NodeId := []
  /-- The paths that have been resolved. -/
  resolved : List Resolution := []
  deriving DecidableEq, Repr

namespace Session

/-- The nodes that a call can be about: those that calls have given back, and the nodes inside. -/
def Known (a : Session) (id : NodeId) : Prop :=
  ∃ start ∈ a.given, ∃ p, a.store.follow start p = some id

/-- A call on a store. -/
inductive Call where
  | newRoot
  | narrow (root : NodeId) (path : AccessPath) (kind : Kind) (length : Option Nat)
  | resolve (root : NodeId) (path : AccessPath)
  | unify (target source : NodeId) (path : String)
  deriving DecidableEq, Repr

/-- The nodes that a call is about. -/
def Call.nodes : Call → List NodeId
  | .newRoot => []
  | .narrow root _ _ _ => [root]
  | .resolve root _ => [root]
  | .unify target source _ => [target, source]

/-- What has come of the calls after one more, which has a result or fails. -/
def after (a : Session) : Call → Session
  | .newRoot => { a with store := a.store.newRoot.2, given := a.store.newRoot.1 :: a.given }
  | .narrow root path kind length =>
    { a with store := leftStore (Types.narrow root path kind length a.store) }
  | .resolve root path =>
    match resolveNode root path a.store with
    | .ok node s' =>
      { store := s', given := node :: a.given, resolved := ⟨root, path, node⟩ :: a.resolved }
    | .error _ s' => { a with store := s' }
  | .unify target source path =>
    { a with store := leftStore (Types.unify target source path a.store) }

/-- What has come of the calls after further ones. -/
def run (a : Session) (calls : List Call) : Session := calls.foldl after a

/-- Each call is about nodes that are known by then. -/
def Allows (a : Session) : List Call → Prop
  | [] => True
  | call :: calls => (∀ id ∈ call.nodes, a.Known id) ∧ (a.after call).Allows calls

theorem allows_append {a : Session} {calls later : List Call} :
    a.Allows (calls ++ later) ↔ a.Allows calls ∧ (a.run calls).Allows later := by
  induction calls generalizing a with
  | nil => exact ⟨fun h => ⟨trivial, h⟩, fun h => h.2⟩
  | cons call calls ih =>
    rw [List.cons_append, Allows, Allows, ih, and_assoc]
    rfl

/-- The store is a forest, and what has been found in it is there. -/
structure Sound (a : Session) : Prop where
  forest : a.store.Forest
  given_lt : ∀ id ∈ a.given, id < a.store.size
  resolved : ∀ r ∈ a.resolved, r.path.origin = .input ∧
    a.store.follow r.root (r.path.accessors.map Accessor.step) = some r.node

variable {a : Session}

theorem Sound.known_lt (h : a.Sound) {id : NodeId} (hid : a.Known id) : id < a.store.size := by
  obtain ⟨start, hstart, p, hp⟩ := hid
  exact h.forest.follow_lt (h.given_lt start hstart) hp

/-- The store after a call that gives nothing back, or fails. -/
theorem Sound.with_store (h : a.Sound) {s' : Store} (hs' : s'.Forest) (hkeeps : a.store.Keeps s') :
    Sound { a with store := s' } where
  forest := hs'
  given_lt id hid := Nat.lt_of_lt_of_le (h.given_lt id hid) hkeeps.size_le
  resolved r hr := ⟨(h.resolved r hr).1, hkeeps.follow (h.resolved r hr).2⟩

theorem Sound.after_leaves {α : Type} {m : Inference α} {post : α → Store → Prop} {s' : Store}
    (h : a.Sound) (hadvances : Advances a.store post (m a.store)) (hleaves : Leaves m a.store s') :
    Sound { a with store := s' } ∧ a.store.Keeps s' := by
  have hkeeps := hadvances.keeps_of_leaves hleaves
  exact ⟨h.with_store (hadvances.forest_of_leaves hleaves) hkeeps, hkeeps⟩

/-- What one call does: the session remains sound, and the store keeps what it has. -/
theorem Sound.after (ha : a.Sound) {call : Call} (hknown : ∀ id ∈ call.nodes, a.Known id) :
    (a.after call).Sound ∧ a.store.Keeps (a.after call).store := by
  have hlt : ∀ id ∈ call.nodes, id < a.store.size := fun id hid => ha.known_lt (hknown id hid)
  cases call with
  | newRoot =>
    have hkeeps := Store.Keeps.newRoot a.store
    have hb := ha.with_store ha.forest.newRoot hkeeps
    refine ⟨⟨hb.forest, ?_, hb.resolved⟩, hkeeps⟩
    exact List.forall_mem_cons.2 ⟨Store.newRoot_lt a.store, hb.given_lt⟩
  | narrow root path kind length =>
    have hroot := hlt root List.mem_cons_self
    exact ha.after_leaves (narrow_advances ha.forest hroot path kind length) (leaves_leftStore _ _)
  | resolve root path =>
    have hroot := hlt root List.mem_cons_self
    have hadvances := resolveNode_advances ha.forest hroot path
    cases hrun : resolveNode root path a.store with
    | error e s' =>
      rw [Session.after, hrun]
      exact ha.after_leaves hadvances (.inr ⟨e, hrun⟩)
    | ok node s' =>
      obtain ⟨hb, hkeeps⟩ := ha.after_leaves hadvances (.inl ⟨node, hrun⟩)
      -- the node that is given back lies where the path leads, and so in the store
      rw [hrun] at hadvances
      obtain ⟨hs', hgrows, horigin, hfollow⟩ := hadvances
      have hnode := hs'.follow_lt (Nat.lt_of_lt_of_le hroot hgrows.size_le) hfollow
      rw [Session.after, hrun]
      refine ⟨⟨hs', ?_, ?_⟩, hkeeps⟩
      · exact List.forall_mem_cons.2 ⟨hnode, hb.given_lt⟩
      · exact List.forall_mem_cons.2 ⟨⟨horigin, hfollow⟩, hb.resolved⟩
  | unify target source path =>
    have htarget := hlt target List.mem_cons_self
    have hsource := hlt source (List.mem_cons_of_mem _ List.mem_cons_self)
    exact ha.after_leaves (unify_advances path ha.forest htarget hsource) (leaves_leftStore _ _)

/-- What any number of calls do. -/
theorem Sound.run (ha : a.Sound) {calls : List Call} (h : a.Allows calls) :
    (a.run calls).Sound ∧ a.store.Keeps (a.run calls).store := by
  induction calls generalizing a with
  | nil => exact ⟨ha, .refl _⟩
  | cons call calls ih =>
    obtain ⟨hknown, hcalls⟩ := h
    obtain ⟨hafter, hkeeps⟩ := ha.after hknown
    obtain ⟨hrun, hkeeps'⟩ := ih hafter hcalls
    exact ⟨hrun, hkeeps.trans hkeeps'⟩

theorem sound_start : Sound {} :=
  ⟨Store.forest_empty, by simp, by simp⟩

end Session

/-! ## Forests -/

section

variable {s : Store}

theorem Store.getElem_nodes {i : Nat} (h : i < s.nodes.size) : s.nodes[i] = s.get i := by
  simp [Store.get, Array.getD, h]

/-- The nodes that a node refers to are different ones. -/
theorem Store.Forest.children_nodup (hs : s.Forest) (id : NodeId) : (s.get id).children.Nodup := by
  cases hn : s.get id with
  | array length e => exact List.nodup_singleton e
  | struct members =>
    have hnames := hs.names_nodup hn
    have hchild : ∀ m ∈ members, (s.get id).child? (.member m.1) = some m.2 := by
      intro m hm
      rw [hn]
      exact Lookup.lookup_of_mem hnames hm
    -- members that lead to one node have one name
    refine List.Nodup.map_on ?_ (List.Nodup.of_map _ hnames)
    intro m hm m' hm' heq
    have hc := hchild m hm
    rw [heq] at hc
    exact Prod.ext (Step.member.inj (hs.parent_unique hc (hchild m' hm')).2) heq
  | _ => exact List.nodup_nil

/-- The nodes that are referred to are nodes of the store. -/
theorem Store.Forest.children_lt (hs : s.Forest) : ∀ n ∈ s.nodes, ∀ c ∈ n.children, c < s.size := by
  intro n hn c hc
  obtain ⟨i, hi, rfl⟩ := Array.getElem_of_mem hn
  rw [Store.getElem_nodes] at hc
  obtain ⟨σ, hσ⟩ := (Store.mem_children_iff hs).1 hc
  exact hs.child_lt hσ

/-- No node is referred to twice. -/
theorem Store.Forest.flatMap_children_nodup (hs : s.Forest) :
    (s.nodes.toList.flatMap Node.children).Nodup := by
  have hget : ∀ i (h : i < s.nodes.toList.length), s.nodes.toList[i] = s.get i := by
    intro i h
    rw [Array.getElem_toList, Store.getElem_nodes]
  rw [List.nodup_flatMap]
  refine ⟨?_, List.pairwise_iff_getElem.2 ?_⟩
  · intro n hn
    obtain ⟨i, hi, rfl⟩ := List.getElem_of_mem hn
    rw [hget i hi]
    exact hs.children_nodup i
  · -- a node that two nodes refer to would have two parents
    intro i j hi hj hlt c hc hc'
    rw [hget] at hc hc'
    obtain ⟨σ, hσ⟩ := (Store.mem_children_iff hs).1 hc
    obtain ⟨τ, hτ⟩ := (Store.mem_children_iff hs).1 hc'
    exact Nat.ne_of_lt hlt (hs.parent_unique hσ hτ).1

end

/-- However calls follow each other, whether they have results or fail: calls are about nodes of the
store, all nodes that are referred to are nodes of the store, no path leads back to where it starts,
no node is referred to twice, and different paths from a node lead to different nodes. -/
theorem session_forest {calls : List Session.Call} (h : Session.Allows {} calls) {a : Session}
    (ha : Session.run {} calls = a) :
    (∀ id, a.Known id → id < a.store.size) ∧
      (∀ n ∈ a.store.nodes, ∀ c ∈ n.children, c < a.store.size) ∧
      (∀ id p, a.store.follow id p = some id → p = []) ∧
      (a.store.nodes.toList.flatMap Node.children).Nodup ∧
      ∀ root p q id, a.store.follow root p = some id → a.store.follow root q = some id →
        p = q := by
  subst ha
  obtain ⟨ha, _⟩ := Session.sound_start.run h
  exact ⟨fun id hid => ha.known_lt hid, ha.forest.children_lt,
    fun id p => ha.forest.eq_nil_of_follow_self, ha.forest.flatMap_children_nodup,
    fun root p q id => ha.forest.follow_unique⟩

/-- Calls that find an array of structs and another struct in an input. -/
def findingCalls : List Session.Call :=
  [.newRoot,
    .narrow 0 { accessors := [.member "xs", .index "0", .member "a"] } .string (some 8),
    .resolve 0 { accessors := [.member "xs", .index "1"] },
    .narrow 2 { accessors := [.member "b"] } .uint none,
    .resolve 0 { accessors := [.member "y"] },
    .narrow 5 { accessors := [.member "c", .member "d"] } .string none,
    .narrow 5 { accessors := [.member "b"] } .bool none]

/-- The structs do not agree in their last member; what comes before it is carried over. -/
def clashingCall : Session.Call := .unify 2 5 "xs[]"

theorem allows_findingCalls : Session.Allows {} findingCalls := by
  have hgiven : ∀ {a : Session} {id : NodeId}, id ∈ a.given → ∀ x ∈ [id], a.Known x := by
    intro a id hid x hx
    rw [List.mem_singleton.1 hx]
    exact ⟨id, hid, [], rfl⟩
  refine ⟨by simp [Session.Call.nodes], hgiven ?_, hgiven ?_, hgiven ?_, hgiven ?_, hgiven ?_,
    hgiven ?_, trivial⟩
  all_goals decide +kernel

/-- One node has been given back, the other one lies in the input. -/
theorem allows_clashingCall : (Session.run {} findingCalls).Allows [clashingCall] := by
  refine ⟨List.forall_mem_cons.2 ⟨⟨2, ?_, [], rfl⟩,
    List.forall_mem_singleton.2 ⟨0, ?_, [.member "y"], ?_⟩⟩, trivial⟩
  all_goals decide +kernel

/-- A call that fails halfway, and leaves two new nodes behind. -/
theorem session_forest_clash :
    ∃ a e s', Session.run {} findingCalls = a ∧ unify 2 5 "xs[]" a.store = .error e s' ∧
      a.store.size + 2 = s'.size ∧ (∀ n ∈ s'.nodes, ∀ c ∈ n.children, c < s'.size) ∧
      (s'.nodes.toList.flatMap Node.children).Nodup := by
  obtain ⟨_, hbounds, _, hnodup, _⟩ := session_forest
    (Session.allows_append.2 ⟨allows_findingCalls, allows_clashingCall⟩) rfl
  exact ⟨_, _, _, rfl, rfl, by decide +kernel, hbounds, hnodup⟩

/-! ## Growth -/

/-- However calls go on, and also where they fail: nodes of a known kind keep their kind, lengths
stay and do not fall, arrays keep their elements and structs their members, in order and before new
ones, and every path that has been resolved is resolved to the same node again. -/
theorem session_keeps {calls later : List Session.Call} {a b : Session}
    (h : Session.Allows {} calls) (ha : Session.run {} calls = a) (h' : a.Allows later)
    (hb : a.run later = b) :
    a.store.size ≤ b.store.size ∧
      (∀ id < a.store.size, (a.store.get id).Keeps (b.store.get id)) ∧
      ∀ r ∈ a.resolved, resolveNode r.root r.path b.store = .ok r.node b.store := by
  subst ha hb
  obtain ⟨hsound, _⟩ := Session.sound_start.run h
  obtain ⟨_, hkeeps⟩ := hsound.run h'
  refine ⟨hkeeps.size_le, hkeeps.node, ?_⟩
  -- a path that was resolved is there, and stays where it is
  intro r hr
  obtain ⟨horigin, hfollow⟩ := hsound.resolved r hr
  exact resolveNode_of_follow horigin (hkeeps.follow hfollow)

theorem session_keeps_clash :
    ∃ a b, Session.run {} findingCalls = a ∧ a.run [clashingCall] = b ∧
      a.store.size + 2 = b.store.size ∧
      (∀ id < a.store.size, (a.store.get id).Keeps (b.store.get id)) ∧
      resolveNode 0 { accessors := [.member "xs", .index "1"] } b.store = .ok 2 b.store := by
  obtain ⟨_, hnodes, hresolved⟩ :=
    session_keeps allows_findingCalls rfl allows_clashingCall rfl
  refine ⟨_, _, rfl, rfl, by decide +kernel, hnodes, ?_⟩
  exact hresolved ⟨0, { accessors := [.member "xs", .index "1"] }, 2⟩ (by decide +kernel)

end Types
end Stencil
