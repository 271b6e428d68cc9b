import Mathlib.Data.List.Perm.Subperm
import Stencil.Proofs.Types.Forest

/-!
# Acyclic stores

Lowering builds forests, but names and sizes make sense for any nodes of which none contains
itself, however they are numbered and shared. This file defines:

* `Acyclic`    : no path leads from a node back to it;
* `Closed`     : all nodes that are referred to are in use;
* `DeepEnough` : no path from a node is longer than some depth.

In an acyclic store, a path to a node in use is shorter than the store (`Acyclic.length_lt`), so that
computations down to that depth see all there is, and what holds of a node if it holds of its
children holds of all nodes (`Acyclic.inside_out`).
-/

namespace Stencil
namespace Types
namespace Store

/-- No node contains itself, and the members of a struct have different names. -/
structure Acyclic (s : Store) : Prop where
  no_cycle : ∀ {id : NodeId} {p : List Step}, s.follow id p = some id → p = []
  names_nodup : ∀ {id members}, s.get id = .struct members → (members.map (·.1)).Nodup

/-- All nodes that are referred to are in use. -/
def Closed (s : Store) : Prop :=
  ∀ id σ c, (s.get id).child? σ = some c → c < s.size

variable {s : Store} {id c j : NodeId} {p : List Step} {d : Nat}

theorem Forest.closed (hs : s.Forest) : s.Closed := fun _ _ _ => hs.child_lt

theorem Forest.acyclic (hs : s.Forest) : s.Acyclic where
  no_cycle := hs.eq_nil_of_follow_self
  names_nodup := hs.names_nodup

/-- Nodes that refer to smaller numbers only do not contain themselves, also where they share the
nodes that they refer to. -/
theorem acyclic_of_descending (hchild : ∀ id < s.size, ∀ c ∈ (s.get id).children, c < id)
    (hnames : ∀ id members, s.get id = .struct members → (members.map (·.1)).Nodup) :
    s.Acyclic where
  no_cycle := by
    have hlength : ∀ p (id j : Nat), s.follow id p = some j → j + p.length ≤ id := by
      intro p
      induction p with
      | nil =>
        rintro id j ⟨⟩
        exact Nat.le_refl _
      | cons σ p ih =>
        intro id j h
        obtain ⟨c, hc, hj⟩ := follow_cons.1 h
        have hlt : c < id := hchild id (lt_size_of_child? hc) c (Node.mem_children_of_child? hc)
        have hle := ih c j hj
        rw [List.length_cons]
        omega
    intro id p h
    have hle : id + p.length ≤ id + 0 := hlength p id id h
    exact List.eq_nil_of_length_eq_zero (Nat.le_zero.1 (Nat.le_of_add_le_add_left hle))
  names_nodup := hnames _ _

/-! ## Paths -/

/-- The nodes along a path are different ones. -/
theorem Acyclic.exists_nodes (hs : s.Acyclic) (h : s.follow id p = some j) (hj : j < s.size) :
    ∃ nodes : List NodeId, nodes.length = p.length + 1 ∧ nodes.Nodup ∧
      ∀ n ∈ nodes, n < s.size ∧ ∃ q, s.follow id q = some n := by
  induction p generalizing id with
  | nil =>
    cases h
    refine ⟨[j], rfl, List.nodup_singleton j, ?_⟩
    intro n hn
    rw [List.mem_singleton.1 hn]
    exact ⟨hj, [], rfl⟩
  | cons σ p ih =>
    obtain ⟨c, hc, hcj⟩ := follow_cons.1 h
    obtain ⟨nodes, hlength, hnodup, hnodes⟩ := ih hcj
    refine ⟨id :: nodes, by rw [List.length_cons, List.length_cons, hlength], ?_, ?_⟩
    · refine List.nodup_cons.2 ⟨?_, hnodup⟩
      intro hmem
      obtain ⟨_, q, hq⟩ := hnodes id hmem
      -- the path would lead back to where it starts
      cases hs.no_cycle (follow_cons.2 ⟨c, hc, hq⟩)
    · intro n hn
      obtain rfl | hn := List.mem_cons.1 hn
      · exact ⟨lt_size_of_child? hc, [], rfl⟩
      · obtain ⟨hlt, q, hq⟩ := hnodes n hn
        exact ⟨hlt, σ :: q, follow_cons.2 ⟨c, hc, hq⟩⟩

/-- A path to a node in use is shorter than the store. -/
theorem Acyclic.length_lt (hs : s.Acyclic) (h : s.follow id p = some j) (hj : j < s.size) :
    p.length < s.size := by
  obtain ⟨nodes, hlength, hnodup, hnodes⟩ := hs.exists_nodes h hj
  have hsub : nodes ⊆ List.range s.size := fun n hn => List.mem_range.2 (hnodes n hn).1
  have hle := (List.subperm_of_subset hnodup hsub).length_le
  rw [List.length_range] at hle
  omega

/-! ## Depths -/

/-- All paths from a node to nodes in use are shorter than `d`. -/
def DeepEnough (s : Store) (d : Nat) (id : NodeId) : Prop :=
  ∀ p j, s.follow id p = some j → j < s.size → p.length < d

theorem Acyclic.deepEnough (hs : s.Acyclic) (id : NodeId) : s.DeepEnough s.size id :=
  fun _ _ => hs.length_lt

theorem DeepEnough.child (h : s.DeepEnough (d + 1) id) {σ : Step}
    (hc : (s.get id).child? σ = some c) : s.DeepEnough d c := by
  intro p j hj hlt
  have hlength := h (σ :: p) j (follow_cons.2 ⟨c, hc, hj⟩) hlt
  exact Nat.lt_of_succ_lt_succ hlength

theorem DeepEnough.inside (h : s.DeepEnough d id) (hp : s.follow id p = some c) :
    s.DeepEnough d c := by
  intro q j hj hlt
  have hlength := h (p ++ q) j (follow_append.2 ⟨c, hp, hj⟩) hlt
  rw [List.length_append] at hlength
  omega

/-- A node that is too deep is none. -/
theorem DeepEnough.get_of_zero (h : s.DeepEnough 0 id) : s.get id = .unknown := by
  refine get_of_size_le ?_
  by_contra hlt
  exact absurd (h [] id rfl (Nat.lt_of_not_le hlt)) (Nat.not_lt_zero _)

/-- What holds of a node if it holds of its children, holds of all nodes. -/
@[elab_as_elim]
theorem Acyclic.inside_out (hs : s.Acyclic) {motive : NodeId → Prop}
    (inside : ∀ id, (∀ {σ c}, (s.get id).child? σ = some c → motive c) → motive id)
    (id : NodeId) : motive id := by
  -- each child needs one level less than its parent
  suffices hdepth : ∀ d id, s.DeepEnough d id → motive id from hdepth _ id (hs.deepEnough id)
  intro d
  induction d with
  | zero =>
    intro id hd
    refine inside id ?_
    intro σ c hc
    rw [hd.get_of_zero, Node.child?_unknown] at hc
    cases hc
  | succ d ih =>
    intro id hd
    exact inside id fun hc => ih _ (hd.child hc)

/-- What can be asked of a struct by its members can be asked of them by name. -/
theorem Acyclic.child?_of_mem (hs : s.Acyclic) {members : List (String × NodeId)}
    (hn : s.get id = .struct members) {m : String × NodeId} (hm : m ∈ members) :
    (s.get id).child? (.member m.1) = some m.2 := by
  rw [hn]
  exact Lookup.lookup_of_mem (hs.names_nodup hn) hm

end Store
end Types
end Stencil
