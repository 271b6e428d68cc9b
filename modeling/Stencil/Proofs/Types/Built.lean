import Stencil.Proofs.Types.Unification

/-!
# The stores that inference builds

* `Leaves`      : the store that a computation leaves behind, also where it fails;
* `Store.Built` : the stores that are built from new roots by requests and unification, in any order
  and about any nodes.

All of them are forests (`Built.forest`).
-/

namespace Stencil
namespace Types

/-- A computation leaves a store behind, with a result or where it failed. -/
def Leaves {α : Type} (m : Inference α) (s s' : Store) : Prop :=
  (∃ a, m s = .ok a s') ∨ ∃ e, m s = .error e s'

theorem Advances.forest_of_leaves {α : Type} {m : Inference α} {s s' : Store}
    {post : α → Store → Prop} (h : Advances s post (m s)) (hleaves : Leaves m s s') :
    s'.Forest := by
  rcases hleaves with ⟨a, hrun⟩ | ⟨e, hrun⟩
  · rw [hrun] at h
    exact h.1
  · rw [hrun] at h
    exact h.1

namespace Store

/-- A store made from new roots by narrowing, resolving and unifying nodes of it. -/
inductive Built : Store → Prop where
  | empty : Built {}
  | newRoot {s : Store} : Built s → Built s.newRoot.2
  | narrow {s s' : Store} {root : Nat} {path : AccessPath} {kind : Kind} {length : Option Nat} :
      Built s → root < s.size → Leaves (Types.narrow root path kind length) s s' → Built s'
  | resolveNode {s s' : Store} {root : Nat} {path : AccessPath} :
      Built s → root < s.size → Leaves (Types.resolveNode root path) s s' → Built s'
  | unify {s s' : Store} {target source : Nat} {path : String} :
      Built s → target < s.size → source < s.size → Leaves (Types.unify target source path) s s' →
        Built s'

variable {s : Store}

theorem forest_empty : Forest {} := by
  have hget : ∀ id, ({} : Store).get id = .unknown := fun id => get_of_size_le (Nat.zero_le id)
  refine ⟨?_, ?_, ?_, ?_⟩ <;> intros <;> simp_all

/-! ## New roots -/

theorem size_newRoot (s : Store) : s.newRoot.2.size = s.size + 1 := size_alloc s _

theorem newRoot_lt (s : Store) : s.newRoot.1 < s.newRoot.2.size := by
  rw [size_newRoot]
  exact Nat.lt_succ_self _

theorem get_newRoot (s : Store) : s.newRoot.2.get s.newRoot.1 = .struct [] := by
  simp [newRoot, alloc, get, size]

theorem get_newRoot_ne {id : NodeId} (h : id ≠ s.newRoot.1) :
    s.newRoot.2.get id = s.get id := by
  have hne : id ≠ s.nodes.size := h
  simp [newRoot, alloc, get, Array.getD_eq_getD_getElem?, Array.getElem?_push, hne]

/-- The children in a store with a new root are those that were there. -/
theorem child?_newRoot {id c : NodeId} {σ : Step}
    (h : (s.newRoot.2.get id).child? σ = some c) : (s.get id).child? σ = some c := by
  by_cases hid : id = s.newRoot.1
  · rw [hid, get_newRoot] at h
    cases σ <;> cases h
  · rw [get_newRoot_ne hid] at h
    exact h

theorem Forest.newRoot (hs : s.Forest) : s.newRoot.2.Forest where
  child_gt h := hs.child_gt (child?_newRoot h)
  child_lt h := by
    rw [size_newRoot]
    exact Nat.lt_succ_of_lt (hs.child_lt (child?_newRoot h))
  parent_unique hi hj := hs.parent_unique (child?_newRoot hi) (child?_newRoot hj)
  names_nodup := by
    intro id members hm
    by_cases hid : id = s.newRoot.1
    · rw [hid, get_newRoot] at hm
      cases hm
      exact List.nodup_nil
    · rw [get_newRoot_ne hid] at hm
      exact hs.names_nodup hm

theorem Built.forest (h : s.Built) : s.Forest := by
  induction h with
  | empty => exact forest_empty
  | newRoot _ ih => exact ih.newRoot
  | narrow _ hroot hleaves ih => exact (narrow_advances ih hroot _ _ _).forest_of_leaves hleaves
  | resolveNode _ hroot hleaves ih =>
    exact (resolveNode_advances ih hroot _).forest_of_leaves hleaves
  | unify _ ht hsource hleaves ih => exact (unify_advances _ ih ht hsource).forest_of_leaves hleaves

end Store
end Types
end Stencil
