import Stencil.Proofs.Types.Capacity
import Stencil.Proofs.Types.Demands

/-!
# Inference within a type

A type of the whole input says which paths can be followed and what may be asked at their ends. As
long as a store stays within such a type, whatever the type allows succeeds and stays within it:

* `Store.HasType s T id t` : the node lies where `T` has the type `t`;
* `narrow_within`, `resolveNode_within` : paths that the type has are followed;
* `unify_within_type`      : nodes of one type are unified.
-/

namespace Stencil
namespace Types

namespace Shape

variable {T t u : Shape} {P p : List Step}

/-- What a type allows below a place is what the type of the place allows. -/
theorem bound_append (hu : T.follow P = some u) (hsame : u.Same t) {l : Label} :
    T.bound (P ++ p) l ↔ t.bound p l := by
  constructor
  · rintro ⟨x, hx, hle⟩
    obtain ⟨u', hu', hux⟩ := follow_append.1 hx
    rw [hu] at hu'
    cases hu'
    obtain ⟨y, hy, hxy⟩ := hsame.1 p x hux
    exact ⟨y, hy, hle.trans hxy⟩
  · rintro ⟨y, hy, hle⟩
    obtain ⟨x, hx, hyx⟩ := hsame.2 p y hy
    exact ⟨x, follow_append.2 ⟨u, hu, hx⟩, hle.trans hyx⟩

end Shape

/-! ## Nodes and their types -/

/-- A node lies at a place where `T`, a type of the whole input, has the type `t`. -/
def Store.HasType (s : Store) (T : Shape) (id : NodeId) (t : Shape) : Prop :=
  ∃ P u, s.follow 0 P = some id ∧ T.follow P = some u ∧ u.Same t

namespace Store.HasType

variable {s : Store} {T t t' : Shape} {id : Nat}

theorem of_grows (h : s.HasType T id t) {s' : Store} (hgrows : s.Grows s') : s'.HasType T id t := by
  obtain ⟨P, u, hP, hrest⟩ := h
  exact ⟨P, u, hgrows.follow hP, hrest⟩

theorem trans (h : s.HasType T id t) (hsame : t.Same t') : s.HasType T id t' := by
  obtain ⟨P, u, hP, hu, hut⟩ := h
  exact ⟨P, u, hP, hu, hut.trans hsame⟩

/-- Below a node, types are those below its type. -/
theorem follow (h : s.HasType T id t) {p : List Step} {j : NodeId} {u : Shape}
    (hj : s.follow id p = some j) (hu : t.follow p = some u) : s.HasType T j u := by
  obtain ⟨P, v, hP, hv, hsame⟩ := h
  obtain ⟨w, hw, huw⟩ := hsame.symm.follow hu
  exact ⟨P ++ p, w, Store.follow_append.2 ⟨id, hP, hj⟩, Shape.follow_append.2 ⟨v, hv, hw⟩,
    huw.symm⟩

theorem lt_size (h : s.HasType T id t) (hs : s.Forest) (hpos : 0 < s.size) : id < s.size := by
  obtain ⟨P, _, hP, _⟩ := h
  exact hs.follow_lt hpos hP

/-- What is known below a node stays within its type, if all that is known stays within `T`. -/
theorem shape_le (h : s.HasType T id t) (hs : s.Forest) (hbounded : (s.shape 0).Le T) :
    (s.shape id).Le t := by
  obtain ⟨P, u, hP, hu, hsame⟩ := h
  refine Shape.Le.trans ?_ hsame.1
  rw [Store.shape_le_iff hs] at hbounded ⊢
  intro p j hj
  obtain ⟨w, hw, hle⟩ := hbounded (P ++ p) j (Store.follow_append.2 ⟨id, hP, hj⟩)
  obtain ⟨u', hu', hw'⟩ := Shape.follow_append.1 hw
  rw [hu] at hu'
  cases hu'
  exact ⟨w, hw', hle⟩

/-- No node lies inside another one of the same type: the type would lie inside itself. -/
theorem not_inside (hs : s.Forest) (hpos : 0 < s.size) {a b : Nat} (ha : s.HasType T a t)
    (hb : s.HasType T b t) (hne : a ≠ b) : s.contains a b = false := by
  rw [Bool.eq_false_iff]
  intro hcontains
  obtain ⟨r, hr⟩ := (Store.contains_iff hs (ha.lt_size hs hpos)).1 hcontains
  obtain ⟨P, u, hP, hu, hut⟩ := ha
  obtain ⟨Q, v, hQ, hv, hvt⟩ := hb
  rw [hs.follow_unique hQ (Store.follow_append.2 ⟨a, hP, hr⟩)] at hv
  obtain ⟨u', hu', huv⟩ := Shape.follow_append.1 hv
  rw [hu] at hu'
  cases hu'
  have hnil : r ≠ [] := by
    rintro rfl
    exact hne (Option.some.inj hr)
  exact Shape.not_same_inside hnil huv (hut.trans hvt.symm)

theorem separate (hs : s.Forest) (hpos : 0 < s.size) {a b : Nat} (ha : s.HasType T a t)
    (hb : s.HasType T b t) : s.Separate a b :=
  fun hne => ⟨not_inside hs hpos ha hb hne, not_inside hs hpos hb ha hne.symm⟩

end Store.HasType

/-! ## Paths -/

variable {s : Store} {T t : Shape} {id : Nat} {P : List Step}

/-- What a path from a node asks for, the type has if it has the end of the path. -/
theorem Shape.asks_within {v : Shape} (hv : T.follow P = some v) (hsame : v.Same t)
    {path : List Accessor} {last : Label} (hlast : t.bound (path.map Accessor.step) last)
    {p : List Step} {l : Label} (h : Asks last path p l) : T.bound (P ++ p) l := by
  obtain ⟨u, hu, hle⟩ := hlast
  exact (bound_append hv hsame).2 (bound_of_asks hu hle h)

/-- The context of a partial is found where the type has one. -/
theorem resolveNode_within (hs : s.Forest) (hpos : 0 < s.size) (hbound : s.BoundedBy 0 T.bound)
    (hid : s.HasType T id t) {path : AccessPath} (horigin : path.origin = .input) {u : Shape}
    (hu : t.follow (path.accessors.map Accessor.step) = some u) :
    ∃ j s', resolveNode id path s = .ok j s' ∧ s'.BoundedBy 0 T.bound := by
  obtain ⟨P, v, hP, hv, hsame⟩ := hid
  exact resolveNode_bounded T.typeBound hs hpos hbound hP path horigin
    (Shape.asks_within hv hsame ⟨u, hu, Label.unknown_le _⟩)

/-- What the type allows at the end of a path can be asked for. -/
theorem narrow_within (hs : s.Forest) (hpos : 0 < s.size) (hbound : s.BoundedBy 0 T.bound)
    (hid : s.HasType T id t) {path : AccessPath} {kind : Kind} {length : Option Nat}
    (hkind : path.origin = .input →
      t.bound (path.accessors.map Accessor.step) ⟨some kind, none⟩)
    (hlength : path.origin = .input → ∀ n, length = some (n + 1) →
      t.bound (path.accessors.map Accessor.step) ⟨some kind, some (n + 1)⟩) :
    ∃ s', narrow id path kind length s = .ok () s' ∧ s'.BoundedBy 0 T.bound := by
  obtain ⟨P, v, hP, hv, hsame⟩ := hid
  refine narrow_bounded T.typeBound hs hpos hbound hP path kind length ?_
  intro horigin
  refine Shape.asks_within hv hsame ?_
  cases length with
  | none => exact hkind horigin
  | some n =>
    cases n with
    | zero => exact hkind horigin
    | succ n => exact hlength horigin n rfl

/-! ## Unification -/

/-- Nodes of one type are unified. -/
theorem unify_within_type (hs : s.Forest) (hpos : 0 < s.size) (hbound : s.BoundedBy 0 T.bound)
    {target source : Nat} (htarget : s.HasType T target t) (hsource : s.HasType T source t)
    (path : String) :
    ∃ s', unify target source path s = .ok () s' ∧ s'.BoundedBy 0 T.bound := by
  have hseparate := Store.HasType.separate hs hpos htarget hsource
  obtain ⟨P, u, hP, hu, hut⟩ := htarget
  obtain ⟨Q, v, hQ, hv, hvt⟩ := hsource
  refine unify_bounded T.isBound path hs hpos hbound hP hQ ?_ hseparate
  intro p l hl
  exact (Shape.bound_append hu hut).2 ((Shape.bound_append hv hvt).1 hl)

end Types
end Stencil
