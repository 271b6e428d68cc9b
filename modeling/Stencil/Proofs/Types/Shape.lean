import Stencil.Proofs.Types.Acyclic
import Stencil.Proofs.Types.Bound

/-!
# Types as finite trees

A node of the store stands for a type: the tree of all that is known about it. This file defines:

* `Shape`       : such a tree;
* `Shape.Le`    : the order by what is known, place by place, so that the order of the members of a
  struct makes no difference;
* `Store.shape` : the tree of a node.

The order is the one of the recursive description (`Shape.le_iff`): nothing known is below all; kinds
agree, lengths rise, elements and members are below those of the same name. A type bounds what
unification may find out (`Shape.bound`).
-/

namespace Stencil
namespace Types

/-- A type as a tree. -/
inductive Shape where
  | unknown
  | string (length : Option Nat)
  | uint (length : Option Nat)
  | int (length : Option Nat)
  | bool
  | array (length : Option Nat) (element : Shape)
  | struct (members : List (String × Shape))
  deriving Repr

namespace Shape

/-- What is known at the root of a type. -/
def label : Shape → Label
  | .unknown => ⟨none, none⟩
  | .string length => ⟨some .string, length⟩
  | .uint length => ⟨some .uint, length⟩
  | .int length => ⟨some .int, length⟩
  | .bool => ⟨some .bool, none⟩
  | .array length _ => ⟨some .array, length⟩
  | .struct _ => ⟨some .struct, none⟩

/-- The type that one step leads to. -/
def child? : Shape → Step → Option Shape
  | .array _ element, .element => some element
  | .struct members, .member name => members.lookup name
  | _, _ => none

/-- The type that a path leads to. -/
def follow : Shape → List Step → Option Shape
  | t, [] => some t
  | t, σ :: rest => (t.child? σ).bind fun child => child.follow rest

@[simp] theorem follow_nil (t : Shape) : t.follow [] = some t := by
  cases t <;> rfl

theorem follow_cons_eq (t : Shape) (σ : Step) (p : List Step) :
    t.follow (σ :: p) = (t.child? σ).bind fun c => c.follow p := by
  cases t <;> rfl

theorem follow_cons {t u : Shape} {σ : Step} {p : List Step} :
    t.follow (σ :: p) = some u ↔ ∃ c, t.child? σ = some c ∧ c.follow p = some u := by
  rw [follow_cons_eq, Option.bind_eq_some_iff]

theorem follow_append {t u : Shape} {p q : List Step} :
    t.follow (p ++ q) = some u ↔ ∃ c, t.follow p = some c ∧ c.follow q = some u := by
  induction p generalizing t with
  | nil => simp
  | cons σ p ih =>
    rw [List.cons_append, follow_cons]
    constructor
    · rintro ⟨c, hc, hu⟩
      rcases ih.1 hu with ⟨d, hd, hdu⟩
      exact ⟨d, follow_cons.2 ⟨c, hc, hd⟩, hdu⟩
    · rintro ⟨d, hd, hdu⟩
      rcases follow_cons.1 hd with ⟨c, hc, hcd⟩
      exact ⟨c, hc, ih.2 ⟨d, hcd, hdu⟩⟩

/-! ## The order -/

/-- All that one type says about a place, another one says too. -/
def Le (a b : Shape) : Prop :=
  ∀ p x, a.follow p = some x → ∃ y, b.follow p = some y ∧ x.label.Le y.label

/-- The same type up to the order of members. -/
def Same (a b : Shape) : Prop := a.Le b ∧ b.Le a

theorem Le.refl (a : Shape) : a.Le a := by
  intro p x hx
  exact ⟨x, hx, Label.Le.refl _⟩

theorem Le.trans {a b c : Shape} (hab : a.Le b) (hbc : b.Le c) : a.Le c := by
  intro p x hx
  rcases hab p x hx with ⟨y, hy, hxy⟩
  rcases hbc p y hy with ⟨z, hz, hyz⟩
  exact ⟨z, hz, hxy.trans hyz⟩

theorem Same.refl (a : Shape) : a.Same a := ⟨Le.refl a, Le.refl a⟩

theorem Same.symm {a b : Shape} (h : a.Same b) : b.Same a := ⟨h.2, h.1⟩

theorem Same.trans {a b c : Shape} (hab : a.Same b) (hbc : b.Same c) : a.Same c :=
  ⟨hab.1.trans hbc.1, hbc.2.trans hab.2⟩

/-- The order of types, one level at a time. -/
theorem le_iff {a b : Shape} :
    a.Le b ↔ a.label.Le b.label ∧
      ∀ σ x, a.child? σ = some x → ∃ y, b.child? σ = some y ∧ x.Le y := by
  constructor
  · intro h
    refine ⟨?_, ?_⟩
    · rcases h [] a (follow_nil a) with ⟨y, hy, hle⟩
      rw [follow_nil] at hy
      cases hy
      exact hle
    · intro σ x hx
      rcases h [σ] x (follow_cons.2 ⟨x, hx, follow_nil x⟩) with ⟨y, hy, _⟩
      rcases follow_cons.1 hy with ⟨y', hchild, _⟩
      refine ⟨y', hchild, ?_⟩
      intro p z hz
      -- paths through `σ` are what `h` says about longer paths
      rcases h (σ :: p) z (follow_cons.2 ⟨x, hx, hz⟩) with ⟨w, hw, hle⟩
      rcases follow_cons.1 hw with ⟨y'', hchild', hw'⟩
      rw [hchild] at hchild'
      cases hchild'
      exact ⟨w, hw', hle⟩
  · rintro ⟨hlabel, hchild⟩ p x hx
    cases p with
    | nil =>
      rw [follow_nil] at hx
      cases hx
      exact ⟨b, follow_nil b, hlabel⟩
    | cons σ p =>
      rcases follow_cons.1 hx with ⟨c, hc, hcx⟩
      rcases hchild σ c hc with ⟨d, hd, hle⟩
      rcases hle p x hcx with ⟨y, hy, hxy⟩
      exact ⟨y, follow_cons.2 ⟨d, hd, hy⟩, hxy⟩

theorem Same.label_eq {a b : Shape} (h : a.Same b) : a.label = b.label :=
  (le_iff.1 h.1).1.antisymm (le_iff.1 h.2).1

/-- The same types have the same types inside. -/
theorem Same.child {a b x : Shape} {σ : Step} (h : a.Same b) (hx : a.child? σ = some x) :
    ∃ y, b.child? σ = some y ∧ x.Same y := by
  rcases (le_iff.1 h.1).2 σ x hx with ⟨y, hy, hxy⟩
  rcases (le_iff.1 h.2).2 σ y hy with ⟨x', hx', hyx⟩
  rw [hx] at hx'
  cases hx'
  exact ⟨y, hy, hxy, hyx⟩

/-- Being the same type, one level at a time. -/
theorem same_iff {a b : Shape} :
    a.Same b ↔ a.label = b.label ∧ (∀ σ, (a.child? σ).isSome = (b.child? σ).isSome) ∧
      ∀ σ x y, a.child? σ = some x → b.child? σ = some y → x.Same y := by
  constructor
  · intro h
    refine ⟨h.label_eq, ?_, ?_⟩
    · intro σ
      rw [Bool.eq_iff_iff, Option.isSome_iff_exists, Option.isSome_iff_exists]
      constructor
      · rintro ⟨x, hx⟩
        obtain ⟨y, hy, _⟩ := h.child hx
        exact ⟨y, hy⟩
      · rintro ⟨y, hy⟩
        obtain ⟨x, hx, _⟩ := h.symm.child hy
        exact ⟨x, hx⟩
    · intro σ x y hx hy
      obtain ⟨y', hy', hsame⟩ := h.child hx
      rw [hy] at hy'
      cases hy'
      exact hsame
  · rintro ⟨hlabel, hsome, hchild⟩
    refine ⟨le_iff.2 ⟨hlabel ▸ Label.Le.refl _, ?_⟩, le_iff.2 ⟨hlabel ▸ Label.Le.refl _, ?_⟩⟩
    · intro σ x hx
      obtain ⟨y, hy⟩ := Option.isSome_iff_exists.1 ((hsome σ).symm.trans (by rw [hx]; rfl))
      exact ⟨y, hy, (hchild σ x y hx hy).1⟩
    · intro σ y hy
      obtain ⟨x, hx⟩ := Option.isSome_iff_exists.1 ((hsome σ).trans (by rw [hy]; rfl))
      exact ⟨x, hx, (hchild σ x y hx hy).2⟩

theorem Same.follow {a b x : Shape} {p : List Step} (h : a.Same b) (hx : a.follow p = some x) :
    ∃ y, b.follow p = some y ∧ x.Same y := by
  induction p generalizing a b with
  | nil =>
    rw [follow_nil] at hx
    cases hx
    exact ⟨b, follow_nil b, h⟩
  | cons σ p ih =>
    rcases follow_cons.1 hx with ⟨c, hc, hcx⟩
    rcases h.child hc with ⟨d, hd, hcd⟩
    rcases ih hcd hcx with ⟨y, hy, hxy⟩
    exact ⟨y, follow_cons.2 ⟨d, hd, hy⟩, hxy⟩

/-- The labels that a type allows at each path. -/
def bound (t : Shape) (p : List Step) (l : Label) : Prop :=
  ∃ u, t.follow p = some u ∧ l.Le u.label

theorem isBound (t : Shape) : Bound t.bound where
  unknown := by
    rintro p l ⟨u, hu, _⟩
    exact ⟨u, hu, Label.unknown_le _⟩
  kind_unique := by
    rintro p k k' l l' ⟨u, hu, hle⟩ ⟨u', hu', hle'⟩
    rw [hu] at hu'
    cases hu'
    have hk := hle.1 k rfl
    rw [hle'.1 k' rfl] at hk
    cases hk
    rfl
  kind := by
    rintro p k l ⟨u, hu, hle⟩
    exact ⟨u, hu, hle.1, LengthLe.none_left _⟩
  raise := by
    rintro p k l n ⟨u, hu, hle⟩ ⟨u', hu', hle'⟩
    rw [hu] at hu'
    cases hu'
    refine ⟨u, hu, hle.1, ?_⟩
    rcases hle'.2 n rfl with ⟨m, hm, hnm⟩
    cases l with
    | none => exact hle'.2
    | some k =>
      rcases hle.2 k rfl with ⟨m', hm', hkm⟩
      have heq : m' = m := by
        simpa [hm] using hm'.symm
      intro j hj
      cases hj
      refine ⟨m, hm, Nat.max_le.2 ⟨?_, hnm⟩⟩
      rw [← heq]
      exact hkm

end Shape

/-! ## The type of a node -/

namespace Store

/-- The type of a node, down to the given depth. -/
def shapeUpTo (s : Store) : Nat → NodeId → Shape
  | 0, _ => .unknown
  | depth + 1, id =>
    match s.get id with
    | .unknown => .unknown
    | .string length => .string length
    | .uint length => .uint length
    | .int length => .int length
    | .bool => .bool
    | .array length element => .array length (s.shapeUpTo depth element)
    | .struct members => .struct (members.map fun m => (m.1, s.shapeUpTo depth m.2))

def shape (s : Store) (id : NodeId) : Shape := s.shapeUpTo s.size id

variable {s : Store}

theorem mem_child? (hs : s.Forest) {id : NodeId} {members : List (String × NodeId)}
    (hm : s.get id = .struct members) {m : String × NodeId} (h : m ∈ members) :
    (s.get id).child? (.member m.1) = some m.2 :=
  hs.acyclic.child?_of_mem hm h

/-- Looking deeper than a node reaches makes no difference. -/
theorem Acyclic.shapeUpTo_eq (hs : s.Acyclic) {d d' : Nat} {id : NodeId} (hd : s.DeepEnough d id)
    (hd' : s.DeepEnough d' id) : s.shapeUpTo d id = s.shapeUpTo d' id := by
  induction d generalizing d' id with
  | zero =>
    cases d' with
    | zero => rfl
    | succ d' => simp [shapeUpTo, hd.get_of_zero]
  | succ d ih =>
    cases d' with
    | zero => simp [shapeUpTo, hd'.get_of_zero]
    | succ d' =>
      -- one level less is still enough for a child
      have hchild : ∀ {σ c}, (s.get id).child? σ = some c → s.shapeUpTo d c = s.shapeUpTo d' c :=
        fun hc => ih (hd.child hc) (hd'.child hc)
      cases hn : s.get id with
      | array length element =>
        simp only [shapeUpTo, hn]
        have helement : (s.get id).child? .element = some element := by
          rw [hn]
          rfl
        rw [hchild helement]
      | struct members =>
        simp only [shapeUpTo, hn]
        congr 1
        refine List.map_congr_left ?_
        intro m hm
        rw [hchild (hs.child?_of_mem hn hm)]
      | _ => simp only [shapeUpTo, hn]

/-- The type of a node, one level at a time. -/
theorem Acyclic.shape_eq (hs : s.Acyclic) (id : NodeId) :
    s.shape id =
      match s.get id with
      | .unknown => .unknown
      | .string length => .string length
      | .uint length => .uint length
      | .int length => .int length
      | .bool => .bool
      | .array length element => .array length (s.shape element)
      | .struct members => .struct (members.map fun m => (m.1, s.shape m.2)) := by
  -- one level more than the size of the store unfolds to the sizes that are asked for
  have hdeeper : s.DeepEnough (s.size + 1) id :=
    fun _ _ hj hlt => Nat.lt_succ_of_lt (hs.length_lt hj hlt)
  have hstep : s.shape id = s.shapeUpTo (s.size + 1) id :=
    hs.shapeUpTo_eq (hs.deepEnough id) hdeeper
  rw [hstep, shapeUpTo]
  rfl

theorem Acyclic.label_shape (hs : s.Acyclic) (id : NodeId) :
    (s.shape id).label = (s.get id).label := by
  rw [hs.shape_eq]
  cases s.get id <;> rfl

theorem Acyclic.child?_shape (hs : s.Acyclic) (id : NodeId) (σ : Step) :
    (s.shape id).child? σ = ((s.get id).child? σ).map s.shape := by
  rw [hs.shape_eq]
  cases hn : s.get id with
  | array length element => cases σ <;> rfl
  | struct members =>
    cases σ with
    | element => rfl
    | member name => exact Lookup.lookup_map s.shape members name
  | _ => cases σ <;> rfl

theorem Acyclic.follow_shape (hs : s.Acyclic) (id : NodeId) (p : List Step) :
    (s.shape id).follow p = (s.follow id p).map s.shape := by
  induction p generalizing id with
  | nil => simp
  | cons σ p ih =>
    rw [Shape.follow_cons_eq, hs.child?_shape, follow]
    cases (s.get id).child? σ with
    | none => rfl
    | some c => exact ih c

theorem shape_eq (hs : s.Forest) (id : Nat) :
    s.shape id =
      match s.get id with
      | .unknown => .unknown
      | .string length => .string length
      | .uint length => .uint length
      | .int length => .int length
      | .bool => .bool
      | .array length element => .array length (s.shape element)
      | .struct members => .struct (members.map fun m => (m.1, s.shape m.2)) :=
  hs.acyclic.shape_eq id

@[simp] theorem label_shape (hs : s.Forest) (id : Nat) :
    (s.shape id).label = (s.get id).label :=
  hs.acyclic.label_shape id

theorem follow_shape (hs : s.Forest) (id : Nat) (p : List Step) :
    (s.shape id).follow p = (s.follow id p).map s.shape :=
  hs.acyclic.follow_shape id p

/-- A type is above that of a node if it bounds all labels below the node. -/
theorem shape_le_iff (hs : s.Forest) {id : Nat} {t : Shape} :
    (s.shape id).Le t ↔ s.BoundedBy id t.bound := by
  constructor
  · intro h p j hj
    have hfollow : (s.shape id).follow p = some (s.shape j) := by
      rw [follow_shape hs, hj]
      rfl
    rcases h p _ hfollow with ⟨y, hy, hle⟩
    rw [label_shape hs] at hle
    exact ⟨y, hy, hle⟩
  · intro h p x hx
    rw [follow_shape hs] at hx
    rcases Option.map_eq_some_iff.1 hx with ⟨j, hj, rfl⟩
    rcases h p j hj with ⟨y, hy, hle⟩
    refine ⟨y, hy, ?_⟩
    rw [label_shape hs]
    exact hle

end Store

/-- What has got all that is known about a node has a type above that of the node. -/
theorem CoversAll.shape_le {s s' : Store} {target source : Nat}
    (h : CoversAll s s' target source) (hs : s.Forest) (hs' : s'.Forest) :
    (s.shape source).Le (s'.shape target) := by
  rw [Store.shape_le_iff hs]
  intro p j hj
  rcases h p j hj with ⟨i, hi, hle⟩
  refine ⟨s'.shape i, ?_, ?_⟩
  · rw [Store.follow_shape hs', hi]
    rfl
  · rw [Store.label_shape hs']
    exact hle

end Types
end Stencil
