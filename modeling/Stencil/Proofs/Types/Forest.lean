import Mathlib.Data.List.Induction
import Mathlib.Data.List.Nodup
import Mathlib.Tactic.Common
import Stencil.Proofs.Lookup
import Stencil.Types.Compare

/-!
# The store as a forest

Nodes refer to each other by number. A store is only ever extended in one way: what is known about
a node grows, and a node that was not in use becomes a child of it. So children have greater
numbers than their parents, and every node has at most one parent.

This file defines:

* `Step`, `Store.follow` : paths into a type, and the node that such a path leads to;
* `Label`                : what is known about a node itself, without the nodes inside it;
* `Forest`               : the invariant of a store.

The main facts are that a path between two nodes is unique (`Forest.follow_unique`) and that paths
are shorter than the store (`Forest.follow_length`).
-/

namespace Stencil

/-- One step into a type: to the elements of an array, or to a member of a struct. -/
inductive Step where
  | element
  | member (name : String)
  deriving DecidableEq, Repr

/-- The step into a type that an accessor takes; which element it picks makes no difference. -/
def Accessor.step : Accessor → Step
  | .index _ => .element
  | .member name => .member name

namespace Types

/-! ## Labels -/

/-- What is known about a node itself. -/
structure Label where
  kind : Option Kind
  length : Option Nat
  deriving DecidableEq, Repr

/-- The order of lengths: none below all, else by size. -/
def LengthLe (a b : Option Nat) : Prop :=
  ∀ n, a = some n → ∃ m, b = some m ∧ n ≤ m

theorem LengthLe.refl (a : Option Nat) : LengthLe a a := by
  intro n h
  exact ⟨n, h, Nat.le_refl n⟩

theorem LengthLe.trans {a b c : Option Nat} (hab : LengthLe a b) (hbc : LengthLe b c) :
    LengthLe a c := by
  intro n hn
  rcases hab n hn with ⟨m, hm, hnm⟩
  rcases hbc m hm with ⟨k, hk, hmk⟩
  exact ⟨k, hk, Nat.le_trans hnm hmk⟩

theorem LengthLe.antisymm {a b : Option Nat} (hab : LengthLe a b) (hba : LengthLe b a) :
    a = b := by
  cases a with
  | none =>
    cases b with
    | none => rfl
    | some m =>
      rcases hba m rfl with ⟨k, hk, _⟩
      cases hk
  | some n =>
    rcases hab n rfl with ⟨m, rfl, hnm⟩
    rcases hba m rfl with ⟨k, hk, hmk⟩
    cases hk
    rw [Nat.le_antisymm hnm hmk]

@[simp] theorem LengthLe.none_left (b : Option Nat) : LengthLe none b := by
  intro n h
  cases h

namespace Label

/-- The label of a node about which nothing is known. -/
def unknown : Label := ⟨none, none⟩

/-- What is known about a label holds for another one. -/
def Le (a b : Label) : Prop :=
  (∀ k, a.kind = some k → b.kind = some k) ∧ LengthLe a.length b.length

theorem Le.refl (a : Label) : a.Le a := by
  exact ⟨fun _ h => h, LengthLe.refl a.length⟩

theorem Le.trans {a b c : Label} (hab : a.Le b) (hbc : b.Le c) : a.Le c := by
  exact ⟨fun k h => hbc.1 k (hab.1 k h), hab.2.trans hbc.2⟩

theorem Le.antisymm {a b : Label} (hab : a.Le b) (hba : b.Le a) : a = b := by
  rcases a with ⟨ka, la⟩
  rcases b with ⟨kb, lb⟩
  have hk : ka = kb := Option.ext fun k => ⟨hab.1 k, hba.1 k⟩
  have hl : la = lb := hab.2.antisymm hba.2
  rw [hk, hl]

theorem unknown_le (a : Label) : unknown.Le a := by
  refine ⟨?_, LengthLe.none_left _⟩
  intro k h
  cases h

end Label

/-! ## Children and paths -/

namespace Node

/-- What is known about a node itself. -/
def label (n : Node) : Label := ⟨n.kind?, n.length?⟩

/-- The node that one step leads to. -/
def child? : Node → Step → Option NodeId
  | .array _ element, .element => some element
  | .struct members, .member name => members.lookup name
  | _, _ => none

@[simp] theorem child?_unknown (σ : Step) : Node.unknown.child? σ = none := by
  cases σ <;> rfl

@[simp] theorem child?_array_element (length : Option Nat) (e : NodeId) :
    (Node.array length e).child? .element = some e := rfl

@[simp] theorem child?_array_member (length : Option Nat) (e : NodeId) (name : String) :
    (Node.array length e).child? (.member name) = none := rfl

theorem child?_array_congr (a b : Option Nat) (e : NodeId) (σ : Step) :
    (Node.array a e).child? σ = (Node.array b e).child? σ := by
  cases σ <;> rfl

@[simp] theorem child?_struct_member (members : List (String × NodeId)) (name : String) :
    (Node.struct members).child? (.member name) = members.lookup name := rfl

@[simp] theorem child?_struct_element (members : List (String × NodeId)) :
    (Node.struct members).child? .element = none := rfl

theorem mem_children_of_child? {n : Node} {σ : Step} {c : NodeId} (h : n.child? σ = some c) :
    c ∈ n.children := by
  cases n with
  | array length element =>
    cases σ with
    | element =>
      cases h
      exact List.mem_cons_self
    | member name => cases h
  | struct members =>
    cases σ with
    | element => cases h
    | member name => exact List.mem_map.2 ⟨_, Lookup.mem_of_lookup h, rfl⟩
  | _ => cases σ <;> cases h

/-- A node with a child is an array or a struct, as the step asks. -/
theorem kind?_of_child? {n : Node} {a : Accessor} {c : NodeId} (h : n.child? a.step = some c) :
    n.kind? = some (match a with | .index _ => .array | .member _ => .struct) := by
  cases a with
  | index expr =>
    cases n with
    | array length element => rfl
    | _ => simp [Accessor.step, child?] at h
  | member name =>
    cases n with
    | struct members => rfl
    | _ => simp [Accessor.step, child?] at h

end Node

namespace Store

@[simp] theorem size_set (s : Store) (id : NodeId) (n : Node) : (s.set id n).size = s.size := by
  simp [set, size]

@[simp] theorem size_alloc (s : Store) (n : Node) : (s.alloc n).2.size = s.size + 1 := by
  simp [alloc, size]

@[simp] theorem alloc_fst (s : Store) (n : Node) : (s.alloc n).1 = s.size := rfl

theorem get_of_size_le {s : Store} {id : NodeId} (h : s.size ≤ id) : s.get id = .unknown := by
  have h' : ¬ id < s.nodes.size := by
    simpa [size] using h
  simp [get, Array.getD, h']

theorem get_set_self {s : Store} {id : NodeId} {n : Node} (h : id < s.size) :
    (s.set id n).get id = n := by
  have h' : id < s.nodes.size := h
  simp [get, set, Array.getD_eq_getD_getElem?, h']

theorem get_set_ne {s : Store} {id j : NodeId} {n : Node} (h : j ≠ id) :
    (s.set id n).get j = s.get j := by
  simp [get, set, Array.getD_eq_getD_getElem?, Array.getElem?_setIfInBounds_ne (Ne.symm h)]

theorem get_alloc_unknown (s : Store) (j : NodeId) : (s.alloc .unknown).2.get j = s.get j := by
  simp only [get, alloc, Array.getD_eq_getD_getElem?, Array.getElem?_push]
  by_cases h : j = s.nodes.size
  · simp [h]
  · simp [h]

/-- A node with a child is in use. -/
theorem lt_size_of_child? {s : Store} {id c : NodeId} {σ : Step}
    (h : (s.get id).child? σ = some c) : id < s.size := by
  by_contra hlt
  rw [get_of_size_le (Nat.le_of_not_lt hlt)] at h
  simp at h

/-- A node of a known kind is in use. -/
theorem lt_size_of_kind? {s : Store} {id : NodeId} {k : Kind}
    (h : (s.get id).kind? = some k) : id < s.size := by
  by_contra hlt
  rw [get_of_size_le (Nat.le_of_not_lt hlt)] at h
  cases h

/-- The node that a path leads to. -/
def follow (s : Store) : NodeId → List Step → Option NodeId
  | id, [] => some id
  | id, σ :: rest => ((s.get id).child? σ).bind fun child => s.follow child rest

@[simp] theorem follow_nil (s : Store) (id : NodeId) : s.follow id [] = some id := rfl

theorem follow_cons {s : Store} {id j : NodeId} {σ : Step} {p : List Step} :
    s.follow id (σ :: p) = some j ↔
      ∃ c : Nat, (s.get id).child? σ = some c ∧ s.follow c p = some j := by
  simp [follow, Option.bind_eq_some_iff]

theorem follow_append {s : Store} {id j : NodeId} {p q : List Step} :
    s.follow id (p ++ q) = some j ↔
      ∃ k : Nat, s.follow id p = some k ∧ s.follow k q = some j := by
  induction p generalizing id with
  | nil => simp
  | cons σ p ih =>
    rw [List.cons_append, follow_cons]
    constructor
    · rintro ⟨c, hc, hj⟩
      rcases ih.1 hj with ⟨k, hk, hkj⟩
      exact ⟨k, follow_cons.2 ⟨c, hc, hk⟩, hkj⟩
    · rintro ⟨k, hk, hkj⟩
      rcases follow_cons.1 hk with ⟨c, hc, hck⟩
      exact ⟨c, hc, ih.2 ⟨k, hck, hkj⟩⟩

theorem follow_concat {s : Store} {id j : NodeId} {p : List Step} {σ : Step} :
    s.follow id (p ++ [σ]) = some j ↔
      ∃ k : Nat, s.follow id p = some k ∧ (s.get k).child? σ = some j := by
  rw [follow_append]
  simp [follow_cons]

/-! ## The invariant -/

/-- Children have greater numbers than their parents, every node has at most one parent, and the
members of a struct have different names. -/
structure Forest (s : Store) : Prop where
  child_gt : ∀ {id c : Nat} {σ}, (s.get id).child? σ = some c → id < c
  child_lt : ∀ {id c : Nat} {σ}, (s.get id).child? σ = some c → c < s.size
  parent_unique : ∀ {i j c σ τ}, (s.get i).child? σ = some c → (s.get j).child? τ = some c →
    i = j ∧ σ = τ
  names_nodup : ∀ {id members}, s.get id = .struct members → (members.map (·.1)).Nodup

namespace Forest

variable {s : Store}

/-- What holds of a node if it holds of its children, holds of all nodes. -/
@[elab_as_elim]
theorem inside_out (hs : s.Forest) {motive : Nat → Prop}
    (inside : ∀ id, (∀ {σ} {c : Nat}, (s.get id).child? σ = some c → motive c) → motive id)
    (id : Nat) : motive id := by
  -- numbers rise towards the inside, so the rest of the store above a node shrinks
  induction hn : s.size - id using Nat.strongRecOn generalizing id with
  | ind n ih =>
    refine inside id ?_
    intro σ c hc
    have hgt : id < c := hs.child_gt hc
    have hlt : c < s.size := hs.child_lt hc
    exact ih (s.size - c) (by omega) c rfl

/-- A path of `n` steps leads to a number that is greater by at least `n`. -/
theorem follow_length (hs : s.Forest) {id j : Nat} {p : List Step}
    (h : s.follow id p = some j) : id + p.length ≤ j := by
  induction p generalizing id with
  | nil =>
    cases h
    simp
  | cons σ p ih =>
    rcases follow_cons.1 h with ⟨c, hc, hj⟩
    have hlt := hs.child_gt hc
    have hle := ih hj
    simp only [List.length_cons]
    omega

theorem follow_lt (hs : s.Forest) {id j : Nat} {p : List Step} (hid : id < s.size)
    (h : s.follow id p = some j) : j < s.size := by
  induction p generalizing id with
  | nil =>
    cases h
    exact hid
  | cons σ p ih =>
    rcases follow_cons.1 h with ⟨c, hc, hj⟩
    exact ih (hs.child_lt hc) hj

/-- No path leads from a node back to it. -/
theorem eq_nil_of_follow_self (hs : s.Forest) {id : Nat} {p : List Step}
    (h : s.follow id p = some id) : p = [] := by
  have hle := hs.follow_length h
  exact List.eq_nil_of_length_eq_zero (by omega)

/-- There is only one path from a node to another. -/
theorem follow_unique (hs : s.Forest) {id j : NodeId} {p q : List Step}
    (hp : s.follow id p = some j) (hq : s.follow id q = some j) : p = q := by
  -- the last steps agree because `j` has one parent, so the induction runs from the end
  induction p using List.reverseRecOn generalizing q j with
  | nil =>
    cases hp
    exact (hs.eq_nil_of_follow_self hq).symm
  | append_singleton p σ ih =>
    rcases follow_concat.1 hp with ⟨k, hk, hkj⟩
    rcases List.eq_nil_or_concat q with rfl | ⟨q', τ, rfl⟩
    · cases hq
      simpa using hs.eq_nil_of_follow_self hp
    · rw [List.concat_eq_append] at hq ⊢
      rcases follow_concat.1 hq with ⟨k', hk', hkj'⟩
      rcases hs.parent_unique hkj hkj' with ⟨rfl, rfl⟩
      rw [ih hk hk']

end Forest

end Store

end Types
end Stencil
