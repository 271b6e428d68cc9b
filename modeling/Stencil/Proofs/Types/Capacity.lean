import Mathlib.Algebra.GroupWithZero.Nat
import Mathlib.Algebra.Order.BigOperators.Group.List
import Mathlib.Algebra.Order.Group.Nat
import Stencil.Proofs.Types.Shape

/-!
# How much a type leaves room for

A type has finitely many places, so a store whose labels it bounds cannot grow for ever.

* `Shape.places`      : the paths into a type;
* `Store.knowledge`   : how much is known at some paths;
* `knowledge_lt`      : growth within a type adds to what is known;
* `knowledge_le_capacity` : a type bounds what can be known.

As a type is finite, it is not the same as a type inside it (`Shape.not_same_inside`).
-/

namespace Stencil
namespace Types

/-! ## Labels -/

/-- How much a length says. -/
def lengthWeight : Option Nat → Nat
  | none => 0
  | some n => n + 1

theorem LengthLe.weight_le {a b : Option Nat} (h : LengthLe a b) :
    lengthWeight a ≤ lengthWeight b := by
  cases a with
  | none => exact Nat.zero_le _
  | some n =>
    rcases h n rfl with ⟨m, rfl, hle⟩
    exact Nat.succ_le_succ hle

theorem lengthWeight_injective {a b : Option Nat} (h : lengthWeight a = lengthWeight b) : a = b := by
  cases a with
  | none =>
    cases b with
    | none => rfl
    | some m => cases h
  | some n =>
    cases b with
    | none => cases h
    | some m => rw [Nat.succ.inj h]

/-- How much a label says. -/
def Label.weight (l : Label) : Nat :=
  (if l.kind.isSome then 1 else 0) + lengthWeight l.length

theorem Label.Le.kind_weight_le {a b : Label} (h : a.Le b) :
    (if a.kind.isSome then 1 else 0) ≤ if b.kind.isSome then 1 else 0 := by
  cases hk : a.kind with
  | none => exact Nat.zero_le _
  | some k => simp [h.1 k hk]

theorem Label.Le.weight_le {a b : Label} (h : a.Le b) : a.weight ≤ b.weight :=
  Nat.add_le_add h.kind_weight_le h.2.weight_le

/-- A label above another one that says no more is the same. -/
theorem Label.Le.eq_of_weight_le {a b : Label} (h : a.Le b) (hw : b.weight ≤ a.weight) : a = b := by
  have hk := h.kind_weight_le
  have hl := h.2.weight_le
  unfold Label.weight at hw
  have hlength : a.length = b.length := lengthWeight_injective (by omega)
  have hkind : a.kind = b.kind := by
    cases ha : a.kind with
    | some k => exact (h.1 k ha).symm
    | none =>
      cases hb : b.kind with
      | none => rfl
      | some k =>
        simp only [ha, hb, Option.isSome_none, Option.isSome_some, Bool.false_eq_true, if_false,
          if_true] at hw hk
        omega
  rcases a with ⟨ka, la⟩
  rcases b with ⟨kb, lb⟩
  rw [show ka = kb from hkind, show la = lb from hlength]

/-! ## Places -/

namespace Shape

mutual

/-- The paths into a type. -/
def places : Shape → List (List Step)
  | .array _ element => [] :: element.places.map (.element :: ·)
  | .struct members => [] :: memberPlaces members
  | _ => [[]]

/-- The paths that start with one of the given members. -/
def memberPlaces : List (String × Shape) → List (List Step)
  | [] => []
  | (name, member) :: rest => member.places.map (.member name :: ·) ++ memberPlaces rest

end

theorem nil_mem_places (t : Shape) : [] ∈ t.places := by
  cases t <;> simp [places]

theorem mem_memberPlaces {members : List (String × Shape)} {name : String} {member : Shape}
    {p : List Step} (h : (name, member) ∈ members) (hp : p ∈ member.places) :
    .member name :: p ∈ memberPlaces members := by
  induction members with
  | nil => cases h
  | cons m members ih =>
    rw [memberPlaces]
    rcases List.mem_cons.1 h with rfl | h
    · exact List.mem_append_left _ (List.mem_map_of_mem hp)
    · exact List.mem_append_right _ (ih h)

theorem mem_places {t u : Shape} {p : List Step} (h : t.follow p = some u) : p ∈ t.places := by
  induction p generalizing t with
  | nil => exact nil_mem_places t
  | cons σ p ih =>
    rcases follow_cons.1 h with ⟨c, hc, hcu⟩
    have hp := ih hcu
    cases t with
    | array length element =>
      cases σ with
      | element =>
        cases hc
        rw [places]
        exact List.mem_cons_of_mem _ (List.mem_map_of_mem hp)
      | member name => cases hc
    | struct members =>
      cases σ with
      | element => cases hc
      | member name =>
        rw [places]
        exact List.mem_cons_of_mem _ (mem_memberPlaces (Lookup.mem_of_lookup hc) hp)
    | _ => cases hc

/-- The paths into a type are of bounded length. -/
theorem length_le_of_follow {t u : Shape} {p : List Step} (h : t.follow p = some u) :
    p.length ≤ (t.places.map List.length).sum :=
  List.single_le_sum (by simp) _ (List.mem_map_of_mem (mem_places h))

/-- A type that is the same as one inside it would go on for ever. -/
theorem not_same_inside {t u : Shape} {p : List Step} (hp : p ≠ []) (hu : t.follow p = some u) :
    ¬ t.Same u := by
  intro hsame
  -- going down the same path again and again gives paths of any length
  have hrepeat : ∀ n, ∃ q w, q.length = n * p.length ∧ t.follow q = some w ∧ w.Same t := by
    intro n
    induction n with
    | zero => exact ⟨[], t, by simp, follow_nil t, .refl t⟩
    | succ n ih =>
      rcases ih with ⟨q, w, hlength, hw, hwt⟩
      rcases hwt.symm.follow hu with ⟨w', hw', huw'⟩
      refine ⟨q ++ p, w', ?_, follow_append.2 ⟨w, hw, hw'⟩, (hsame.trans huw').symm⟩
      rw [List.length_append, hlength, Nat.succ_mul]
  rcases hrepeat ((t.places.map List.length).sum + 1) with ⟨q, w, hlength, hw, _⟩
  have hle := length_le_of_follow hw
  have hpos : 0 < p.length := List.length_pos_iff.2 hp
  have hmul := Nat.le_mul_of_pos_right ((t.places.map List.length).sum + 1) hpos
  omega

/-- How much can be known at a path within a type. -/
def capacityAt (t : Shape) (p : List Step) : Nat :=
  match t.follow p with
  | none => 0
  | some u => 1 + u.label.weight

/-- How much can be known within a type. -/
def capacity (t : Shape) : Nat := (t.places.map t.capacityAt).sum

end Shape

/-! ## What is known -/

/-- A node that has grown without saying more or getting children is as it was. -/
theorem Node.Grows.eq_of_label {fresh : Nat} {n n' : Node} (h : Node.Grows fresh n n')
    (hlabel : n.label = n'.label) (hold : ∀ c : Nat, c ∈ n'.children → c < fresh) : n = n' := by
  cases h with
  | unknown new =>
    cases n' with
    | unknown => rfl
    | _ => cases hlabel
  | @string a b h => exact congrArg Node.string (congrArg Label.length hlabel)
  | @uint a b h => exact congrArg Node.uint (congrArg Label.length hlabel)
  | @int a b h => exact congrArg Node.int (congrArg Label.length hlabel)
  | bool => rfl
  | @array a b e h => exact congrArg (Node.array · e) (congrArg Label.length hlabel)
  | @struct members extra new =>
    cases extra with
    | nil => simp
    | cons m extra =>
      have hge := new m List.mem_cons_self
      have hlt := hold m.2 (by simp [Node.children])
      omega

namespace Store

/-- How much is known at a path. -/
def knowledgeAt (s : Store) (root : NodeId) (p : List Step) : Nat :=
  match s.follow root p with
  | none => 0
  | some j => 1 + (s.get j).label.weight

/-- How much is known at some paths. -/
def knowledge (s : Store) (root : NodeId) (ps : List (List Step)) : Nat :=
  (ps.map (s.knowledgeAt root)).sum

variable {s s' : Store} {root : Nat} {ps : List (List Step)}

theorem knowledgeAt_le (h : s.Grows s') (p : List Step) :
    s.knowledgeAt root p ≤ s'.knowledgeAt root p := by
  unfold knowledgeAt
  cases hj : s.follow root p with
  | none => exact Nat.zero_le _
  | some j =>
    rw [h.follow hj]
    exact Nat.add_le_add_left (h.label_le j).weight_le 1

/-- A type bounds what can be known. -/
theorem knowledge_le_capacity {t : Shape} (h : s.BoundedBy root t.bound) :
    s.knowledge root t.places ≤ t.capacity := by
  refine List.sum_le_sum fun p _ => ?_
  unfold knowledgeAt Shape.capacityAt
  cases hj : s.follow root p with
  | none => exact Nat.zero_le _
  | some j =>
    rcases h p j hj with ⟨u, hu, hle⟩
    rw [hu]
    exact Nat.add_le_add_left hle.weight_le 1

/-- Growth adds to what is known, at one of the paths that lead to all nodes. -/
theorem knowledge_lt (h : s.Grows s') (hs : s.Forest) (hs' : s'.Forest) (hne : s' ≠ s)
    (hlt : root < s.size)
    (hroot : ∀ i : Nat, i < s'.size → ∃ p, s'.follow root p = some i)
    (hps : ∀ p j, s'.follow root p = some j → p ∈ ps) :
    s.knowledge root ps < s'.knowledge root ps := by
  refine List.sum_lt_sum _ _ (fun p _ => knowledgeAt_le h p) ?_
  by_contra hnone
  -- if no path gained anything, every path leads where it did, to the same label
  have hsame : ∀ p i, s'.follow root p = some i →
      s.follow root p = some i ∧ (s.get i).label = (s'.get i).label := by
    intro p i hi
    have hle : s'.knowledgeAt root p ≤ s.knowledgeAt root p := by
      by_contra hlt
      exact hnone ⟨p, hps p i hi, Nat.lt_of_not_le hlt⟩
    unfold knowledgeAt at hle
    rw [hi] at hle
    cases hj : s.follow root p with
    | none =>
      simp only [hj] at hle
      omega
    | some j =>
      have hij := h.follow hj
      rw [hi] at hij
      cases hij
      simp only [hj] at hle
      exact ⟨rfl, (h.label_le i).eq_of_weight_le (by omega)⟩
  -- a further node would lie at the end of some path
  have hsize : s'.size ≤ s.size := by
    by_contra hmore
    rcases hroot s.size (Nat.lt_of_not_le hmore) with ⟨p, hp⟩
    exact Nat.lt_irrefl _ (hs.follow_lt hlt (hsame p _ hp).1)
  have hget : ∀ id : Nat, id < s'.size → s.get id = s'.get id := by
    intro id hid
    rcases hroot id hid with ⟨p, hp⟩
    refine (h.node id (Nat.lt_of_lt_of_le hid hsize)).eq_of_label (hsame p id hp).2 ?_
    intro c hc
    rcases (mem_children_iff hs').1 hc with ⟨σ, hσ⟩
    exact Nat.lt_of_lt_of_le (hs'.child_lt hσ) hsize
  refine hne (Grows.antisymm ⟨hsize, ?_, ?_⟩ h)
  · intro id hid
    rw [hget id hid]
    exact .refl _ _
  · intro id hge hlt'
    exact absurd hlt' (Nat.not_lt_of_le (Nat.le_trans h.size_le hge))

end Store
end Types
end Stencil
