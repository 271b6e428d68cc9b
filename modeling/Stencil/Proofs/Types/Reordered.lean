import Stencil.Proofs.Types.Shape

/-!
# The order of members

The members of a struct come in the order in which they became known, which says nothing about the
data. This file defines:

* `Shape.Reordered` : types that differ in the order of members only;
* `Shape.Distinct`  : the members of a struct have different names.

The types of two nodes are such types if and only if they say the same about all places
(`Store.Acyclic.same_iff_reordered`).
-/

namespace Stencil
namespace Types

namespace Shape

mutual

/-- Types that differ only in the order in which structs, at any level, have their members. -/
inductive Reordered : Shape → Shape → Prop where
  | refl {a : Shape} : Reordered a a
  | array {length : Option Nat} {a b : Shape} :
      Reordered a b → Reordered (.array length a) (.array length b)
  | struct {ms ns : List (String × Shape)} :
      MembersReordered ms ns → Reordered (.struct ms) (.struct ns)

/-- Each member has a counterpart of its name, and none is left. -/
inductive MembersReordered : List (String × Shape) → List (String × Shape) → Prop where
  | nil : MembersReordered [] []
  | cons {name : String} {a b : Shape} {rest before after : List (String × Shape)} :
      Reordered a b → MembersReordered rest (before ++ after) →
        MembersReordered ((name, a) :: rest) (before ++ (name, b) :: after)

end

theorem Reordered.label_eq {a b : Shape} (h : a.Reordered b) : a.label = b.label := by
  cases h <;> rfl

/-- A type without anything inside it is all in its label. -/
theorem eq_of_label {a b : Shape} (h : a.label = b.label) (harray : a.label.kind ≠ some .array)
    (hstruct : a.label.kind ≠ some .struct) : a = b := by
  cases a with
  | array | struct => simp [label] at harray hstruct
  | unknown | string | uint | int | bool => cases b <;> simp_all [label]

/-! ## Members -/

/-- The names of members are the same ones in another order. -/
theorem MembersReordered.names_perm {ms ns : List (String × Shape)} (h : MembersReordered ms ns) :
    (ms.map (·.1)).Perm (ns.map (·.1)) := by
  induction ms generalizing ns with
  | nil =>
    cases h
    exact .nil
  | cons m rest ih =>
    cases h with
    | @cons name _ b _ before after _ hrest =>
      have hmiddle : (before ++ (name, b) :: after).Perm ((name, b) :: (before ++ after)) :=
        List.perm_middle
      exact ((ih hrest).cons name).trans (hmiddle.map Prod.fst).symm

/-- What is found under a name is found under it in another order too. -/
theorem MembersReordered.lookup {ms ns : List (String × Shape)} (h : MembersReordered ms ns)
    (hns : (ns.map (·.1)).Nodup) {name : String} {a : Shape} (ha : ms.lookup name = some a) :
    ∃ b, ns.lookup name = some b ∧ a.Reordered b := by
  induction ms generalizing ns with
  | nil => cases ha
  | cons m rest ih =>
    cases h with
    | @cons first c d _ before after hfirst hrest =>
      have hperm : (before ++ (first, d) :: after).Perm ((first, d) :: (before ++ after)) :=
        List.perm_middle
      obtain ⟨_, hns'⟩ := List.nodup_cons.1 ((hperm.map (·.1)).nodup hns)
      by_cases hname : name = first
      · subst hname
        rw [List.lookup_cons_self] at ha
        cases ha
        exact ⟨d, Lookup.lookup_of_mem hns (hperm.mem_iff.2 List.mem_cons_self), hfirst⟩
      · rw [List.lookup_cons, beq_false_of_ne hname] at ha
        obtain ⟨b, hb, hab⟩ := ih hrest hns' ha
        have hmem : (name, b) ∈ (first, d) :: (before ++ after) :=
          List.mem_cons_of_mem _ (Lookup.mem_of_lookup hb)
        exact ⟨b, Lookup.lookup_of_mem hns (hperm.mem_iff.2 hmem), hab⟩

/-- Members with different names are matched by their names. -/
theorem membersReordered_of_lookup {ms ns : List (String × Shape)}
    (hms : (ms.map (·.1)).Nodup) (hns : (ns.map (·.1)).Nodup)
    (hmatch : ∀ m ∈ ms, ∃ b, ns.lookup m.1 = some b ∧ m.2.Reordered b)
    (hback : ∀ n ∈ ns, n.1 ∈ ms.map (·.1)) : MembersReordered ms ns := by
  induction ms generalizing ns with
  | nil =>
    cases ns with
    | nil => exact .nil
    | cons n ns => cases hback n List.mem_cons_self
  | cons m rest ih =>
    obtain ⟨b, hb, hreordered⟩ := hmatch m List.mem_cons_self
    obtain ⟨before, after, rfl⟩ := List.append_of_mem (Lookup.mem_of_lookup hb)
    obtain ⟨hfirst, hrest⟩ := List.nodup_cons.1 hms
    -- without the counterpart of the first member, the names are still different
    have hperm : (before ++ (m.1, b) :: after).Perm ((m.1, b) :: (before ++ after)) :=
      List.perm_middle
    obtain ⟨hother, hns'⟩ := List.nodup_cons.1 ((hperm.map (·.1)).nodup hns)
    apply MembersReordered.cons hreordered
    apply ih hrest hns'
    · intro k hk
      obtain ⟨c, hc, hkc⟩ := hmatch k (List.mem_cons_of_mem _ hk)
      refine ⟨c, Lookup.lookup_of_mem hns' ?_, hkc⟩
      obtain heq | hmem := List.mem_cons.1 (hperm.mem_iff.1 (Lookup.mem_of_lookup hc))
      · exact absurd (List.mem_map.2 ⟨k, hk, (Prod.mk.inj heq).1⟩) hfirst
      · exact hmem
    · intro n hn
      obtain heq | hmem := List.mem_cons.1 (hback n (hperm.mem_iff.2 (List.mem_cons_of_mem _ hn)))
      · exact absurd (List.mem_map.2 ⟨n, hn, heq⟩) hother
      · exact hmem

/-! ## One level at a time -/

/-- The members of a struct have different names. -/
def Distinct (t : Shape) : Prop :=
  ∀ ms, t = .struct ms → (ms.map (·.1)).Nodup

theorem Reordered.distinct {a b : Shape} (h : a.Reordered b) (ha : a.Distinct) : b.Distinct := by
  rintro ns rfl
  cases h with
  | refl => exact ha ns rfl
  | struct hmembers => exact hmembers.names_perm.nodup_iff.1 (ha _ rfl)

/-- Types that differ in the order of members only, one level at a time. -/
theorem reordered_iff {a b : Shape} (ha : a.Distinct) (hb : b.Distinct) :
    a.Reordered b ↔ a.label = b.label ∧ (∀ σ, (a.child? σ).isSome = (b.child? σ).isSome) ∧
      ∀ σ x y, a.child? σ = some x → b.child? σ = some y → x.Reordered y := by
  constructor
  · intro h
    refine ⟨h.label_eq, ?_⟩
    cases h with
    | refl =>
      refine ⟨fun _ => rfl, ?_⟩
      intro σ x y hx hy
      rw [hx] at hy
      cases hy
      exact .refl
    | array helement =>
      refine ⟨fun σ => by cases σ <;> rfl, ?_⟩
      intro σ x y hx hy
      cases σ with
      | element =>
        cases hx
        cases hy
        exact helement
      | member name => cases hx
    | @struct ms ns hmembers =>
      refine ⟨?_, ?_⟩
      · intro σ
        cases σ with
        | element => rfl
        | member name =>
          rw [Bool.eq_iff_iff]
          exact Lookup.lookup_isSome.trans
            (hmembers.names_perm.mem_iff.trans Lookup.lookup_isSome.symm)
      · intro σ x y hx hy
        cases σ with
        | element => cases hx
        | member name =>
          obtain ⟨y', hy', hxy⟩ := hmembers.lookup (hb ns rfl) hx
          change ns.lookup name = some y at hy
          rw [hy] at hy'
          cases hy'
          exact hxy
  · rintro ⟨hlabel, hsome, hchild⟩
    cases a with
    | array length x =>
      cases b with
      | array length' y =>
        have hlength : length = length' := congrArg Label.length hlabel
        rw [hlength]
        exact .array (hchild .element x y rfl rfl)
      | _ => simp [label] at hlabel
    | struct ms =>
      cases b with
      | struct ns =>
        -- a name of one struct is found in the other one
        have hnames : ∀ name, name ∈ ms.map (·.1) ↔ name ∈ ns.map (·.1) := by
          intro name
          rw [← Lookup.lookup_isSome, ← Lookup.lookup_isSome]
          exact Bool.eq_iff_iff.1 (hsome (.member name))
        apply Reordered.struct
        apply membersReordered_of_lookup (ha ms rfl) (hb ns rfl)
        · intro m hm
          obtain ⟨y, hy⟩ := Lookup.exists_lookup_of_mem
            ((hnames m.1).1 (List.mem_map_of_mem hm))
          exact ⟨y, hy, hchild (.member m.1) m.2 y (Lookup.lookup_of_mem (ha ms rfl) hm) hy⟩
        · exact fun n hn => (hnames n.1).2 (List.mem_map_of_mem hn)
      | _ => simp [label] at hlabel
    | unknown | string | uint | int | bool =>
      have hleaf := eq_of_label hlabel (by simp [label]) (by simp [label])
      rw [hleaf]
      exact .refl

end Shape

namespace Store

variable {s s' : Store}

theorem Acyclic.distinct_shape (hs : s.Acyclic) (id : NodeId) : (s.shape id).Distinct := by
  intro ms h
  rw [hs.shape_eq] at h
  cases hn : s.get id with
  | struct members =>
    simp only [hn] at h
    cases h
    rw [List.map_map]
    exact hs.names_nodup hn
  | _ => simp [hn] at h

/-- Types of nodes say the same about all places if and only if they differ in the order of members
only. -/
theorem Acyclic.same_iff_reordered (hs : s.Acyclic) (hs' : s'.Acyclic) {a b : NodeId} :
    (s.shape a).Same (s'.shape b) ↔ (s.shape a).Reordered (s'.shape b) := by
  induction a using hs.inside_out generalizing b with
  | inside a ih =>
    -- the types inside are those of children, which the induction hypothesis is about
    have hinside : ∀ {σ x y}, (s.shape a).child? σ = some x → (s'.shape b).child? σ = some y →
        (x.Same y ↔ x.Reordered y) := by
      intro σ x y hx hy
      rw [hs.child?_shape] at hx
      rw [hs'.child?_shape] at hy
      obtain ⟨c, hc, rfl⟩ := Option.map_eq_some_iff.1 hx
      obtain ⟨d, _, rfl⟩ := Option.map_eq_some_iff.1 hy
      exact ih hc
    rw [Shape.same_iff, Shape.reordered_iff (hs.distinct_shape a) (hs'.distinct_shape b)]
    refine and_congr_right fun _ => and_congr_right fun _ => ?_
    constructor
    · exact fun h σ x y hx hy => (hinside hx hy).1 (h σ x y hx hy)
    · exact fun h σ x y hx hy => (hinside hx hy).2 (h σ x y hx hy)

end Store

end Types
end Stencil
