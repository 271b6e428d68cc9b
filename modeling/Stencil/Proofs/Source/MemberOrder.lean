import Stencil.Proofs.Source.Structs
import Stencil.Proofs.Types.Requests
import Stencil.Proofs.Types.Sizes

/-!
# The order of members

The members of a struct are declared in the order of their sizes, and those of one size in the
order in which they became known. This file defines:

* `SizeOrdered` : an order of members is such an order, where only some sizes are told apart.

The order of a declaration tells the sizes below `2 ^ 64 - 1` apart (`sortMembers_sizeOrdered`).
Members that always take as much or more are treated like those of varying size, so that they may
stand behind these. The main result, `structDecls_sizeOrdered`, says when they do.
-/

namespace Stencil
namespace Source

open Results (mapM_eq_ok)
open Stencil.Types (NamedStruct Naming NodeId Store maxSize)

/-! ## Places of two elements -/

section

variable {α : Type} {l : List α} {a b : α}

theorem pair_sublist_or (ha : a ∈ l) (hb : b ∈ l) (hne : a ≠ b) :
    [a, b].Sublist l ∨ [b, a].Sublist l := by
  obtain ⟨before, after, rfl⟩ := List.append_of_mem ha
  obtain hb | hb := List.mem_append.1 hb
  · exact .inr ((List.singleton_sublist.2 hb).append (List.singleton_sublist.2 List.mem_cons_self))
  · obtain rfl | hb := List.mem_cons.1 hb
    · exact absurd rfl hne
    · refine .inl (List.Sublist.trans ?_ (List.sublist_append_right before _))
      exact (List.singleton_sublist.2 hb).cons_cons a

theorem not_pair_sublist (hl : l.Nodup) (h : [a, b].Sublist l) : ¬ [b, a].Sublist l := by
  intro h'
  induction l with
  | nil => cases h
  | cons c l ih =>
    obtain ⟨hc, hl⟩ := List.nodup_cons.1 hl
    cases h with
    | cons _ h =>
      cases h' with
      | cons _ h' => exact ih hl h h'
      | cons_cons _ h' => exact hc (h.subset (List.mem_cons_of_mem _ List.mem_cons_self))
    | cons_cons _ h =>
      cases h' with
      | cons _ h' => exact hc (h'.subset (List.mem_cons_of_mem _ List.mem_cons_self))
      | cons_cons _ h' => exact hc (List.singleton_sublist.1 h)

end

/-! ## Orders by size -/

/-- An order of members by size, as far as sizes are told apart, where members of one size stay in
their order. Those of varying size come last. -/
structure SizeOrdered (s : Store) (told : Nat → Prop) (members order : List (String × NodeId)) :
    Prop where
  perm : order.Perm members
  sorted : order.Pairwise fun a b => s.AtMost told a.2 b.2
  stable : ∀ a b, [a, b].Sublist members → s.AtMost told a.2 b.2 → [a, b].Sublist order

variable {s : Store} {n : Naming} {members order : List (String × NodeId)}

theorem sortMembers_sizeOrdered (hs : s.Acyclic) (hlengths : s.LengthsFit)
    (members : List (String × NodeId)) :
    SizeOrdered s (· < maxSize) members (sortMembers s members) := by
  have htrans : ∀ a b c : String × NodeId, decide (s.sortKey a.2 ≤ s.sortKey b.2) = true →
      decide (s.sortKey b.2 ≤ s.sortKey c.2) = true →
        decide (s.sortKey a.2 ≤ s.sortKey c.2) = true := by
    intro a b c hab hbc
    exact decide_eq_true (Nat.le_trans (of_decide_eq_true hab) (of_decide_eq_true hbc))
  have htotal : ∀ a b : String × NodeId, (decide (s.sortKey a.2 ≤ s.sortKey b.2) ||
      decide (s.sortKey b.2 ≤ s.sortKey a.2)) = true := by
    intro a b
    rw [Bool.or_eq_true, decide_eq_true_iff, decide_eq_true_iff]
    exact Nat.le_total _ _
  refine ⟨List.mergeSort_perm _ _, ?_, ?_⟩
  · refine (List.pairwise_mergeSort htrans htotal members).imp ?_
    intro a b hle
    exact (Store.sortKey_le_iff hs hlengths).1 (of_decide_eq_true hle)
  · intro a b hsub hmost
    have hle := (Store.sortKey_le_iff hs hlengths).2 hmost
    exact List.pair_sublist_mergeSort htrans htotal (decide_eq_true hle) hsub

/-- An order by the sizes that sorting tells apart is one by exact sizes unless a member that
always takes the greatest number or more stands behind one that may take more. -/
theorem SizeOrdered.exact_iff (h : SizeOrdered s (· < maxSize) members order)
    (hnodup : members.Nodup) : SizeOrdered s (fun _ => True) members order ↔
      ∀ a b, [a, b].Sublist members → ∀ k, s.Takes b.2 k → maxSize ≤ k →
        ∃ k' ≤ k, s.Takes a.2 k' := by
  have hnodup' : order.Nodup := h.perm.nodup_iff.2 hnodup
  constructor
  · intro hexact a b hsub k hk hmax
    -- the size of `b` is not told apart from others, so the two stay in their order
    have hmost : s.AtMost (· < maxSize) a.2 b.2 := by
      intro k' hk' hlt
      rw [hk'.unique hk] at hlt
      exact absurd hlt (Nat.not_lt_of_le hmax)
    have hpair := List.pairwise_iff_forall_sublist.1 hexact.sorted (h.stable a b hsub hmost)
    exact hpair k hk trivial
  · intro hexact
    refine ⟨h.perm, ?_, ?_⟩
    · refine List.pairwise_iff_forall_sublist.2 ?_
      intro a b hsub k hk _
      by_cases hlt : k < maxSize
      · exact List.pairwise_iff_forall_sublist.1 h.sorted hsub k hk hlt
      · have hmax := Nat.le_of_not_lt hlt
        have hmem : ∀ m ∈ [a, b], m ∈ members := fun m hm => h.perm.mem_iff.1 (hsub.subset hm)
        have hne : a ≠ b := by
          rintro rfl
          exact not_pair_sublist hnodup' hsub hsub
        obtain hmembers | hmembers := pair_sublist_or (hmem a (by simp)) (hmem b (by simp)) hne
        · exact hexact a b hmembers k hk hmax
        · -- `a` has come before `b`, so it takes a number that is told apart
          have hless : ¬ s.AtMost (· < maxSize) b.2 a.2 := fun hmost =>
            not_pair_sublist hnodup' hsub (h.stable b a hmembers hmost)
          simp only [Store.AtMost, not_forall] at hless
          obtain ⟨k', hk', hlt', _⟩ := hless
          exact ⟨k', Nat.le_trans (Nat.le_of_lt hlt') hmax, hk'⟩
    · intro a b hsub hmost
      exact h.stable a b hsub fun k hk _ => hmost k hk trivial

/-! ## Declarations -/

/-- The members of a node. -/
def membersOf (s : Store) (id : NodeId) : List (String × NodeId) :=
  match s.get id with
  | .struct members => members
  | _ => []

theorem nodup_membersOf (hs : s.Acyclic) (id : NodeId) : (membersOf s id).Nodup := by
  unfold membersOf
  cases hn : s.get id with
  | struct members => exact List.Nodup.of_map _ (hs.names_nodup hn)
  | _ => exact List.nodup_nil

theorem structDecl_order {e : NamedStruct} {d : StructDecl}
    (h : structDecl? s n e = .ok (some d)) :
    List.Forall₂ (fun m field => n.typeName s m.2 = .ok field.1 ∧ field.2 = m.1)
      (sortMembers s (membersOf s e.node)) d.fields := by
  obtain ⟨members, hn, hfields, _⟩ := structDecl?_eq_some.1 h
  have hmembers : membersOf s e.node = members := by
    rw [membersOf, hn]
  rw [hmembers]
  exact (mapM_eq_ok.1 hfields).imp fun _ _ => structField_ok.1

/-- The declaration of a struct whose members are sorted as they are. -/
theorem structDecl_of_sorted {e : NamedStruct} (hn : s.get e.node = .struct members)
    (hsorted : sortMembers s members = members) {fields : List (String × String)}
    (hfields : members.mapM (structField s n) = .ok fields) :
    structDecl? s n e = .ok (some ⟨e.name, fields⟩) := by
  refine structDecl?_eq_some.2 ⟨members, hn, ?_, rfl⟩
  rw [hsorted]
  exact hfields

/-- In an acyclic input, each declaration has the members of its struct in an order that is the one
by exact sizes up to `2 ^ 64 - 2` bits. It is the one by exact sizes if and only if no member that
always takes more than that stands behind one that takes more still, or varies. -/
theorem structDecls_sizeOrdered (hs : s.Acyclic) (hlengths : s.LengthsFit)
    {decls : List StructDecl} (h : structDecls s n = .ok decls) :
    List.Forall₂ (fun e d => d.name = e.name ∧ ∃ order,
      List.Forall₂ (fun m field => n.typeName s m.2 = .ok field.1 ∧ field.2 = m.1) order d.fields ∧
        SizeOrdered s (· < maxSize) (membersOf s e.node) order ∧
        (SizeOrdered s (fun _ => True) (membersOf s e.node) order ↔
          ∀ a b, [a, b].Sublist (membersOf s e.node) → ∀ k, s.Takes b.2 k → maxSize ≤ k →
            ∃ k' ≤ k, s.Takes a.2 k')) (structEntries s n) decls := by
  refine (structDecls_eq_ok.1 h).imp ?_
  intro e d hdecl
  have hordered := sortMembers_sizeOrdered hs hlengths (membersOf s e.node)
  exact ⟨structDecl_name hdecl, _, structDecl_order hdecl, hordered,
    hordered.exact_iff (nodup_membersOf hs e.node)⟩

/-- A text, and after it a table with as many rows and columns as lengths go. -/
def hugeTable : Store :=
  ⟨#[.struct [("t", 1), ("b", 2)], .string none, .array (some 4294967295) 3, .struct [("a", 4)],
    .array (some 4294967295) 5, .uint none]⟩

theorem acyclic_hugeTable : hugeTable.Acyclic := by
  have hrun : Types.runAll 0 [.narrow [.member "t"] .string none,
      .narrow [.member "b"] .array (some 4294967295),
      .narrow [.member "b", .index "0", .member "a"] .array (some 4294967295),
      .narrow [.member "b", .index "0", .member "a", .index "0"] .uint none]
      ({} : Store).newRoot.2 = .ok () hugeTable := rfl
  exact (Types.runAll_meets Store.forest_empty hrun).1.acyclic

def hugeNames : Naming := { entries := [⟨"__Input", 0⟩, ⟨"B", 3⟩] }

theorem structEntries_hugeTable :
    structEntries hugeTable hugeNames = [⟨"__Input", 0⟩, ⟨"B", 3⟩] := by
  decide +kernel

theorem structDecls_hugeTable : structDecls hugeTable hugeNames =
    .ok [⟨"__Input", [("string", "t"), ("B[4294967295]", "b")]⟩,
      ⟨"B", [("uint256[4294967295]", "a")]⟩] := by
  have hinput : structDecl? hugeTable hugeNames ⟨"__Input", 0⟩ =
      .ok (some ⟨"__Input", [("string", "t"), ("B[4294967295]", "b")]⟩) := by
    refine structDecl_of_sorted rfl ?_ (by decide +kernel)
    exact List.mergeSort_of_pairwise (by decide +kernel)
  have hrow : structDecl? hugeTable hugeNames ⟨"B", 3⟩ =
      .ok (some ⟨"B", [("uint256[4294967295]", "a")]⟩) :=
    structDecl_of_sorted rfl (List.mergeSort_singleton _)
      (by decide +kernel)
  rw [structDecls_eq_ok, structEntries_hugeTable]
  exact .cons hinput (.cons hrow .nil)

/-- The table always takes the same number of bits, but it is declared after the text. -/
theorem structDecls_sizeOrdered_huge : ∃ n decls d order,
    Naming.generate hugeTable 0 true = .ok n ∧ structDecls hugeTable n = .ok decls ∧ d ∈ decls ∧
      d.fields = [("string", "t"), ("B[4294967295]", "b")] ∧
      order.map (·.1) = d.fields.map (·.2) ∧
      ¬ SizeOrdered hugeTable (fun _ => True) (membersOf hugeTable 0) order := by
  have hlengths : hugeTable.LengthsFit := by
    intro id
    by_cases hid : id < hugeTable.size
    · have hall : ∀ id < hugeTable.size, ∀ n ∈ (hugeTable.get id).length?, n < Text.bound32 := by
        decide +kernel
      exact hall id hid
    · rw [Store.get_of_size_le (Nat.le_of_not_lt hid)]
      rintro n ⟨⟩
  have hgenerate : Naming.generate hugeTable 0 true = .ok hugeNames := by
    decide +kernel
  have horders := structDecls_sizeOrdered acyclic_hugeTable hlengths structDecls_hugeTable
  rw [structEntries_hugeTable] at horders
  obtain ⟨⟨_, order, hfields, _, hexact⟩, _⟩ := List.forall₂_cons.1 horders
  refine ⟨_, _, _, order, hgenerate, structDecls_hugeTable, List.mem_cons_self, rfl, ?_, ?_⟩
  · exact (names_of_structFields (hfields.imp fun _ _ => structField_ok.2)).symm
  · intro hordered
    have hrow : hugeTable.Takes 3
      ([("a", 4)].map fun _ : String × NodeId => 256 * 4294967295).sum := by
      refine .struct rfl ?_
      intro m hm
      have hcell : hugeTable.Takes 5 ((none : Option Nat).getD 256) := .uint rfl
      rw [List.mem_singleton.1 hm]
      exact .array rfl hcell
    -- the text would have to take a number of bits too
    obtain ⟨k, _, htext⟩ := hexact.1 hordered ("t", 1) ("b", 2) (List.Sublist.refl _) _
      (.array rfl hrow) (by decide)
    have hget : hugeTable.get 1 = .string none := rfl
    cases htext with
    | bytes h | uint h | int h | bool h | array h _ | struct h _ =>
      rw [hget] at h
      cases h

end Source
end Stencil
