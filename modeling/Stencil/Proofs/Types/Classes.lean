import Stencil.Proofs.Types.Requests
import Stencil.Proofs.Types.Spelling

/-!
# Names and types of structs

Structs that share a name share a declaration, so a name has to stand for one type. Where nothing is
unknown, it does, and a type has one name only. This file defines:

* `Store.StructBelow` : the structs that a root leads to.

Names are given to such structs only (`named_inside`), of which all is known if it is known of all
that the root leads to. So `Naming.Sound`, which is about names where all is known, says that structs
of one name are of one type (`Sound.same_of_name`). The main result is `generate_classifies`.
-/

namespace Stencil
namespace Types

namespace Store

/-- The structs that a root leads to, itself left out. -/
def StructBelow (s : Store) (root id : NodeId) : Prop :=
  (∃ p, p ≠ [] ∧ s.follow root p = some id) ∧ (s.get id).kind? = some .struct

end Store

namespace Naming

variable {s : Store} {root : NodeId} {entries : List NamedStruct}

/-! ## Which structs have names -/

theorem visitMember_named
    {descend : NodeId → List NamedStruct → Except Error (List NamedStruct)} {field : String}
    {id : NodeId} {entries' : List NamedStruct}
    (hvisit : visitMember s descend entries (field, id) = .ok entries')
    (hdescend : ∀ target mid, descend target mid = .ok entries' → ∀ j, Named entries' j →
      Named mid j ∨ ∃ p, s.follow target p = some j)
    {j : NodeId} (hj : Named entries' j) :
    Named entries j ∨ ∃ p, s.follow id p = some j := by
  obtain ⟨_, ⟨target, name, mid, htarget, hregister, hrun⟩ | ⟨_, rfl⟩⟩ := visitMember_ok hvisit
  · obtain ⟨q, hq⟩ := exists_follow_innerStruct? htarget
    obtain hmid | ⟨p, hp⟩ := hdescend target mid hrun j hj
    · obtain hold | rfl := (register_named hregister j).1 hmid
      · exact .inl hold
      · exact .inr ⟨q, hq⟩
    · exact .inr ⟨q ++ p, Store.follow_append.2 ⟨target, hq, hp⟩⟩
  · exact .inl hj

theorem visitMembers_named
    {descend : NodeId → List NamedStruct → Except Error (List NamedStruct)}
    (hdescend : ∀ target mid out, descend target mid = .ok out → ∀ j, Named out j →
      Named mid j ∨ ∃ p, s.follow target p = some j)
    {members : List (String × NodeId)} {entries' : List NamedStruct}
    (hvisit : members.foldlM (visitMember s descend) entries = .ok entries') {j : NodeId}
    (hj : Named entries' j) :
    Named entries j ∨ ∃ m ∈ members, ∃ p, s.follow m.2 p = some j := by
  induction members generalizing entries with
  | nil =>
    cases hvisit
    exact .inl hj
  | cons m members ih =>
    rw [List.foldlM_cons] at hvisit
    obtain ⟨mid, hfirst, hothers⟩ := Results.bind_eq_ok.1 hvisit
    obtain hmid | ⟨m', hm', hinside⟩ := ih hothers
    · obtain hold | hinside := visitMember_named hfirst
        (fun target mid' => hdescend target mid' mid) hmid
      · exact .inl hold
      · exact .inr ⟨m, List.mem_cons_self, hinside⟩
    · exact .inr ⟨m', List.mem_cons_of_mem _ hm', hinside⟩

/-- A visit names what the visited node leads to, and nothing else. -/
theorem visitStruct_named (hs : s.Acyclic) {depth : Nat} {id : NodeId}
    {entries' : List NamedStruct} (hvisit : visitStruct s depth id entries = .ok entries')
    {j : NodeId} (hj : Named entries' j) :
    Named entries j ∨ ∃ p, s.follow id p = some j := by
  induction depth generalizing id entries entries' j with
  | zero =>
    cases hvisit
    exact .inl hj
  | succ depth ih =>
    unfold visitStruct at hvisit
    cases hn : s.get id with
    | struct members =>
      simp only [hn] at hvisit
      have hdescend : ∀ target mid out, visitStruct s depth target mid = .ok out →
          ∀ j, Named out j → Named mid j ∨ ∃ p, s.follow target p = some j :=
        fun target mid out hrun j hj => ih hrun hj
      obtain hold | ⟨m, hm, p, hp⟩ := visitMembers_named hdescend hvisit hj
      · exact .inl hold
      · exact .inr ⟨.member m.1 :: p,
          Store.follow_cons.2 ⟨m.2, hs.child?_of_mem hn hm, hp⟩⟩
    | _ =>
      simp only [hn] at hvisit
      cases hvisit
      exact .inl hj

/-- All structs that have names are inside the root. -/
theorem named_inside (hs : s.Acyclic) {explicitTypes : Bool} {n : Naming}
    (h : Naming.generate s root explicitTypes = .ok n) {e : NamedStruct} (he : e ∈ n.entries) :
    ∃ p, s.follow root p = some e.node := by
  unfold Naming.generate at h
  obtain ⟨entries, hvisit, h⟩ := Results.bind_eq_ok.1 h
  cases h
  obtain ⟨e', he', heq⟩ | hinside := visitStruct_named hs hvisit ⟨e, he, rfl⟩
  · rw [List.mem_singleton] at he'
    rw [← heq, he']
    exact ⟨[], rfl⟩
  · exact hinside

/-! ## One name for one type -/

/-- Where nothing is unknown, structs of one name are of the same type. -/
theorem Sound.same_of_name (hs : s.Acyclic) (h : Sound s root entries)
    (hcomplete : ∀ e ∈ entries, (s.shape e.node).Complete) {e e' : NamedStruct}
    (he : e ∈ entries) (he' : e' ∈ entries) (hname : e.name = e'.name) :
    (s.shape e.node).Same (s.shape e'.node) := by
  have hle : ∀ {e e'}, e ∈ entries → e' ∈ entries → e.name = e'.name →
      (s.shape e.node).Le (s.shape e'.node) := by
    intro e e' he he' hname
    refine Shape.le_iff.2 ⟨?_, ?_⟩
    · rw [hs.label_shape, hs.label_shape]
      have hlabel : ∀ {x : NamedStruct}, x ∈ entries →
          (s.get x.node).label = ⟨some .struct, none⟩ := by
        intro x hx
        have hstruct := h.struct x hx
        cases hn : s.get x.node with
        | struct members => rfl
        | _ =>
          rw [hn] at hstruct
          cases hstruct
      rw [hlabel he, hlabel he']
      exact Label.Le.refl _
    · intro σ x hx
      rw [hs.child?_shape] at hx
      obtain ⟨c, hc, rfl⟩ := Option.map_eq_some_iff.1 hx
      have hsome := h.members e he e' he' hname σ
      rw [hc] at hsome
      obtain ⟨d, hd⟩ := Option.isSome_iff_exists.1 hsome.symm
      refine ⟨s.shape d, by rw [hs.child?_shape, hd]; rfl, ?_⟩
      cases σ with
      | element =>
        -- a struct has no elements
        have hstruct := h.struct e he
        cases hn : s.get e.node with
        | struct members =>
          rw [hn] at hc
          cases hc
        | _ =>
          rw [hn] at hstruct
          cases hstruct
      | member field =>
        have hknown : CompleteAt s entries e.name field := fun x hx _ c' hc' =>
          Store.complete_child hs (hcomplete x hx) hc'
        exact (h.types e he e' he' hname field c d hknown hc hd).1
  exact ⟨hle he he' hname, hle he' he hname.symm⟩

/-- Where nothing that a root leads to is unknown, the structs below it have names other than the
input's, and two of them have the same name just if their types differ in the order of members
only. -/
theorem generate_classifies (hs : s.Acyclic) (hclosed : s.Closed)
    (hroot : (s.get root).kind? = some .struct)
    (hknown : ∀ p j, s.follow root p = some j → (s.get j).kind? ≠ none) {explicitTypes : Bool}
    {n : Naming} (h : Naming.generate s root explicitTypes = .ok n) {a b : NodeId}
    (ha : s.StructBelow root a) (hb : s.StructBelow root b) :
    (∃ name, n.find? s a = some name ∧ name ≠ inputStructName) ∧
      (n.find? s a = n.find? s b ↔ (s.shape a).Reordered (s.shape b)) := by
  obtain ⟨hsound, hcovered, _⟩ := generate_visited hs hclosed hroot h
  have hcomplete : ∀ e ∈ n.entries, (s.shape e.node).Complete := by
    intro e he q u hu
    obtain ⟨p, hp⟩ := named_inside hs h he
    rw [hs.follow_shape] at hu
    obtain ⟨j, hj, rfl⟩ := Option.map_eq_some_iff.1 hu
    rw [hs.label_shape]
    exact hknown (p ++ q) j (Store.follow_append.2 ⟨e.node, hp, hj⟩)
  have hnamed : ∀ {id}, s.StructBelow root id → Named n.entries id ∧ id ≠ root := by
    rintro id ⟨⟨p, hne, hp⟩, hstruct⟩
    refine ⟨(hcovered p id hp hstruct).1 hne, ?_⟩
    rintro rfl
    exact hne (hs.no_cycle hp)
  obtain ⟨ha, haroot⟩ := hnamed ha
  obtain ⟨hb, hbroot⟩ := hnamed hb
  obtain ⟨e, he, hea, hfind⟩ := find?_of_named (s := s) ha
  obtain ⟨e', he', heb, hfind'⟩ := find?_of_named (s := s) hb
  refine ⟨⟨e.name, hfind, ?_⟩, ?_, ?_⟩
  · intro hinput
    exact haroot (hea ▸ hsound.input e he hinput)
  · intro hsame
    rw [hfind, hfind', Option.some.injEq] at hsame
    rw [← hs.same_iff_reordered hs, ← hea, ← heb]
    exact hsound.same_of_name hs hcomplete he he' hsame
  · intro hreordered
    exact find?_of_same hs hclosed hsound ha hb haroot hbroot
      ((hs.same_iff_reordered hs).2 hreordered)

/-! ## An order with addresses -/

/-- Two addresses whose parts become known in different orders, and the places of shops. -/
def addressRequests : List Request :=
  [.narrow [.member "billing", .member "street"] .string none,
    .narrow [.member "billing", .member "zip"] .uint (some 32),
    .narrow [.member "home", .member "zip"] .uint (some 32),
    .narrow [.member "home", .member "street"] .string none,
    .narrow [.member "shops", .index "0", .member "zip"] .uint (some 32)]

def addresses : Store :=
  ⟨#[.struct [("billing", 1), ("home", 4), ("shops", 7)],
    .struct [("street", 2), ("zip", 3)], .string none, .uint (some 32),
    .struct [("zip", 5), ("street", 6)], .uint (some 32), .string none,
    .array none 8, .struct [("zip", 9)], .uint (some 32)]⟩

/-- Both addresses get the shorter of their names, which the shops do not share. -/
theorem generate_classifies_addresses : ∃ n, Naming.generate addresses 0 true = .ok n ∧
    n.find? addresses 1 = some "Home" ∧ n.find? addresses 4 = some "Home" ∧
    n.find? addresses 8 = some "Shop" ∧ (addresses.shape 1).Reordered (addresses.shape 4) ∧
    ¬ (addresses.shape 1).Reordered (addresses.shape 8) := by
  have hrun : runAll 0 addressRequests ({} : Store).newRoot.2 = .ok () addresses := rfl
  have hforest : addresses.Forest := (runAll_meets Store.forest_empty hrun).1
  have hknown : ∀ p j, addresses.follow 0 p = some j → (addresses.get j).kind? ≠ none := by
    intro p j hj
    have hall : ∀ j < addresses.size, (addresses.get j).kind? ≠ none := by decide
    exact hall j (hforest.follow_lt (by decide) hj)
  have hbilling : addresses.StructBelow 0 1 := ⟨⟨[.member "billing"], by simp, rfl⟩, rfl⟩
  have hhome : addresses.StructBelow 0 4 := ⟨⟨[.member "home"], by simp, rfl⟩, rfl⟩
  have hshop : addresses.StructBelow 0 8 := ⟨⟨[.member "shops", .element], by simp, rfl⟩, rfl⟩
  have hgenerate : Naming.generate addresses 0 true =
      .ok ⟨[⟨inputStructName, 0⟩, ⟨"Home", 1⟩, ⟨"Home", 4⟩, ⟨"Shop", 8⟩], true⟩ := by
    decide +kernel
  refine ⟨_, hgenerate, rfl, rfl, rfl, ?_, ?_⟩
  · exact (generate_classifies hforest.acyclic hforest.closed rfl hknown hgenerate hbilling
      hhome).2.1 rfl
  · intro hreordered
    have hsame := (generate_classifies hforest.acyclic hforest.closed rfl hknown hgenerate hbilling
      hshop).2.2 hreordered
    exact absurd hsame (by decide +kernel)

end Naming
end Types
end Stencil
