import Stencil.Proofs.Types.Naming

/-!
# Spelling of types

Once all structs below the input have names, every member of a struct has a spelling
(`exists_typeName`), and members of the same type have the same one (`typeName_of_same`).
-/

namespace Stencil
namespace Types

/-- A node without nodes inside is known by its label. -/
theorem Node.eq_of_label {a b : Node} (h : a.label = b.label) (harray : a.kind? ≠ some .array)
    (hstruct : a.kind? ≠ some .struct) : a = b := by
  have hkind : a.kind? = b.kind? := congrArg Label.kind h
  have hlength : a.length? = b.length? := congrArg Label.length h
  cases a with
  | array length element => exact absurd rfl harray
  | struct members => exact absurd rfl hstruct
  | unknown =>
    cases b with
    | unknown => rfl
    | _ => cases hkind
  | bool =>
    cases b with
    | bool => rfl
    | _ => cases hkind
  | string length =>
    cases b with
    | string length' => exact congrArg Node.string hlength
    | _ => cases hkind
  | uint length =>
    cases b with
    | uint length' => exact congrArg Node.uint hlength
    | _ => cases hkind
  | int length =>
    cases b with
    | int length' => exact congrArg Node.int hlength
    | _ => cases hkind

namespace Naming

variable {s : Store} {root : NodeId} {n : Naming}

/-! ## Names of nodes -/

theorem find?_of_named {id : NodeId} (h : Named n.entries id) :
    ∃ e ∈ n.entries, e.node = id ∧ n.find? s id = some e.name := by
  rcases h with ⟨e, he, heq⟩
  have hsome : (n.entries.find? (·.node == id)).isSome = true := by
    rw [List.find?_isSome]
    exact ⟨e, he, by simpa using heq⟩
  rcases Option.isSome_iff_exists.1 hsome with ⟨e', hfound⟩
  refine ⟨e', List.mem_of_find?_eq_some hfound, by simpa using List.find?_some hfound, ?_⟩
  unfold Naming.find?
  rw [hfound]
  rfl

/-- Which entry is shared depends on the type of a node only. -/
theorem sharedStruct?_congr (hs : s.Acyclic) (hclosed : s.Closed)
    (hsound : Sound s root n.entries) {a b : NodeId} (h : (s.shape a).Same (s.shape b)) :
    sharedStruct? s n.entries a = sharedStruct? s n.entries b := by
  unfold sharedStruct?
  -- both searches pass the same entries, so they stop at the same one
  rw [← List.head?_filter, ← List.head?_filter]
  congr 1
  refine List.filter_congr ?_
  intro e he
  have hlt : e.node < s.size := Store.lt_size_of_kind? (hsound.struct e he)
  rw [Store.compatible_congr hs hclosed hlt h]

/-- Structs of the same type have the same name. -/
theorem find?_of_same (hs : s.Acyclic) (hclosed : s.Closed) (hsound : Sound s root n.entries)
    {a b : NodeId}
    (ha : Named n.entries a) (hb : Named n.entries b) (haroot : a ≠ root) (hbroot : b ≠ root)
    (h : (s.shape a).Same (s.shape b)) : n.find? s a = n.find? s b := by
  rcases find?_of_named (s := s) ha with ⟨e, he, rfl, hfind⟩
  rcases find?_of_named (s := s) hb with ⟨e', he', rfl, hfind'⟩
  -- the name of an entry is that of the first one it is compatible with, which is the same
  rcases hsound.shared e he (fun heq => haroot (hsound.input e he heq)) with ⟨x, hx, hname⟩
  rcases hsound.shared e' he' (fun heq => hbroot (hsound.input e' he' heq)) with ⟨x', hx', hname'⟩
  rw [sharedStruct?_congr hs hclosed hsound h, hx'] at hx
  cases hx
  rw [hfind, hfind', ← hname, ← hname']

/-! ## Spelling -/

/-- What a spelling needs: the node is no array of arrays, and the struct that it holds has a name
and is not the input. -/
structure Spellable (s : Store) (n : Naming) (root id : NodeId) : Prop where
  flat : FlatArray s id
  named : ∀ target, innerStruct? s id = some target → Named n.entries target ∧ target ≠ root

theorem plainTypeName_struct {id : NodeId} (h : (s.get id).kind? = some .struct) :
    n.plainTypeName s id =
      match n.find? s id with
      | some name => .ok name
      | none => .error (.unnamedType (s.display id)) := by
  unfold Naming.plainTypeName
  cases hn : s.get id with
  | struct members => rfl
  | _ =>
    rw [hn] at h
    cases h

theorem exists_plainTypeName {id : NodeId} (hkind : (s.get id).kind? ≠ some .array)
    (hnamed : (s.get id).kind? = some .struct → Named n.entries id) :
    ∃ t, n.plainTypeName s id = .ok t := by
  unfold Naming.plainTypeName
  cases hn : s.get id with
  | array length element =>
    rw [hn] at hkind
    exact absurd rfl hkind
  | struct members =>
    rcases find?_of_named (s := s) (hnamed (by rw [hn]; rfl)) with ⟨e, _, _, hfind⟩
    exact ⟨e.name, by simp [hfind]⟩
  | string length =>
    cases length with
    | none => exact ⟨_, rfl⟩
    | some k => exact ⟨_, rfl⟩
  | _ => exact ⟨_, rfl⟩

theorem plainTypeName_of_same (hs : s.Acyclic) (hclosed : s.Closed)
    (hsound : Sound s root n.entries) {a b : NodeId} (h : (s.shape a).Same (s.shape b))
    (hkind : (s.get a).kind? ≠ some .array)
    (hnamed : (s.get a).kind? = some .struct →
      (Named n.entries a ∧ a ≠ root) ∧ Named n.entries b ∧ b ≠ root) :
    n.plainTypeName s a = n.plainTypeName s b := by
  have hlabel := Store.label_of_same hs h
  have hkinds : (s.get a).kind? = (s.get b).kind? := congrArg Label.kind hlabel
  by_cases hstruct : (s.get a).kind? = some .struct
  · rcases hnamed hstruct with ⟨⟨ha, haroot⟩, hb, hbroot⟩
    rcases find?_of_named (s := s) hb with ⟨e, _, _, hfind⟩
    rw [plainTypeName_struct hstruct,
      plainTypeName_struct (hkinds ▸ hstruct),
      find?_of_same hs hclosed hsound ha hb haroot hbroot h, hfind]
  · -- a node without nodes inside is all that its label says
    have heq : s.get a = s.get b := Node.eq_of_label hlabel hkind hstruct
    rw [heq] at hkind hstruct
    unfold Naming.plainTypeName
    rw [heq]
    cases hb : s.get b with
    | array length element =>
      rw [hb] at hkind
      exact absurd rfl hkind
    | struct members =>
      rw [hb] at hstruct
      exact absurd rfl hstruct
    | string length => cases length <;> rfl
    | _ => rfl

theorem typeName_of_not_array {id : NodeId} (h : (s.get id).kind? ≠ some .array) :
    n.typeName s id = n.plainTypeName s id := by
  unfold Naming.typeName
  cases hn : s.get id with
  | array length element =>
    rw [hn] at h
    exact absurd rfl h
  | _ => rfl

theorem typeName_array {id : NodeId} {length : Option Nat} {element : NodeId}
    (hn : s.get id = .array length element) (hflat : (s.get element).kind? ≠ some .array) :
    n.typeName s id = (do
      return (← n.plainTypeName s element) ++ "[" ++ Store.lengthText length ++ "]") := by
  unfold Naming.typeName
  simp only [hn]
  cases he : s.get element with
  | array length' element' =>
    rw [he] at hflat
    exact absurd rfl hflat
  | _ => rfl

theorem innerStruct?_self {id : NodeId} (h : (s.get id).kind? = some .struct) :
    innerStruct? s id = some id := by
  unfold innerStruct?
  cases hn : s.get id with
  | struct members => rfl
  | _ =>
    rw [hn] at h
    cases h

theorem innerStruct?_array {id : NodeId} {length : Option Nat} {element : NodeId}
    (hn : s.get id = .array length element) (h : (s.get element).kind? = some .struct) :
    innerStruct? s id = some element := by
  unfold innerStruct?
  simp only [hn]
  cases he : s.get element with
  | struct members => rfl
  | _ =>
    rw [he] at h
    cases h

theorem exists_typeName {id : NodeId} (h : Spellable s n root id) :
    ∃ t, n.typeName s id = .ok t := by
  by_cases harray : (s.get id).kind? = some .array
  · cases hn : s.get id with
    | array length element =>
      have hflat := h.flat length element hn
      rcases exists_plainTypeName (n := n) hflat
        (fun hstruct => (h.named element (innerStruct?_array hn hstruct)).1) with ⟨t, ht⟩
      refine ⟨t ++ "[" ++ Store.lengthText length ++ "]", ?_⟩
      rw [typeName_array hn hflat, ht]
      rfl
    | _ =>
      rw [hn] at harray
      cases harray
  · rw [typeName_of_not_array harray]
    exact exists_plainTypeName harray
      (fun hstruct => (h.named id (innerStruct?_self hstruct)).1)

/-- Nodes of the same type are spelled alike. -/
theorem typeName_of_same (hs : s.Acyclic) (hclosed : s.Closed)
    (hsound : Sound s root n.entries) {a b : NodeId} (ha : Spellable s n root a)
    (hb : Spellable s n root b) (h : (s.shape a).Same (s.shape b)) :
    n.typeName s a = n.typeName s b := by
  have hlabel := Store.label_of_same hs h
  have hkinds : (s.get a).kind? = (s.get b).kind? := congrArg Label.kind hlabel
  by_cases harray : (s.get a).kind? = some .array
  · cases hna : s.get a with
    | array length element =>
      cases hnb : s.get b with
      | array length' element' =>
        -- lengths are part of the labels, and the elements are of the same type
        have hlength : length = length' := by
          simpa [hna, hnb, Node.label, Node.kind?, Node.length?] using hlabel
        have hchild : (s.get a).child? .element = some element := by
          rw [hna]
          rfl
        rcases Store.child?_of_same hs h hchild with ⟨d, hd, hsame⟩
        rw [hnb] at hd
        cases hd
        have helements : (s.get element).kind? = (s.get element').kind? :=
          congrArg Label.kind (Store.label_of_same hs hsame)
        rw [typeName_array hna (ha.flat _ _ hna), typeName_array hnb (hb.flat _ _ hnb), hlength,
          plainTypeName_of_same hs hclosed hsound hsame (ha.flat _ _ hna) ?_]
        intro hstruct
        exact ⟨ha.named element (innerStruct?_array hna hstruct),
          hb.named element' (innerStruct?_array hnb (helements ▸ hstruct))⟩
      | _ =>
        rw [hkinds, hnb] at harray
        cases harray
    | _ =>
      rw [hna] at harray
      cases harray
  · have harray' : (s.get b).kind? ≠ some .array := by
      rw [← hkinds]
      exact harray
    rw [typeName_of_not_array harray, typeName_of_not_array harray']
    refine plainTypeName_of_same hs hclosed hsound h harray ?_
    intro hstruct
    exact ⟨ha.named a (innerStruct?_self hstruct), hb.named b (innerStruct?_self (hkinds ▸ hstruct))⟩

end Naming
end Types
end Stencil
