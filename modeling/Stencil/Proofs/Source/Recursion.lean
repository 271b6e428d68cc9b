import Mathlib.Logic.Relation
import Stencil.Proofs.Source.Structs

/-!
# Structs that hold each other

A declaration holds another one where one of its fields has the type of that other struct, or is an
array of it. Types are finite, but several structs may share a declaration, and a struct may even
share it with one inside itself if it is not known what both hold in the end.

* `Refers`               : a field of a declaration holds the struct of another declaration;
* `structDecls_acyclic`  : declarations that refer to each other in a circle do so through a field of
  which something is unknown, and no declaration refers to the input.
-/

namespace Stencil
namespace Source

open Lower (Lowered lower lower_valid)
open Template (Program)
open Stencil.Types (NamedStruct Naming NodeId Store)
open Stencil.Types.Naming (CompleteAt Covered Named Sound Spellable find?_of_named find?_of_same
  generate_visited innerStruct? innerStruct?_array innerStruct?_self
  kind?_of_innerStruct? le_innerStruct? plainTypeName_struct typeName_array typeName_of_not_array)

variable {s : Store} {n : Naming} {root : NodeId}

/-! ## Structs inside members -/

/-- A member holds a struct as itself or as its elements. -/
theorem innerStruct?_cases {id target : NodeId} (h : innerStruct? s id = some target) :
    id = target ∨ ∃ length, s.get id = .array length target := by
  unfold innerStruct? at h
  cases hn : s.get id with
  | struct members =>
    simp only [hn] at h
    exact .inl (Option.some.inj h)
  | array length element =>
    simp only [hn] at h
    split at h
    · cases h
      exact .inr ⟨length, rfl⟩
    · cases h
  | _ => simp [hn] at h

/-- Members of the same type hold structs of the same type. -/
theorem innerStruct?_of_same (hs : s.Forest) {a b target : Nat}
    (h : (s.shape a).Same (s.shape b)) (ha : innerStruct? s a = some target) :
    ∃ target', innerStruct? s b = some target' ∧ (s.shape target).Same (s.shape target') := by
  have hkinds : ∀ {i j : Nat}, (s.shape i).Same (s.shape j) →
      (s.get i).kind? = (s.get j).kind? :=
    fun hsame => congrArg Types.Label.kind (Store.label_of_same hs.acyclic hsame)
  have htarget := kind?_of_innerStruct? ha
  rcases innerStruct?_cases ha with rfl | ⟨length, hna⟩
  · exact ⟨b, innerStruct?_self ((hkinds h).symm.trans htarget), h⟩
  · have hchild : (s.get a).child? .element = some target := by
      rw [hna]
      rfl
    obtain ⟨target', hchild', hsame⟩ := Store.child?_of_same hs.acyclic h hchild
    have htarget' : (s.get target').kind? = some .struct := (hkinds hsame).symm.trans htarget
    cases hnb : s.get b with
    | array length' element =>
      rw [hnb] at hchild'
      cases hchild'
      exact ⟨target', innerStruct?_array hnb htarget', hsame⟩
    | _ =>
      have hkind := hkinds h
      rw [hna, hnb] at hkind
      cases hkind

/-- The type of a member that holds a struct is that struct's name, or an array of it. -/
theorem typeName_of_innerStruct? {id target : NodeId} (h : innerStruct? s id = some target)
    {name : String} (hname : n.find? s target = some name) :
    n.typeName s id = .ok name ∨
      ∃ length, n.typeName s id = .ok (name ++ "[" ++ Store.lengthText length ++ "]") := by
  have htarget := kind?_of_innerStruct? h
  have hplain : n.plainTypeName s target = .ok name := by
    rw [plainTypeName_struct htarget, hname]
  rcases innerStruct?_cases h with rfl | ⟨length, hn⟩
  · refine .inl ((typeName_of_not_array ?_).trans hplain)
    rw [htarget]
    decide
  · refine .inr ⟨length, ?_⟩
    rw [typeName_array hn (by rw [htarget]; decide), hplain]
    rfl

/-! ## References between declarations -/

/-- A field of the declaration of `outer` holds the struct `inner`, as itself or in an array. -/
def Refers (s : Store) (n : Naming) (outer field inner : String) : Prop :=
  ∃ e ∈ n.structs, e.name = outer ∧ ∃ c target, (s.get e.node).child? (.member field) = some c ∧
    innerStruct? s c = some target ∧ n.find? s target = some inner

/-- A reference through a field of which all is known in the structs of that name. -/
def RefersKnown (s : Store) (n : Naming) (outer inner : String) : Prop :=
  ∃ field, Refers s n outer field inner ∧ CompleteAt s n.entries outer field

section

variable {st : Lower.State}

/-- What a struct holds comes behind it and has a name of its own. -/
theorem entry_of_innerStruct? (hst : st.Valid) (hcovered : Covered st.store n.entries 0) {j c : Nat}
    {field : String} {target : NodeId} (hj : (st.store.get j).kind? = some .struct)
    (hc : (st.store.get j).child? (.member field) = some c)
    (htarget : innerStruct? st.store c = some target) :
    j < target ∧ Named n.entries target ∧ target ≠ 0 := by
  have hlt : j < target :=
    Nat.lt_of_lt_of_le (hst.forest.child_gt hc) (le_innerStruct? hst.forest htarget)
  exact ⟨hlt, (spellable_member hst hcovered hj hc).named target htarget⟩

/-- No field holds the input. -/
theorem refers_ne_input (hst : st.Valid) (hsound : Sound st.store 0 n.entries)
    (hcovered : Covered st.store n.entries 0) {outer field inner : String}
    (h : Refers st.store n outer field inner) : inner ≠ Types.inputStructName := by
  obtain ⟨e, he, _, c, target, hc, htarget, hinner⟩ := h
  obtain ⟨_, hnamed, hne⟩ := entry_of_innerStruct? hst hcovered
    (hsound.struct e (mem_entries_of_structs he)) hc htarget
  obtain ⟨x, hx, rfl, hfind⟩ := find?_of_named (s := st.store) hnamed
  rintro rfl
  exact hne (hsound.input x hx (Option.some.inj (hfind.symm.trans hinner)))

/-- A known reference leads from each struct of a name to one that comes behind it. -/
theorem RefersKnown.step (hst : st.Valid) (hsound : Sound st.store 0 n.entries)
    (hcovered : Covered st.store n.entries 0) {outer inner : String}
    (h : RefersKnown st.store n outer inner) {e : NamedStruct} (he : e ∈ n.entries)
    (hname : e.name = outer) : ∃ e' ∈ n.entries, e'.name = inner ∧ e.node < e'.node := by
  obtain ⟨field, ⟨x, hx, rfl, c, target, hc, htarget, hinner⟩, hcomplete⟩ := h
  have hx' := mem_entries_of_structs hx
  -- the struct at hand need not be the one that is declared, but its member has the same type
  have hsome := hsound.members e he x hx' hname (.member field)
  rw [hc] at hsome
  obtain ⟨c', hc'⟩ := Option.isSome_iff_exists.1 hsome
  have hsame := hsound.types x hx' e he hname.symm field c c' hcomplete hc hc'
  obtain ⟨target', htarget', hsame'⟩ := innerStruct?_of_same hst.forest hsame htarget
  obtain ⟨_, hnamed, hne⟩ := entry_of_innerStruct? hst hcovered (hsound.struct x hx') hc htarget
  obtain ⟨hlt, hnamed', hne'⟩ :=
    entry_of_innerStruct? hst hcovered (hsound.struct e he) hc' htarget'
  obtain ⟨e', he', rfl, hfind⟩ := find?_of_named (s := st.store) hnamed'
  refine ⟨e', he', ?_, hlt⟩
  have hnames := find?_of_same hst.forest.acyclic hst.forest.closed hsound hnamed hnamed' hne hne'
    hsame'
  exact Option.some.inj (hfind.symm.trans (hnames.symm.trans hinner))

/-- So does a path of known references. -/
theorem RefersKnown.path (hst : st.Valid) (hsound : Sound st.store 0 n.entries)
    (hcovered : Covered st.store n.entries 0) {outer inner : String}
    (h : Relation.TransGen (RefersKnown st.store n) outer inner) {e : NamedStruct}
    (he : e ∈ n.entries) (hname : e.name = outer) :
    ∃ e' ∈ n.entries, e'.name = inner ∧ e.node < e'.node := by
  induction h with
  | single h => exact h.step hst hsound hcovered he hname
  | tail _ h ih =>
    obtain ⟨mid, hmid, hmid_name, hlt⟩ := ih
    obtain ⟨e', he', hname', hlt'⟩ := h.step hst hsound hcovered hmid hmid_name
    exact ⟨e', he', hname', Nat.lt_trans hlt hlt'⟩

/-- Known references lead nowhere back: there are only so many nodes to come behind each other. -/
theorem RefersKnown.acyclic (hst : st.Valid) (hsound : Sound st.store 0 n.entries)
    (hcovered : Covered st.store n.entries 0) (name : String) :
    ¬ Relation.TransGen (RefersKnown st.store n) name name := by
  intro hcycle
  have hnone : ∀ gap, ∀ e ∈ n.entries, e.name = name → st.store.size ≤ e.node + gap → False := by
    intro gap
    induction gap with
    | zero =>
      intro e he _ hsize
      exact Nat.not_lt_of_le hsize (Store.lt_size_of_kind? (hsound.struct e he))
    | succ gap ih =>
      intro e he hname hsize
      obtain ⟨e', he', hname', hlt⟩ := RefersKnown.path hst hsound hcovered hcycle he hname
      apply ih e' he' hname'
      calc
        st.store.size ≤ e.node + (gap + 1) := hsize
        _ = e.node + 1 + gap := by rw [Nat.add_comm gap 1, Nat.add_assoc]
        _ ≤ e'.node + gap := Nat.add_le_add_right hlt gap
  obtain ⟨e, he, hname⟩ : ∃ e ∈ n.entries, e.name = name := by
    obtain ⟨_, ⟨_, ⟨e, he, hname, _⟩, _⟩, _⟩ := Relation.TransGen.head'_iff.1 hcycle
    exact ⟨e, mem_entries_of_structs he, hname⟩
  exact hnone st.store.size e he hname (Nat.le_add_left _ _)

end

/-! ## The declarations -/

/-- Each reference stands in a declaration, as the type of a field. Declarations that refer to each
other in a circle do so through a field of which something is unknown in a struct of that name. No
declaration refers to the input. -/
theorem structDecls_acyclic {programs : List (String × Program)} {program : Program} {l : Lowered}
    {explicitTypes : Bool} (h : lower programs program = .ok l)
    (hnames : Naming.generate l.store l.root explicitTypes = .ok n) :
    ∃ decls, structDecls l.store n = .ok decls ∧
      (∀ outer field inner, Refers l.store n outer field inner →
        ∃ d ∈ decls, d.name = outer ∧ ∃ t, (t, field) ∈ d.fields ∧
          (t = inner ∨ ∃ length, t = inner ++ "[" ++ Store.lengthText length ++ "]")) ∧
      (∀ name, ¬ Relation.TransGen (RefersKnown l.store n) name name) ∧
      ∀ outer field inner, Refers l.store n outer field inner → inner ≠ Types.inputStructName := by
  obtain ⟨st, hst, hstore, _, _, hstruct, hroot⟩ := lower_valid h
  rw [hroot, ← hstore] at hnames
  rw [← hstore] at hstruct ⊢
  obtain ⟨hsound, hcovered, _⟩ :=
    generate_visited hst.forest.acyclic hst.forest.closed hstruct hnames
  obtain ⟨decls, hdecls⟩ := exists_structDecls hst hsound hcovered
  refine ⟨decls, hdecls, ?_, RefersKnown.acyclic hst hsound hcovered,
    fun outer field inner => refers_ne_input hst hsound hcovered⟩
  rintro outer field inner ⟨x, hx, rfl, c, target, hc, htarget, hinner⟩
  obtain ⟨d, hd, hdx⟩ := mem_structDecls hsound hdecls hx
  obtain ⟨members, hmembers⟩ := exists_members hsound (mem_entries_of_structs hx)
  have hmem : (field, c) ∈ members := by
    rw [hmembers] at hc
    exact Lookup.mem_of_lookup hc
  have hfield := fun t => structDecl_field_iff (t := t) hst.forest.acyclic hmembers hdx hmem
  refine ⟨d, hd, structDecl_name hdx, ?_⟩
  rcases typeName_of_innerStruct? htarget hinner with ht | ⟨length, ht⟩
  · exact ⟨_, (hfield _).2 ht, .inl rfl⟩
  · exact ⟨_, (hfield _).2 ht, .inr ⟨length, rfl⟩⟩

/-- The names of an input whose struct shares its name with the struct inside it. -/
def nestedNames : Naming := { entries := [⟨"__Input", 0⟩, ⟨"A", 1⟩, ⟨"A", 2⟩] }

/-- A partial is called for `a.a.a` and tells nothing about it: then `a` and `a.a` share a
declaration, which holds itself. -/
theorem structDecls_acyclic_nested :
    ∃ l decls,
      lower [("p", [.content "hello" {}])]
        [.inclusion "p" [.path { written := "a.a.a", parts := ["a", "a", "a"] }] [] {}] = .ok l ∧
      Naming.generate l.store l.root true = .ok nestedNames ∧
      structDecls l.store nestedNames = .ok decls ∧
      Refers l.store nestedNames "A" "a" "A" ∧
      (∃ d ∈ decls, d.name = "A" ∧ ∃ t, (t, "a") ∈ d.fields ∧
        (t = "A" ∨ ∃ length, t = "A" ++ "[" ++ Store.lengthText length ++ "]")) ∧
      ¬ CompleteAt l.store nestedNames.entries "A" "a" := by
  have hrun : Lower.endsWith (Lower.lowerProgram [("p", [.content "hello" {}])] 0
      [.inclusion "p" [.path { written := "a.a.a", parts := ["a", "a", "a"] }] [] {}]
      Lower.State.initial) (fun st => Lower.settlesWith 1 st fun st' =>
        st'.store == ⟨#[.struct [("a", 1)], .struct [("a", 2)], .struct [("a", 3)],
          .unknown]⟩) = true := by
    decide +kernel
  obtain ⟨l, st', hlower, _, hstore, hroot, hcheck⟩ := Lower.exists_lower_of_endsWith hrun
  rw [← hstore, beq_iff_eq] at hcheck
  have hnames : Naming.generate l.store l.root true = .ok nestedNames := by
    rw [hcheck, hroot]
    decide +kernel
  have hrefers : Refers l.store nestedNames "A" "a" "A" := by
    rw [hcheck]
    refine ⟨⟨"A", 1⟩, ?_, rfl, 2, 2, rfl, rfl, ?_⟩
    · decide +kernel
    · decide +kernel
  obtain ⟨decls, hdecls, hprinted, hacyclic, _⟩ := structDecls_acyclic hlower hnames
  refine ⟨l, decls, hlower, hnames, hdecls, hrefers, hprinted "A" "a" "A" hrefers, ?_⟩
  intro hcomplete
  exact hacyclic "A" (.single ⟨"a", hrefers, hcomplete⟩)

end Source
end Stencil
