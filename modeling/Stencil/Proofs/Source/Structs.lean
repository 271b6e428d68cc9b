import Stencil.Proofs.Lower.Rounds
import Stencil.Proofs.Results
import Stencil.Proofs.Types.Spelling
import Stencil.Source.File

/-!
# Declarations of structs

A struct is declared once for all nodes of its name, from the first of them. So a declaration has to
agree with every node that uses it.

* `structDecls_eq_ok` : the declarations are those of the first entries of all names;
* `structDecls_agree` : there is one declaration for every struct of the input. It has the members of
  that struct, and gives a member its type exactly if that is the type of the member in the struct
  from which the declaration is made. That is so for members of one type, and wherever all is known
  about the member in the structs of the name.

Of a member about which something is unknown, the declaration may have another type, as what is
unknown goes with anything where names are shared.
-/

namespace Stencil
namespace Source

open Lower (Lowered lower lower_ok lower_valid)
open Results (bind_eq_ok exists_mapM forall₂_mem_left mapM_eq_ok mapM_filterMap_eq_ok mem_of_mapM)
open Template (Program)
open Stencil.Types (NamedStruct Naming NodeId Store)
open Stencil.Types.Naming (CompleteAt Covered Named Sound Spellable exists_typeName find?_of_named
  generate_visited innerStruct? typeName_of_same)

/-! ## The first entry of each name -/

theorem firstOfEachName_spec (done entries : List NamedStruct)
    (hdone : (done.map (·.name)).Nodup) :
    ((Naming.firstOfEachName done entries).map (·.name)).Nodup ∧
      (∀ e ∈ Naming.firstOfEachName done entries, e ∈ done ∨ e ∈ entries) ∧
      ∀ e, e ∈ done ∨ e ∈ entries → ∃ x ∈ Naming.firstOfEachName done entries, x.name = e.name := by
  induction entries generalizing done with
  | nil =>
    exact ⟨hdone, fun e he => .inl he,
      fun e he => ⟨e, by simpa [Naming.firstOfEachName] using he, rfl⟩⟩
  | cons e entries ih =>
    rw [Naming.firstOfEachName]
    by_cases htaken : Types.isTaken done e.name = true
    · -- a name that is done stands for this entry as well
      rw [if_pos htaken]
      rcases ih done hdone with ⟨hnodup, hmem, hfound⟩
      refine ⟨hnodup, ?_, ?_⟩
      · intro x hx
        rcases hmem x hx with hx | hx
        · exact .inl hx
        · exact .inr (List.mem_cons_of_mem _ hx)
      · intro x hx
        rcases hx with hx | hx
        · exact hfound x (.inl hx)
        · rcases List.mem_cons.1 hx with rfl | hx
          · rcases Types.Naming.isTaken_iff.1 htaken with ⟨y, hy, heq⟩
            rw [← heq]
            exact hfound y (.inl hy)
          · exact hfound x (.inr hx)
    · rw [if_neg htaken]
      have hdone' : ((done ++ [e]).map (·.name)).Nodup := by
        rw [List.map_append, List.nodup_append]
        refine ⟨hdone, List.nodup_singleton _, ?_⟩
        intro name hname name' hname'
        rcases List.mem_map.1 hname with ⟨y, hy, rfl⟩
        rw [List.map_singleton, List.mem_singleton] at hname'
        subst hname'
        intro heq
        exact htaken (Types.Naming.isTaken_iff.2 ⟨y, hy, heq⟩)
      rcases ih (done ++ [e]) hdone' with ⟨hnodup, hmem, hfound⟩
      refine ⟨hnodup, ?_, ?_⟩
      · intro x hx
        rcases hmem x hx with hx | hx
        · rcases List.mem_append.1 hx with hx | hx
          · exact .inl hx
          · exact .inr (List.mem_cons.2 (.inl (List.mem_singleton.1 hx)))
        · exact .inr (List.mem_cons_of_mem _ hx)
      · intro x hx
        refine hfound x ?_
        rcases hx with hx | hx
        · exact .inl (List.mem_append_left _ hx)
        · rcases List.mem_cons.1 hx with rfl | hx
          · exact .inl (List.mem_append_right _ List.mem_cons_self)
          · exact .inr hx

/-! ## Declarations -/

variable {s : Store} {n : Naming} {root : NodeId}

theorem structField_ok {m : String × NodeId} {y : String × String} :
    structField s n m = .ok y ↔ n.typeName s m.2 = .ok y.1 ∧ y.2 = m.1 := by
  unfold structField
  rw [bind_eq_ok]
  constructor
  · rintro ⟨t, ht, h⟩
    cases h
    exact ⟨ht, rfl⟩
  · rintro ⟨ht, hname⟩
    refine ⟨y.1, ht, ?_⟩
    rw [← hname]
    rfl

theorem names_of_structFields {members : List (String × NodeId)} {fields : List (String × String)}
    (h : List.Forall₂ (fun m y => structField s n m = .ok y) members fields) :
    fields.map (·.2) = members.map (·.1) := by
  induction h with
  | nil => rfl
  | cons hfield _ ih => rw [List.map_cons, List.map_cons, ih, (structField_ok.1 hfield).2]

theorem structDecl?_struct {e : NamedStruct} {members : List (String × NodeId)}
    (hn : s.get e.node = .struct members) :
    structDecl? s n e = (do
      let fields ← (sortMembers s members).mapM (structField s n)
      return some { name := e.name, fields }) := by
  unfold structDecl?
  rw [hn]

theorem structDecl?_eq_some {e : NamedStruct} {d : StructDecl} :
    structDecl? s n e = .ok (some d) ↔ ∃ members, s.get e.node = .struct members ∧
      (sortMembers s members).mapM (structField s n) = .ok d.fields ∧ d.name = e.name := by
  constructor
  · intro h
    cases hn : s.get e.node with
    | struct members =>
      rw [structDecl?_struct hn] at h
      rcases bind_eq_ok.1 h with ⟨fields, hfields, h⟩
      cases h
      exact ⟨members, rfl, hfields, rfl⟩
    | _ =>
      unfold structDecl? at h
      rw [hn] at h
      cases h
  · rintro ⟨members, hn, hfields, hname⟩
    rw [structDecl?_struct hn, hfields, ← hname]
    rfl

theorem structDecl_name {e : NamedStruct} {d : StructDecl}
    (h : structDecl? s n e = .ok (some d)) : d.name = e.name := by
  rcases structDecl?_eq_some.1 h with ⟨_, _, _, hname⟩
  exact hname

/-- The entries that are declared. -/
def structEntries (s : Store) (n : Naming) : List NamedStruct :=
  n.structs.filter fun e => (s.get e.node).kind? == some .struct

theorem structDecls_eq_ok {decls : List StructDecl} :
    structDecls s n = .ok decls ↔
      List.Forall₂ (fun e d => structDecl? s n e = .ok (some d)) (structEntries s n) decls := by
  refine mapM_filterMap_eq_ok ?_ ?_
  · intro e he
    unfold structDecl?
    cases hn : s.get e.node with
    | struct members =>
      rw [hn] at he
      cases he
    | _ => rfl
  · intro e he hnone
    cases hn : s.get e.node with
    | struct members =>
      rw [structDecl?_struct hn] at hnone
      rcases bind_eq_ok.1 hnone with ⟨_, _, h⟩
      cases h
    | _ =>
      rw [hn] at he
      cases he

theorem exists_structDecl {e : NamedStruct} {members : List (String × NodeId)}
    (hn : s.get e.node = .struct members)
    (hspell : ∀ m ∈ members, ∃ t, n.typeName s m.2 = .ok t) :
    ∃ d, structDecl? s n e = .ok (some d) := by
  have hfield : ∀ m ∈ sortMembers s members, ∃ y, structField s n m = .ok y := by
    intro m hm
    rcases hspell m ((List.mergeSort_perm _ _).mem_iff.1 hm) with ⟨t, ht⟩
    exact ⟨(t, m.1), structField_ok.2 ⟨ht, rfl⟩⟩
  rcases exists_mapM hfield with ⟨fields, hfields⟩
  exact ⟨⟨e.name, fields⟩, structDecl?_eq_some.2 ⟨members, hn, hfields, rfl⟩⟩

/-- A declaration has one field for each member, in another order. -/
theorem structDecl_fields {e : NamedStruct} {d : StructDecl} {members : List (String × NodeId)}
    (hn : s.get e.node = .struct members) (h : structDecl? s n e = .ok (some d)) :
    (d.fields.map (·.2)).Perm (members.map (·.1)) ∧
      ∀ m ∈ members, ∃ t, n.typeName s m.2 = .ok t ∧ (t, m.1) ∈ d.fields := by
  rcases structDecl?_eq_some.1 h with ⟨members', hn', hfields, _⟩
  cases hn.symm.trans hn'
  have hperm : (sortMembers s members).Perm members := List.mergeSort_perm _ _
  refine ⟨?_, ?_⟩
  · rw [names_of_structFields (mapM_eq_ok.1 hfields)]
    exact hperm.map _
  · intro m hm
    rcases mem_of_mapM hfields (hperm.mem_iff.2 hm) with ⟨y, hy, heq⟩
    rcases structField_ok.1 heq with ⟨ht, hname⟩
    refine ⟨y.1, ht, ?_⟩
    rw [← hname]
    exact hy

/-- A declaration has a single type for a member. -/
theorem structDecl_field_iff (hs : s.Acyclic) {e : NamedStruct} {d : StructDecl}
    {members : List (String × NodeId)} (hn : s.get e.node = .struct members)
    (h : structDecl? s n e = .ok (some d)) {m : String × NodeId} (hm : m ∈ members) {t : String} :
    (t, m.1) ∈ d.fields ↔ n.typeName s m.2 = .ok t := by
  rcases structDecl_fields hn h with ⟨hperm, hfields⟩
  rcases hfields m hm with ⟨t', ht', hmem⟩
  have hnodup : (d.fields.map (·.2)).Nodup := hperm.nodup_iff.2 (hs.names_nodup hn)
  constructor
  · intro ht
    have heq : (t, m.1) = (t', m.1) := List.inj_on_of_nodup_map hnodup ht hmem rfl
    rw [ht', show t = t' from congrArg Prod.fst heq]
  · intro ht
    rw [ht] at ht'
    cases ht'
    exact hmem

/-- The members of the structs of an input can be spelled. -/
theorem spellable_member {st : Lower.State} (hst : st.Valid)
    (hcovered : Covered st.store n.entries 0)
    {j c : Nat} {field : String} (hj : (st.store.get j).kind? = some .struct)
    (hc : (st.store.get j).child? (.member field) = some c) : Spellable st.store n 0 c := by
  rcases hst.rooted j (Store.lt_size_of_kind? hj) with ⟨p, hp⟩
  refine ⟨(hcovered p j hp hj).2 field c hc, ?_⟩
  intro target htarget
  rcases Types.Naming.exists_follow_innerStruct? htarget with ⟨q, hq⟩
  have hpath : st.store.follow 0 (p ++ (.member field :: q)) = some target :=
    Store.follow_append.2 ⟨j, hp, Store.follow_cons.2 ⟨c, hc, hq⟩⟩
  have hkind := Types.Naming.kind?_of_innerStruct? htarget
  refine ⟨(hcovered _ target hpath hkind).1 (by simp), ?_⟩
  -- members lie behind their struct, so none of them is the root
  have hlt : j < target :=
    Nat.lt_of_lt_of_le (hst.forest.child_gt hc) (Types.Naming.le_innerStruct? hst.forest htarget)
  exact Nat.ne_of_gt (Nat.lt_of_le_of_lt (Nat.zero_le j) hlt)

theorem names_of_structDecls {es : List NamedStruct} {decls : List StructDecl}
    (h : List.Forall₂ (fun e d => structDecl? s n e = .ok (some d)) es decls) :
    decls.map (·.name) = es.map (·.name) := by
  induction h with
  | nil => rfl
  | cons hdecl _ ih => rw [List.map_cons, List.map_cons, ih, structDecl_name hdecl]

/-- Structs of one name have the same members. -/
theorem members_perm (hs : s.Forest) (hsound : Sound s root n.entries)
    {e x : NamedStruct} (he : e ∈ n.entries) (hx : x ∈ n.entries) (hname : e.name = x.name)
    {members members' : List (String × NodeId)} (hmembers : s.get e.node = .struct members)
    (hmembers' : s.get x.node = .struct members') :
    (members'.map (·.1)).Perm (members.map (·.1)) := by
  refine (List.perm_ext_iff_of_nodup (hs.names_nodup hmembers') (hs.names_nodup hmembers)).2 ?_
  intro field
  have hsome := hsound.members e he x hx hname (.member field)
  rw [hmembers, hmembers'] at hsome
  rw [← Lookup.lookup_isSome, ← Lookup.lookup_isSome]
  rw [show (members.lookup field).isSome = (members'.lookup field).isSome from hsome]

theorem exists_members (hsound : Sound s root n.entries) {x : NamedStruct} (hx : x ∈ n.entries) :
    ∃ members, s.get x.node = .struct members := by
  have hkind := hsound.struct x hx
  cases hn : s.get x.node with
  | struct members => exact ⟨members, rfl⟩
  | _ =>
    rw [hn] at hkind
    cases hkind

theorem named_of_follow (hsound : Sound s root n.entries) (hcovered : Covered s n.entries root)
    {path : List Step} {id : NodeId} (hid : s.follow root path = some id)
    (hkind : (s.get id).kind? = some .struct) : Named n.entries id := by
  by_cases hnil : path = []
  · subst hnil
    cases hid
    exact ⟨_, List.mem_of_mem_head? hsound.head, rfl⟩
  · exact (hcovered path id hid hkind).1 hnil

/-! ## All declarations -/

theorem mem_entries_of_structs {e : NamedStruct} (he : e ∈ n.structs) : e ∈ n.entries := by
  rcases (firstOfEachName_spec [] n.entries List.nodup_nil).2.1 e he with he | he
  · cases he
  · exact he

/-- Where names were given, all entries are structs. -/
theorem structEntries_eq (hsound : Sound s root n.entries) : structEntries s n = n.structs := by
  refine List.filter_eq_self.2 ?_
  intro e he
  rw [hsound.struct e (mem_entries_of_structs he)]
  rfl

section

variable {decls : List StructDecl}

theorem mem_structDecls (hsound : Sound s root n.entries) (h : structDecls s n = .ok decls)
    {x : NamedStruct} (hx : x ∈ n.structs) : ∃ d ∈ decls, structDecl? s n x = .ok (some d) := by
  rw [structDecls_eq_ok, structEntries_eq hsound] at h
  exact forall₂_mem_left h hx

theorem nodup_structDecls (hsound : Sound s root n.entries) (h : structDecls s n = .ok decls) :
    (decls.map (·.name)).Nodup := by
  rw [structDecls_eq_ok, structEntries_eq hsound] at h
  rw [names_of_structDecls h]
  exact (firstOfEachName_spec [] n.entries List.nodup_nil).1

end

section

variable {st : Lower.State}

theorem spellable_members (hst : st.Valid) (hcovered : Covered st.store n.entries 0) {id : Nat}
    {members : List (String × NodeId)} (hmembers : st.store.get id = .struct members)
    {m : String × NodeId} (hm : m ∈ members) : Spellable st.store n 0 m.2 := by
  have hkind : (st.store.get id).kind? = some .struct := by
    rw [hmembers]
    rfl
  exact spellable_member hst hcovered hkind (Store.mem_child? hst.forest hmembers hm)

/-- Every struct with a name can be declared. -/
theorem exists_structDecls (hst : st.Valid) (hsound : Sound st.store 0 n.entries)
    (hcovered : Covered st.store n.entries 0) : ∃ decls, structDecls st.store n = .ok decls := by
  have hdecl : ∀ x ∈ n.structs, ∃ o, structDecl? st.store n x = .ok o := by
    intro x hx
    rcases exists_members hsound (mem_entries_of_structs hx) with ⟨members, hmembers⟩
    rcases exists_structDecl hmembers fun m hm =>
      exists_typeName (spellable_members hst hcovered hmembers hm) with ⟨d, hd⟩
    exact ⟨some d, hd⟩
  rcases exists_mapM hdecl with ⟨os, hos⟩
  exact ⟨os.filterMap id, bind_eq_ok.2 ⟨os, hos, rfl⟩⟩

/-- The member of another struct of the name. It is spelled alike if it is of the same type, and is
of the same type if all is known about the member. -/
theorem counterpart (hst : st.Valid) (hsound : Sound st.store 0 n.entries)
    (hcovered : Covered st.store n.entries 0) {e x : NamedStruct} (he : e ∈ n.entries)
    (hx : x ∈ n.entries) (hname : e.name = x.name) {members members' : List (String × NodeId)}
    (hmembers : st.store.get e.node = .struct members)
    (hmembers' : st.store.get x.node = .struct members') {m : String × NodeId} (hm : m ∈ members) :
    ∃ c, (st.store.get x.node).child? (.member m.1) = some c ∧ (m.1, c) ∈ members' ∧
      ((st.store.shape c).Same (st.store.shape m.2) →
        n.typeName st.store c = n.typeName st.store m.2) ∧
      (CompleteAt st.store n.entries e.name m.1 →
        (st.store.shape c).Same (st.store.shape m.2)) := by
  have hchild := Store.mem_child? hst.forest hmembers hm
  have hsome := hsound.members e he x hx hname (.member m.1)
  rw [hchild] at hsome
  rcases Option.isSome_iff_exists.1 hsome.symm with ⟨c, hc⟩
  have hcmem : (m.1, c) ∈ members' := by
    rw [hmembers'] at hc
    exact Lookup.mem_of_lookup hc
  refine ⟨c, hc, hcmem, ?_, ?_⟩
  · exact typeName_of_same hst.forest.acyclic hst.forest.closed hsound
      (spellable_members hst hcovered hmembers' hcmem)
      (spellable_members hst hcovered hmembers hm)
  · intro hcomplete
    exact (hsound.types e he x hx hname m.1 m.2 c hcomplete hchild hc).symm

end

/-- For every struct of the input there is one declaration of its name. It has exactly the members
of the struct. It is made from a struct `x` of that name, and so gives a member its type exactly if
that is the type of the same member of `x`: if both are of one type, and whenever nothing in that
member is unknown in the structs of that name. -/
theorem structDecls_agree {programs : List (String × Program)} {program : Program} {l : Lowered}
    {explicitTypes : Bool} (h : lower programs program = .ok l)
    (hnames : Naming.generate l.store l.root explicitTypes = .ok n) :
    ∃ decls, structDecls l.store n = .ok decls ∧
      ∀ path id members, l.store.follow l.root path = some id →
        l.store.get id = .struct members →
        ∃ x ∈ n.structs, ∃ d ∈ decls, n.find? l.store id = some x.name ∧ d.name = x.name ∧
          (∀ d' ∈ decls, d'.name = x.name → d' = d) ∧
          (d.fields.map (·.2)).Perm (members.map (·.1)) ∧
          ∀ m ∈ members, ∃ c t, (l.store.get x.node).child? (.member m.1) = some c ∧
            n.typeName l.store m.2 = .ok t ∧
            ((t, m.1) ∈ d.fields ↔ n.typeName l.store c = .ok t) ∧
            ((l.store.shape c).Same (l.store.shape m.2) → (t, m.1) ∈ d.fields) ∧
            (CompleteAt l.store n.entries x.name m.1 → (t, m.1) ∈ d.fields) := by
  rcases lower_valid h with ⟨st, hst, hstore, _, _, hstruct, hroot⟩
  rw [hroot] at hnames ⊢
  rw [← hstore] at hnames hstruct ⊢
  obtain ⟨hsound, hcovered, _⟩ :=
    generate_visited hst.forest.acyclic hst.forest.closed hstruct hnames
  rcases exists_structDecls hst hsound hcovered with ⟨decls, hdecls⟩
  refine ⟨decls, hdecls, ?_⟩
  intro path id members hid hmembers
  have hkind : (st.store.get id).kind? = some .struct := by
    rw [hmembers]
    rfl
  rcases find?_of_named (s := st.store) (named_of_follow hsound hcovered hid hkind) with
    ⟨e, he, rfl, hfind⟩
  -- the struct that is declared under the name need not be the one at this path
  rcases (firstOfEachName_spec [] n.entries List.nodup_nil).2.2 e (.inr he) with ⟨x, hx, hname⟩
  have hx_entry := mem_entries_of_structs hx
  rcases mem_structDecls hsound hdecls hx with ⟨d, hd, hdx⟩
  rcases exists_members hsound hx_entry with ⟨members', hmembers'⟩
  have hd_name := structDecl_name hdx
  refine ⟨x, hx, d, hd, hname ▸ hfind, hd_name, ?_, ?_, ?_⟩
  · intro d' hd' heq
    exact List.inj_on_of_nodup_map (nodup_structDecls hsound hdecls) hd' hd (heq.trans hd_name.symm)
  · exact (structDecl_fields hmembers' hdx).1.trans
      (members_perm hst.forest hsound he hx_entry hname.symm hmembers hmembers')
  · intro m hm
    rcases counterpart hst hsound hcovered he hx_entry hname.symm hmembers hmembers' hm with
      ⟨c, hc, hcmem, hspelled, hsame⟩
    rcases exists_typeName (spellable_members hst hcovered hmembers hm) with ⟨t, ht⟩
    have hfield : (t, m.1) ∈ d.fields ↔ n.typeName st.store c = .ok t :=
      structDecl_field_iff hst.forest.acyclic hmembers' hdx hcmem
    have hagrees : (st.store.shape c).Same (st.store.shape m.2) → (t, m.1) ∈ d.fields := by
      intro h
      exact hfield.2 ((hspelled h).trans ht)
    rw [← hname] at hsame
    exact ⟨c, t, hc, ht, hfield, hagrees, fun hcomplete => hagrees (hsame hcomplete)⟩

/-- The names of an input with two structs that share one. -/
def sharedNames : Naming := { entries := [⟨"__Input", 0⟩, ⟨"A", 1⟩, ⟨"A", 3⟩] }

/-- The context of a partial that tells nothing about it, and a number in its place in another
struct: the structs share a declaration, which has a text there. -/
theorem structDecls_agree_unknown :
    ∃ l decls d,
      lower [("p", [.content "hi" {}])]
        [.inclusion "p" [.path { written := "a.x", parts := ["a", "x"] }] [] {},
          .interpolation (.path { written := "uint8", parts := ["uint8"] })
            [.path { written := "b.x", parts := ["b", "x"] }] [] true {}] = .ok l ∧
      Naming.generate l.store l.root true = .ok sharedNames ∧
      structDecls l.store sharedNames = .ok decls ∧ d ∈ decls ∧ d.name = "A" ∧
      l.store.follow l.root [.member "a"] = some 1 ∧ sharedNames.find? l.store 1 = some "A" ∧
      ("string", "x") ∈ d.fields ∧
      l.store.follow l.root [.member "b"] = some 3 ∧ sharedNames.find? l.store 3 = some "A" ∧
      l.store.get 3 = .struct [("x", 4)] ∧ sharedNames.typeName l.store 4 = .ok "uint8" ∧
      ("uint8", "x") ∉ d.fields := by
  have hrun : Lower.endsWith (Lower.lowerProgram [("p", [.content "hi" {}])] 0
      [.inclusion "p" [.path { written := "a.x", parts := ["a", "x"] }] [] {},
        .interpolation (.path { written := "uint8", parts := ["uint8"] })
          [.path { written := "b.x", parts := ["b", "x"] }] [] true {}]
      Lower.State.initial) (fun st => Lower.settlesWith 1 st fun st' =>
        st'.store == ⟨#[.struct [("a", 1), ("b", 3)], .struct [("x", 2)], .unknown,
          .struct [("x", 4)], .uint (some 8)]⟩) = true := by
    decide +kernel
  rcases Lower.exists_lower_of_endsWith hrun with ⟨l, st', hlower, _, hstore, hroot, hcheck⟩
  rw [← hstore, beq_iff_eq] at hcheck
  have hnames : Naming.generate l.store l.root true = .ok sharedNames := by
    rw [hcheck, hroot]
    decide +kernel
  have hplaces : l.store.follow l.root [.member "a"] = some 1 ∧
      sharedNames.find? l.store 1 = some "A" ∧ l.store.follow l.root [.member "b"] = some 3 ∧
      sharedNames.find? l.store 3 = some "A" := by
    rw [hcheck, hroot]
    decide +kernel
  have hmembers : l.store.get 1 = .struct [("x", 2)] ∧ l.store.get 3 = .struct [("x", 4)] := by
    rw [hcheck]
    decide +kernel
  have htypes : sharedNames.typeName l.store 2 = .ok "string" ∧
      sharedNames.typeName l.store 4 = .ok "uint8" := by
    rw [hcheck]
    decide +kernel
  rcases hplaces with ⟨ha, hfinda, hb, hfindb⟩
  -- the declaration of the shared name is made from the struct in which `x` is unknown
  have hfirst : ∀ x ∈ sharedNames.structs, x.name = "A" → x.node = 1 := by
    decide +kernel
  rcases structDecls_agree hlower hnames with ⟨decls, hdecls, hagree⟩
  rcases hagree _ 1 _ ha hmembers.1 with ⟨x₁, hx₁, d, hd, hfind, hname, hunique, _, htext⟩
  rw [hfinda, Option.some.injEq] at hfind
  rw [← hfind] at hname hunique
  rcases hagree _ 3 _ hb hmembers.2 with ⟨x, hx, d', hd', hfind', hname', _, _, hnumber⟩
  rw [hfindb, Option.some.injEq] at hfind'
  cases hunique d' hd' (hname'.trans hfind'.symm)
  refine ⟨l, decls, d, hlower, hnames, hdecls, hd, hname, ha, hfinda, ?_, hb, hfindb, hmembers.2,
    htypes.2, ?_⟩
  · rcases htext ("x", 2) List.mem_cons_self with ⟨c, t, hc, ht, hfield, _, _⟩
    cases htypes.1.symm.trans ht
    rw [hfirst x₁ hx₁ hfind.symm, hmembers.1] at hc
    cases hc
    exact hfield.2 htypes.1
  · rcases hnumber ("x", 4) List.mem_cons_self with ⟨c, t, hc, ht, hfield, _, _⟩
    cases htypes.2.symm.trans ht
    rw [hfirst x hx hfind'.symm, hmembers.1] at hc
    cases hc
    rw [hfield, htypes.1]
    decide

end Source
end Stencil
