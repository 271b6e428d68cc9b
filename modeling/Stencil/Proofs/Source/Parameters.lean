import Stencil.Proofs.Source.Structs
import Stencil.Proofs.Types.Capacity

/-!
# Parameters of partials

A partial becomes one function with one parameter, and it is called with contexts at different
places of the input. A call is well typed if the type of its context is spelled like that of the
parameter.

The rounds after lowering give all contexts of a partial one type, and equal types have equal
spellings as long as they are not the input itself, whose struct is never shared. So there are two
cases: a context that is the whole input is the only one of its partial (`eq_of_same_root`), and
all others can be spelled below the input (`spellable_of_ne_root`). The main result is
`contexts_fit_parameter`.
-/

namespace Stencil
namespace Source

open Lower (Lowered lower lower_valid)
open Template (Program)
open Stencil.Types (Naming Shape Store)
open Stencil.Types.Naming (Covered FlatArray Spellable exists_follow_innerStruct? exists_typeName
  generate_visited kind?_of_innerStruct? le_innerStruct? typeName_of_same)

section

variable {st : Lower.State} {n : Naming}

/-- A node that lies in another one has its parent there. -/
theorem exists_parent (hst : st.Valid) {id : Nat} (hid : id < st.store.size) (hne : id ≠ 0) :
    ∃ path parent σ, st.store.follow 0 path = some parent ∧
      (st.store.get parent).child? σ = some id := by
  obtain ⟨path, hpath⟩ := hst.rooted id hid
  obtain rfl | ⟨before, σ, rfl⟩ := List.eq_nil_or_concat path
  · cases hpath
    exact absurd rfl hne
  · rw [List.concat_eq_append] at hpath
    obtain ⟨parent, hparent, hchild⟩ := Store.follow_concat.1 hpath
    exact ⟨before, parent, σ, hparent, hchild⟩

/-- Below the input there are no arrays of arrays: the outermost one would be the member of a
struct. -/
theorem flatArray_of_ne_root (hst : st.Valid) (hcovered : Covered st.store n.entries 0)
    (hstruct : (st.store.get 0).kind? = some .struct) {id : Nat} (hid : id < st.store.size)
    (hne : id ≠ 0) : FlatArray st.store id := by
  -- numbers rise towards the inside, so the induction goes from the outside in
  induction id using Nat.strongRecOn with
  | ind id ih =>
    obtain ⟨path, parent, σ, hparent, hchild⟩ := exists_parent hst hid hne
    cases σ with
    | member field =>
      have hkind := Types.Node.kind?_of_child? (a := .member field) hchild
      exact (hcovered path parent hparent hkind).2 field id hchild
    | element =>
      have hkind := Types.Node.kind?_of_child? (a := .index "") hchild
      have hparent_ne : parent ≠ 0 := by
        rintro rfl
        rw [hstruct] at hkind
        cases hkind
      have hlt : parent < id := hst.forest.child_gt hchild
      have hflat := ih parent hlt (Nat.lt_trans hlt hid) hparent_ne
      -- the parent is an array already, so that this node is none
      intro length inner hnode
      cases hn : st.store.get parent with
      | array outer element =>
        rw [hn] at hchild
        cases hchild
        exact absurd (by rw [hnode]; rfl) (hflat outer id hn)
      | _ =>
        rw [hn] at hchild
        cases hchild

/-- Every node below the input has a spelling. -/
theorem spellable_of_ne_root (hst : st.Valid) (hcovered : Covered st.store n.entries 0)
    (hstruct : (st.store.get 0).kind? = some .struct) {id : Nat} (hid : id < st.store.size)
    (hne : id ≠ 0) : Spellable st.store n 0 id := by
  refine ⟨flatArray_of_ne_root hst hcovered hstruct hid hne, ?_⟩
  intro target htarget
  obtain ⟨path, hpath⟩ := hst.rooted id hid
  obtain ⟨inside, hinside⟩ := exists_follow_innerStruct? htarget
  have hfollow : st.store.follow 0 (path ++ inside) = some target :=
    Store.follow_append.2 ⟨id, hpath, hinside⟩
  have hle : id ≤ target := le_innerStruct? hst.forest htarget
  have htarget_ne : target ≠ 0 :=
    Nat.ne_of_gt (Nat.lt_of_lt_of_le (Nat.pos_of_ne_zero hne) hle)
  have hpath_ne : path ++ inside ≠ [] := by
    intro hnil
    rw [hnil] at hfollow
    exact htarget_ne (Option.some.inj hfollow).symm
  exact ⟨(hcovered _ target hfollow (kind?_of_innerStruct? htarget)).1 hpath_ne, htarget_ne⟩

/-- No node below the input is of the type of the input. -/
theorem eq_of_same_root (hst : st.Valid) {id : Nat} (hid : id < st.store.size)
    (hsame : (st.store.shape 0).Same (st.store.shape id)) : id = 0 := by
  obtain ⟨path, hpath⟩ := hst.rooted id hid
  by_cases hnil : path = []
  · subst hnil
    exact (Option.some.inj hpath).symm
  · have hfollow : (st.store.shape 0).follow path = some (st.store.shape id) := by
      rw [Store.follow_shape hst.forest, hpath]
      rfl
    exact absurd hsame (Shape.not_same_inside hnil hfollow)

end

/-- Every call of a partial is well typed: its context and the parameter of the function have a
spelling, and it is the same. -/
theorem contexts_fit_parameter {programs : List (String × Program)} {program : Program}
    {l : Lowered} {explicitTypes : Bool} {n : Naming} (h : lower programs program = .ok l)
    (hnames : Naming.generate l.store l.root explicitTypes = .ok n) :
    ∀ p ∈ l.partials, ∀ site ∈ p.callSites,
      ∃ t, n.typeName l.store p.input = .ok t ∧ n.typeName l.store site.node = .ok t := by
  obtain ⟨st, hst, hstore, hpartials, hsettled, hstruct, hroot⟩ := lower_valid h
  rw [hroot, ← hstore] at hnames
  rw [← hstore] at hstruct ⊢
  rw [← hpartials]
  obtain ⟨hsound, hcovered, _⟩ :=
    generate_visited hst.forest.acyclic hst.forest.closed hstruct hnames
  intro p hp site hsite
  have hsame := hsettled p hp site hsite
  have hinput_lt := hst.input_lt hp
  have hsite_lt := hst.site_lt p hp site hsite
  by_cases hzero : p.input = 0
  · -- the whole input is passed on, here and everywhere
    rw [hzero] at hsame ⊢
    rw [eq_of_same_root hst hsite_lt hsame.symm]
    have hself : st.store.follow 0 [] = some 0 := rfl
    have hnamed := named_of_follow hsound hcovered hself hstruct
    have hkind : (st.store.get 0).kind? ≠ some .array := by
      rw [hstruct]
      simp
    obtain ⟨t, ht⟩ := Types.Naming.exists_plainTypeName (n := n) hkind fun _ => hnamed
    rw [Types.Naming.typeName_of_not_array hkind]
    exact ⟨t, ht, ht⟩
  · have hsite_ne : site.node ≠ 0 := by
      intro heq
      rw [heq] at hsame
      exact hzero (eq_of_same_root hst hinput_lt hsame)
    have hinput := spellable_of_ne_root hst hcovered hstruct hinput_lt hzero
    have hcontext := spellable_of_ne_root hst hcovered hstruct hsite_lt hsite_ne
    obtain ⟨t, ht⟩ := exists_typeName hinput
    have hspelled :=
      typeName_of_same hst.forest.acyclic hst.forest.closed hsound hcontext hinput hsame
    exact ⟨t, ht, hspelled.trans ht⟩

/-- A partial that is called with two structs, of which more becomes known after the calls. -/
theorem contexts_fit_parameter_card :
    ∃ l p a b,
      lower [("card", [.interpolation (.path { written := "title", parts := ["title"] }) [] [] true {}])]
        [.inclusion "card" [.path { written := "a", parts := ["a"] }] [] {},
          .inclusion "card" [.path { written := "b", parts := ["b"] }] [] {},
          .interpolation (.path { written := "b.extra", parts := ["b", "extra"] }) [] [] true {}] =
        .ok l ∧
      Naming.generate l.store l.root true = .ok sharedNames ∧ p ∈ l.partials ∧ a ∈ p.callSites ∧
      b ∈ p.callSites ∧ a.node ≠ b.node ∧ sharedNames.typeName l.store p.input = .ok "A" ∧
      sharedNames.typeName l.store a.node = .ok "A" ∧
      sharedNames.typeName l.store b.node = .ok "A" := by
  have hrun : Lower.endsWith (Lower.lowerProgram
      [("card", [.interpolation (.path { written := "title", parts := ["title"] }) [] [] true {}])] 0
      [.inclusion "card" [.path { written := "a", parts := ["a"] }] [] {},
        .inclusion "card" [.path { written := "b", parts := ["b"] }] [] {},
        .interpolation (.path { written := "b.extra", parts := ["b", "extra"] }) [] [] true {}]
      Lower.State.initial) (fun st => Lower.settlesWith 2 st fun st' =>
        st'.store == ⟨#[.struct [("a", 1), ("b", 3)], .struct [("title", 2), ("extra", 6)],
          .string none, .struct [("title", 4), ("extra", 5)], .string none, .string none,
          .string none]⟩ &&
        st'.partials.map (fun p => (p.input, p.callSites.map (·.node))) == [(1, [1, 3])]) = true := by
    decide +kernel
  obtain ⟨l, st', hlower, hpartials, hstore, hroot, hcheck⟩ :=
    Lower.exists_lower_of_endsWith hrun
  rw [Bool.and_eq_true, ← hstore, ← hpartials, beq_iff_eq, beq_iff_eq] at hcheck
  obtain ⟨hnodes, hsites⟩ := hcheck
  have hnames : Naming.generate l.store l.root true = .ok sharedNames := by
    rw [hnodes, hroot]
    decide +kernel
  obtain ⟨p, hp, hinput, hcalls⟩ :
      ∃ p ∈ l.partials, p.input = 1 ∧ p.callSites.map (·.node) = [1, 3] := by
    have hmem : (1, [1, 3]) ∈ l.partials.map fun p => (p.input, p.callSites.map (·.node)) := by
      rw [hsites]
      exact List.mem_cons_self
    obtain ⟨p, hp, heq⟩ := List.mem_map.1 hmem
    exact ⟨p, hp, (Prod.mk.inj heq).1, (Prod.mk.inj heq).2⟩
  have hcall : ∀ node ∈ [1, 3], ∃ site ∈ p.callSites, site.node = node := by
    intro node hnode
    rw [← hcalls] at hnode
    exact List.mem_map.1 hnode
  obtain ⟨a, ha, hanode⟩ := hcall 1 (by decide)
  obtain ⟨b, hb, hbnode⟩ := hcall 3 (by decide)
  have hname : sharedNames.typeName l.store p.input = .ok "A" := by
    rw [hnodes, hinput]
    decide +kernel
  have hfits : ∀ site ∈ p.callSites, sharedNames.typeName l.store site.node = .ok "A" := by
    intro site hsite
    obtain ⟨t, ht, hsite_name⟩ := contexts_fit_parameter hlower hnames p hp site hsite
    rw [hname] at ht
    cases ht
    exact hsite_name
  refine ⟨l, p, a, b, hlower, hnames, hp, ha, hb, ?_, hname, hfits a ha, hfits b hb⟩
  rw [hanode, hbnode]
  decide

end Source
end Stencil
