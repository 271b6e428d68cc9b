import Stencil.Proofs.Lower.LoopVariables
import Stencil.Proofs.Source.Modules
import Stencil.Proofs.Source.Parameters
import Stencil.Proofs.Types.Visits

/-!
# Completeness of naming

A file is written in two passes over the types of the input: one names the structs, the other spells
the types that are asked for. Once the first has come to its end, the second cannot fail
(`exists_structDecls`, `exists_typeName_of_lt`), and the first one fails only at arrays of arrays
(`not_nestedArray`). The main result is `naming_complete`.
-/

namespace Stencil
namespace Source

open Lower (Lowered lower lower_valid)
open Template (Program)
open Stencil.Types (Naming NodeId Store)
open Stencil.Types.Naming (Covered Sound exists_typeName generate_eq_error generate_visited)

/-- Somewhere below a root, the elements of an array are arrays. -/
def NestedArray (s : Store) (root : NodeId) : Prop :=
  ∃ path id, s.follow root (path ++ [.element, .element]) = some id

section

variable {st : Lower.State} {n : Naming}

/-- Every node in use has a spelling. -/
theorem exists_typeName_of_lt (hst : st.Valid) (hsound : Sound st.store 0 n.entries)
    (hcovered : Covered st.store n.entries 0) (hstruct : (st.store.get 0).kind? = some .struct)
    {id : Nat} (hid : id < st.store.size) : ∃ t, n.typeName st.store id = .ok t := by
  by_cases hzero : id = 0
  · -- the input has a name, which the rules for what is below it do not promise
    subst hzero
    have hkind : (st.store.get 0).kind? ≠ some .array := by
      rw [hstruct]
      simp
    have hself : st.store.follow 0 [] = some 0 := rfl
    rw [Types.Naming.typeName_of_not_array hkind]
    exact Types.Naming.exists_plainTypeName hkind fun _ =>
      named_of_follow hsound hcovered hself hstruct
  · exact exists_typeName (spellable_of_ne_root hst hcovered hstruct hid hzero)

/-- Where all structs have names there are no arrays of arrays. -/
theorem not_nestedArray (hst : st.Valid) (hcovered : Covered st.store n.entries 0)
    (hstruct : (st.store.get 0).kind? = some .struct) : ¬ NestedArray st.store 0 := by
  rintro ⟨path, id, hid⟩
  obtain ⟨outer, houter, hinner⟩ := Store.follow_append.1 hid
  obtain ⟨inner, hinner, hid⟩ := Store.follow_cons.1 hinner
  obtain ⟨_, hid, _⟩ := Store.follow_cons.1 hid
  have harray : (st.store.get outer).kind? = some .array :=
    Types.Node.kind?_of_child? (a := .index "") hinner
  have houter_ne : outer ≠ 0 := by
    rintro rfl
    rw [hstruct] at harray
    cases harray
  have hflat := flatArray_of_ne_root hst hcovered hstruct (Store.lt_size_of_child? hinner) houter_ne
  cases hn : st.store.get outer with
  | array length element =>
    rw [hn] at hinner
    cases hinner
    exact hflat length inner hn (Types.Node.kind?_of_child? (a := .index "") hid)
  | _ =>
    rw [hn] at harray
    cases harray

end

/-- Naming the structs of an input fails exactly if there is an array of arrays in it. (Past
`2 ^ 64` nodes, a search for a free name may not end either.) When all structs have names, every
node of the input has a spelling, and the file can be written, with the structs of the input and
the parameters of all partials. -/
theorem naming_complete {programs : List (String × Program)} {program : Program} {l : Lowered}
    (h : lower programs program = .ok l) (explicitTypes : Bool) :
    (Naming.generate l.store l.root explicitTypes = .error .endless →
      Text.bound64 < l.store.size) ∧
    (Naming.generate l.store l.root explicitTypes ≠ .error .endless →
      ((∃ e, Naming.generate l.store l.root explicitTypes = .error e) ↔
        NestedArray l.store l.root)) ∧
    ∀ n, Naming.generate l.store l.root explicitTypes = .ok n →
      (∀ path id, l.store.follow l.root path = some id → ∃ t, n.typeName l.store id = .ok t) ∧
      ∀ o constants, ∃ file, SourceFile.assemble o constants n l = .ok file := by
  obtain ⟨st, hst, hstore, hpartials, _, hstruct, hroot⟩ := lower_valid h
  rw [hroot, ← hstore]
  rw [← hstore] at hstruct
  refine ⟨?_, ?_, ?_⟩
  · intro hendless
    obtain ⟨_, _, _, _, herror⟩ | ⟨_, hsize⟩ := generate_eq_error hst.forest hstruct hendless
    · cases herror
    · exact hsize
  · intro hends
    constructor
    · rintro ⟨e, herror⟩
      obtain ⟨path, field, id, hid, _⟩ | ⟨rfl, _⟩ := generate_eq_error hst.forest hstruct herror
      · refine ⟨path ++ [.member field], id, ?_⟩
        rw [List.append_assoc]
        exact hid
      · exact absurd herror hends
    · intro hnested
      cases hnames : Naming.generate st.store 0 explicitTypes with
      | error e => exact ⟨e, rfl⟩
      | ok n =>
        -- names were given to all structs of the store, which rules out nested arrays
        obtain ⟨_, hcovered, _⟩ :=
          generate_visited hst.forest.acyclic hst.forest.closed hstruct hnames
        exact absurd hnested (not_nestedArray hst hcovered hstruct)
  · intro n hnames
    obtain ⟨hsound, hcovered, _⟩ :=
      generate_visited hst.forest.acyclic hst.forest.closed hstruct hnames
    refine ⟨?_, ?_⟩
    · intro path id hid
      have hlt := hst.forest.follow_lt (Store.lt_size_of_kind? hstruct) hid
      exact exists_typeName_of_lt hst hsound hcovered hstruct hlt
    · intro o constants
      obtain ⟨decls, hdecls⟩ := exists_structDecls hst hsound hcovered
      rw [hstore] at hdecls
      refine exists_assemble hdecls ?_ o constants
      intro p hp
      rw [← hpartials] at hp
      rw [← hstore]
      exact exists_typeName_of_lt hst hsound hcovered hstruct (hst.input_lt hp)

/-- A table whose rows are lists themselves. -/
def nestedRows : Program :=
  [.block { written := "each", parts := ["each"] }
    [.path { written := "rows", parts := ["rows"] }] [] []
    [.block { written := "each", parts := ["each"] } [.path { written := "this" }] [] []
      [.interpolation (.path { written := "x", parts := ["x"] }) [] [] true {}] none {}] none {}]

/-- Grids in sheets are named, and the file of their partial can be written. A table of lists is
lowered too, but its types have no names. -/
theorem naming_complete_grids :
    (∃ l n, lower gridPartials gridSheets = .ok l ∧
      Naming.generate l.store l.root true = .ok n ∧
      (∃ t, n.typeName l.store 3 = .ok t) ∧ ∃ file, SourceFile.assemble {} [] n l = .ok file) ∧
    ∃ l, lower [] nestedRows = .ok l ∧ NestedArray l.store l.root ∧
      ∃ e, Naming.generate l.store l.root true = .error e := by
  constructor
  · have hrun : Lower.endsWith (Lower.lowerProgram gridPartials 0 gridSheets .initial) (fun st =>
        Lower.settlesWith 1 st fun st' => st'.store ==
          ⟨#[.struct [("sheets", 1)], .array none 2, .struct [("rows", 3)], .array none 4,
            .struct [("cells", 5), ("name", 7)], .array none 6, .unknown, .string none]⟩) = true := by
      decide +kernel
    obtain ⟨l, st', hlower, _, hstore, hroot, hcheck⟩ := Lower.exists_lower_of_endsWith hrun
    rw [← hstore, beq_iff_eq] at hcheck
    have hnames : Naming.generate l.store l.root true =
        .ok { entries := [⟨"__Input", 0⟩, ⟨"Sheet", 2⟩, ⟨"Row", 4⟩] } := by
      rw [hcheck, hroot]
      decide +kernel
    have hrows : l.store.follow l.root [.member "sheets", .element, .member "rows"] = some 3 := by
      rw [hcheck, hroot]
      decide +kernel
    obtain ⟨htypes, hfiles⟩ := (naming_complete hlower true).2.2 _ hnames
    exact ⟨l, _, hlower, hnames, htypes _ 3 hrows, hfiles {} []⟩
  · have hrun : Lower.endsWith (Lower.lowerProgram [] 0 nestedRows .initial) (fun st =>
        Lower.settlesWith 1 st fun st' => st'.store ==
          ⟨#[.struct [("rows", 1)], .array none 2, .array none 3, .struct [("x", 4)],
            .string none]⟩) = true := by
      decide +kernel
    obtain ⟨l, st', hlower, _, hstore, hroot, hcheck⟩ := Lower.exists_lower_of_endsWith hrun
    rw [← hstore, beq_iff_eq] at hcheck
    have hnested : NestedArray l.store l.root := by
      refine ⟨[.member "rows"], 3, ?_⟩
      rw [hcheck, hroot]
      decide +kernel
    have hends : Naming.generate l.store l.root true ≠ .error .endless := by
      rw [hcheck, hroot]
      decide +kernel
    exact ⟨l, hlower, hnested, ((naming_complete hlower true).2.1 hends).2 hnested⟩

end Source
end Stencil
