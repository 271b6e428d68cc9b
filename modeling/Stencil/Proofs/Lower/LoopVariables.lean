import Stencil.Proofs.Counter
import Stencil.Proofs.Factor.Tour
import Stencil.Proofs.Lower.Written
import Stencil.Proofs.Source.Modules

/-!
# Loop variables

Paths in generated code mention the indices of loops: as the place where they start, and as steps
into the arrays that the loops run over. This file defines:

* `AccessPath.indices` : the loop indices that a path mentions;
* `Stable`             : a property of paths that segments and loops keep;
* `WellScoped`         : loop indices have different names, and are mentioned inside their loops.

A stable property goes over from the scope of a program to all paths that are written for it
(`Written.places`). From this follows the main result `lowerProgram_wellScoped`: all functions that
are generated are well scoped.
-/

namespace Stencil

/-! ## Paths and the indices in them -/

/-- The loop index that a step names; a step by a number names none. -/
def Accessor.indices : Accessor → List String
  | .member _ => []
  | .index expr => if !expr.isEmpty && expr.toList.all Char.isDigit then [] else [expr]

def Origin.indices : Origin → List String
  | .input => []
  | .variable name => [name]

/-- The loop indices that a path mentions. -/
def AccessPath.indices (p : AccessPath) : List String :=
  p.origin.indices ++ p.accessors.flatMap Accessor.indices

theorem AccessPath.indices_push (p : AccessPath) (a : Accessor) :
    (p.push a).indices = p.indices ++ a.indices := by
  simp [indices, push]

/-- References add members and numbers. -/
theorem AccessPath.indices_segment (p : AccessPath) (part : String) :
    (p.segment part).indices = p.indices := by
  have hsegment : (Accessor.ofSegment part).indices = [] := by
    unfold Accessor.ofSegment
    split
    · next h => exact if_pos h
    · rfl
  rw [segment, indices_push, hsegment, List.append_nil]

/-! ## Parts and the paths in them -/

namespace Code

def Atom.paths : Atom → List AccessPath
  | .literal _ | .constant _ => []
  | .value path | .number _ path _ | .call _ _ path => [path]

def Part.paths : Part → List AccessPath
  | .atom a => a.paths
  | .condition path => [path]
  | .loop _ items => [items]

/-- The index that a part declares. -/
def Part.declared : Part → List String
  | .loop index _ => [index]
  | .atom _ | .condition _ => []

/-- The indices of all loops. -/
def loopIndices (parts : List Placed) : List String := parts.flatMap (·.2.declared)

theorem loopIndices_cons (x : Placed) (parts : List Placed) :
    loopIndices (x :: parts) = x.2.declared ++ loopIndices parts := rfl

theorem loopIndices_append (parts others : List Placed) :
    loopIndices (parts ++ others) = loopIndices parts ++ loopIndices others :=
  List.flatMap_append

/-- All paths of parts have a property, given the loops around them. -/
def PathsHave (Good : List String → AccessPath → Prop) (parts : List Placed) : Prop :=
  ∀ x ∈ parts, ∀ path ∈ x.2.paths, Good x.1 path

section

variable {Good : List String → AccessPath → Prop} {parts others : List Placed}

theorem PathsHave.nil : PathsHave Good [] := by
  intro x hx
  cases hx

theorem PathsHave.cons {x : Placed} (hx : ∀ path ∈ x.2.paths, Good x.1 path)
    (hparts : PathsHave Good parts) : PathsHave Good (x :: parts) := by
  intro y hy
  obtain rfl | hy := List.mem_cons.1 hy
  · exact hx
  · exact hparts y hy

theorem PathsHave.append (hparts : PathsHave Good parts) (hothers : PathsHave Good others) :
    PathsHave Good (parts ++ others) := by
  intro x hx
  exact (List.mem_append.1 hx).elim (hparts x) (hothers x)

/-- A part with a single path. -/
theorem PathsHave.path {around : List String} {part : Part} {path : AccessPath}
    (hpath : Good around path) (hpart : part.paths = [path]) (hparts : PathsHave Good parts) :
    PathsHave Good ((around, part) :: parts) := by
  refine hparts.cons ?_
  rw [hpart]
  intro p hp
  cases List.mem_singleton.1 hp
  exact hpath

end

/-- The loop indices of a function's body have different names, none of them that of another
variable, and each is mentioned only inside its loop. -/
structure WellScoped (code : List Stmt) : Prop where
  distinct : (loopIndices (Stmt.allParts [] code)).Nodup
  named : ∀ index ∈ loopIndices (Stmt.allParts [] code),
    Name.isIdentifier index = true ∧ index ≠ inputName ∧ index ≠ resultName
  bound : ∀ x ∈ Stmt.allParts [] code, ∀ path ∈ x.2.paths, ∀ index ∈ path.indices, index ∈ x.1

end Code

namespace Template

/-- The reference that an expression is. -/
def Expr.reference? : Expr → Option PathExpr
  | .path p => some p
  | _ => none

/-- The references of a tag. -/
def Statement.references : Statement → List PathExpr
  | .interpolation head params _ _ _ => (head :: params).filterMap Expr.reference?
  | .block head params _ _ _ _ _ => head :: params.filterMap Expr.reference?
  | .inclusion _ params _ _ => params.filterMap Expr.reference?
  | .content _ _ | .comment _ _ | .constant _ _ => []

theorem mem_references {params : List Expr} {p : PathExpr} (h : .path p ∈ params) :
    p ∈ params.filterMap Expr.reference? :=
  List.mem_filterMap.2 ⟨_, h, rfl⟩

end Template

namespace Lower

open Code (Atom Part PathsHave Placed Stmt WellScoped loopIndices)
open Template (Expr Hash PathExpr Program Span Statement)

/-! ## Names of indices -/

/-- The names that loop indices get. -/
def IndexName (index : String) : Prop :=
  index = indexBase ∨ ∃ n, index = indexBase ++ Nat.repr n

theorem countable_indexBase : Name.Countable indexBase.toList where
  nonempty := by decide
  words := List.all_eq_true.1 (by decide)
  last := by
    rintro last ⟨⟩
    decide

theorem IndexName.of_allocate {v v' : Variables} {index : String}
    (h : v.allocate indexBase = some (index, v')) :
    IndexName index ∧ index ∉ v.names ∧ v'.names = v.names ++ [index] := by
  unfold Variables.allocate at h
  obtain ⟨name, hname, h⟩ := Option.bind_eq_some_iff.1 h
  cases h
  refine ⟨?_, Name.freshName_not_mem hname, rfl⟩
  exact Name.freshName_counted countable_indexBase hname

variable {index : String}

/-- An index starts with `__i` and goes on with digits. -/
theorem IndexName.toList (h : IndexName index) :
    ∃ digits, index.toList = ['_', '_', 'i'] ++ digits ∧ ∀ c ∈ digits, c.isDigit = true := by
  obtain rfl | ⟨n, rfl⟩ := h
  · exact ⟨[], rfl, by simp⟩
  · exact ⟨(Nat.repr n).toList, String.toList_append, Name.isDigit_repr n⟩

theorem IndexName.isIdentifier (h : IndexName index) : Name.isIdentifier index = true := by
  obtain ⟨digits, hindex, hdigits⟩ := h.toList
  have hrest : digits.all Name.isIdentifierRest = true := by
    rw [List.all_eq_true]
    intro c hc
    simp [Name.isIdentifierRest, Char.isAlphanum, hdigits c hc]
  have hstart : Name.isIdentifierStart '_' = true := by decide
  have hword : ['_', 'i'].all Name.isIdentifierRest = true := by decide
  unfold Name.isIdentifier
  rw [hindex, List.cons_append]
  dsimp only
  rw [hstart, List.all_append, hword, hrest]
  rfl

theorem IndexName.ne_input (h : IndexName index) : index ≠ inputName := by
  rintro rfl
  obtain ⟨digits, hindex, hdigits⟩ := h.toList
  have hn : 'n' ∈ digits := by
    have hinput : inputName.toList = ['_', '_', 'i'] ++ ['n', 'p', 'u', 't'] := by decide
    rw [← List.append_cancel_left (hinput.symm.trans hindex)]
    exact List.mem_cons_self
  exact absurd (hdigits 'n' hn) (by decide)

theorem IndexName.ne_result (h : IndexName index) : index ≠ Code.resultName := by
  rintro rfl
  obtain ⟨digits, hindex, _⟩ := h.toList
  have hthird : Code.resultName.toList[2]? = some 'i' := by
    rw [hindex]
    rfl
  exact absurd hthird (by decide)

/-! ## Properties of paths -/

/-- A property of paths inside loops that can be stated of a scope: it is kept by the segments of
references, by entering a loop, and by the paths that a loop introduces. -/
structure Stable (segments : String → Prop) (Good : List String → AccessPath → Prop) : Prop where
  segment : ∀ {around : List String} {path : AccessPath} {part : String}, segments part →
    Good around path → Good around (path.segment part)
  inside : ∀ {around : List String} {path : AccessPath} (index : String),
    Good around path → Good (index :: around) path
  item : ∀ {around : List String} {items : AccessPath} {index : String}, IndexName index →
    Good around items → Good (index :: around) (items.push (.index index))
  position : ∀ {around : List String} {index : String}, IndexName index →
    Good (index :: around) ⟨.variable index, []⟩

/-- All segments of a program's references have a property. -/
def SegmentsIn (segments : String → Prop) (P : Program) : Prop :=
  ∀ s, Factor.Within P s → ∀ p ∈ s.references, ∀ part ∈ p.parts, segments part

namespace SegmentsIn

variable {segments : String → Prop} {s : Statement} {rest body : Program}
  {params : List Expr} {hash : Hash} {span : Span}

theorem later (h : SegmentsIn segments (s :: rest)) : SegmentsIn segments rest :=
  fun t ht => h t (.later ht)

theorem interpolation {head : Expr} {escaped : Bool}
    (h : SegmentsIn segments (.interpolation head params hash escaped span :: rest)) (p : PathExpr)
    (hp : head = .path p ∨ .path p ∈ params) : ∀ part ∈ p.parts, segments part := by
  refine h _ .here p (Template.mem_references ?_)
  obtain rfl | hp := hp
  · exact List.mem_cons_self
  · exact List.mem_cons_of_mem _ hp

theorem inclusion {name : String}
    (h : SegmentsIn segments (.inclusion name params hash span :: rest)) (p : PathExpr)
    (hp : .path p ∈ params) : ∀ part ∈ p.parts, segments part :=
  h _ .here p (Template.mem_references hp)

variable {head : PathExpr} {binders : List String} {inverse : Option Program}

theorem block_head
    (h : SegmentsIn segments (.block head params hash binders body inverse span :: rest)) :
    ∀ part ∈ head.parts, segments part :=
  h _ .here head List.mem_cons_self

theorem block_params
    (h : SegmentsIn segments (.block head params hash binders body inverse span :: rest))
    (p : PathExpr) (hp : .path p ∈ params) : ∀ part ∈ p.parts, segments part :=
  h _ .here p (List.mem_cons_of_mem _ (Template.mem_references hp))

theorem block_body
    (h : SegmentsIn segments (.block head params hash binders body inverse span :: rest)) :
    SegmentsIn segments body :=
  fun t ht => h t (.body ht)

theorem block_inverse
    (h : SegmentsIn segments (.block head params hash binders body inverse span :: rest)) :
    SegmentsIn segments (inverse.getD []) :=
  fun t ht => h t (.inverse_getD ht)

end SegmentsIn

section

variable {segments : String → Prop} {Good : List String → AccessPath → Prop}
  {around : List String} {scope : Scope}

theorem Stable.resolve (h : Stable segments Good) (hview : scope.view.All (Good around))
    {p : PathExpr} (hparts : ∀ part ∈ p.parts, segments part) {path : AccessPath}
    (hresolve : scope.resolve p = .ok path) : Good around path :=
  hview.look (fun _ part hpart => h.segment (hparts part hpart)) (Scope.look_of_resolve hresolve)

theorem Stable.loopScope (h : Stable segments Good) (hview : scope.view.All (Good around))
    (hindex : IndexName index) {items : AccessPath} (hitems : Good around items)
    (binders : List String) :
    (loopScope scope binders items index).view.All (Good (index :: around)) := by
  have hitem := h.item hindex hitems
  unfold Lower.loopScope
  rw [Scope.view_dive]
  refine (hview.mono fun _ => h.inside index).enter hitem ?_
  intro e he
  unfold loopAliases at he
  dsimp only at he
  split at he
  · cases List.mem_singleton.1 (List.mem_reverse.1 he)
    exact h.position hindex
  · obtain rfl | he := List.mem_cons.1 (List.mem_reverse.1 he)
    · exact h.position hindex
    · cases List.mem_singleton.1 he
      exact hitem

/-- A stable property of a scope holds of all paths that are written in it. -/
theorem Written.places {programs : List (String × Program)} {v v' : Variables} {P : Program}
    {parts : List Placed} (hstable : Stable segments Good)
    (h : Written programs scope around v P parts v') :
    SegmentsIn segments P → scope.view.All (Good around) → PathsHave Good parts := by
  induction h with
  | nil =>
    intro _ _
    exact .nil
  | content _ ih =>
    intro hsegments hview
    have hrest := ih hsegments.later hview
    split
    · exact hrest
    · exact hrest.cons (by simp [Part.paths, Atom.paths])
  | comment _ ih =>
    intro hsegments hview
    exact ih hsegments.later hview
  | constant _ ih =>
    intro hsegments hview
    exact (ih hsegments.later hview).cons (by simp [Part.paths, Atom.paths])
  | interpolation hplan _ ih =>
    intro hsegments hview
    have hrest := ih hsegments.later hview
    obtain ⟨p, path, hp, hresolve, hatom⟩ := interpolationPlan_resolves hplan
    have hgood := hstable.resolve hview (hsegments.interpolation p hp) hresolve
    obtain hatom | ⟨_, _, hatom⟩ := hatom
    · rw [hatom]
      exact hrest.path hgood rfl
    · rw [hatom]
      exact hrest.path hgood rfl
  | inclusion hplan _ ih =>
    intro hsegments hview
    have hrest := ih hsegments.later hview
    have hcontext := (inclusionPlan_eq_ok.1 hplan).2.2.2.2
    obtain hhere | ⟨p, hp, hresolve⟩ := inclusionContext_resolves hcontext
    · rw [hhere]
      exact hrest.path hview.1.1 rfl
    · exact hrest.path (hstable.resolve hview (hsegments.inclusion p hp) hresolve) rfl
  | each _ hplan hindex _ _ ihbody ihrest =>
    intro hsegments hview
    obtain ⟨p, hp, hresolve⟩ := loopPlan_resolves hplan
    have hitems := hstable.resolve hview (hsegments.block_params p hp) hresolve
    have hbody := ihbody hsegments.block_body
      (hstable.loopScope hview (IndexName.of_allocate hindex).1 hitems _)
    exact (hbody.append (ihrest hsegments.later hview)).path hitems rfl
  | dive _ hopen _ _ ihbody ihrest =>
    intro hsegments hview
    obtain ⟨target, htarget, rfl⟩ := openWith_ok hopen
    obtain ⟨p, hp, hresolve⟩ := resolves_of_argument htarget
    have hgood := hstable.resolve hview (hsegments.block_params p hp) hresolve
    have hbody := ihbody hsegments.block_body (hview.enter hgood (by simp : ∀ e ∈ [], _))
    exact hbody.append (ihrest hsegments.later hview)
  | conditional _ hplan htest _ _ _ ihbody ihinverse ihrest =>
    intro hsegments hview
    have hbody := ihbody hsegments.block_body hview
    have hinverse := ihinverse hsegments.block_inverse hview
    have hbranches := hbody.append (hinverse.append (ihrest hsegments.later hview))
    obtain rfl | rfl := htest
    · exact hbranches
    · obtain ⟨p, hp, hresolve⟩ := conditionPlan_resolves hplan
      refine hbranches.path (hstable.resolve hview ?_ hresolve) rfl
      obtain rfl | hp := hp
      · exact hsegments.block_head
      · exact hsegments.block_params p hp

end

/-! ## Indices that are taken -/

/-- Loop indices are taken from the names that are free in `v`, which leads to `v'`. -/
structure Takes (v : Variables) (indices : List String) (v' : Variables) : Prop where
  names : v'.names = v.names ++ indices
  nodup : v.names.Nodup → v'.names.Nodup
  named : ∀ index ∈ indices, IndexName index

theorem Takes.nil (v : Variables) : Takes v [] v where
  names := (List.append_nil _).symm
  nodup h := h
  named index hindex := by cases hindex

theorem Takes.append {v v' v'' : Variables} {indices others : List String}
    (h : Takes v indices v') (h' : Takes v' others v'') : Takes v (indices ++ others) v'' where
  names := by rw [h'.names, h.names, List.append_assoc]
  nodup hv := h'.nodup (h.nodup hv)
  named index hindex := (List.mem_append.1 hindex).elim (h.named index) (h'.named index)

theorem Takes.of_allocate {v v' : Variables} (h : v.allocate indexBase = some (index, v')) :
    Takes v [index] v' := by
  obtain ⟨hname, hfree, hnames⟩ := IndexName.of_allocate h
  refine ⟨hnames, ?_, ?_⟩
  · intro hv
    rw [hnames]
    refine List.nodup_append'.2 ⟨hv, List.nodup_singleton index, ?_⟩
    intro other hother hindex
    cases List.mem_singleton.1 hindex
    exact hfree hother
  · intro other hother
    cases List.mem_singleton.1 hother
    exact hname

/-- Lowering takes the names of the loops that it writes. -/
theorem Written.takes {programs : List (String × Program)} {scope : Scope} {around : List String}
    {v v' : Variables} {P : Program} {parts : List Placed}
    (h : Written programs scope around v P parts v') : Takes v (loopIndices parts) v' := by
  induction h with
  | nil => exact .nil _
  | content _ ih =>
    split
    · exact ih
    · exact ih
  | comment _ ih => exact ih
  | constant _ ih => exact ih
  | interpolation _ _ ih => exact ih
  | inclusion _ _ ih => exact ih
  | each _ _ hindex _ _ ihbody ihrest =>
    rw [Code.loopIndices_cons, Code.loopIndices_append]
    exact (Takes.of_allocate hindex).append (ihbody.append ihrest)
  | dive _ _ _ _ ihbody ihrest =>
    rw [Code.loopIndices_append]
    exact ihbody.append ihrest
  | conditional _ _ htest _ _ _ ihbody ihinverse ihrest =>
    have hbranches := ihbody.append (ihinverse.append ihrest)
    rw [← Code.loopIndices_append, ← Code.loopIndices_append] at hbranches
    -- the flag declares nothing
    obtain rfl | rfl := htest
    · exact hbranches
    · exact hbranches

/-! ## Scoping -/

/-- The indices that a path mentions are those of loops around it. -/
theorem stable_bound :
    Stable (fun _ => True) fun around path => ∀ index ∈ path.indices, index ∈ around where
  segment _ h := by
    rw [AccessPath.indices_segment]
    exact h
  inside _ h index hindex := List.mem_cons_of_mem _ (h index hindex)
  item := by
    intro around items index _ h other hother
    rw [AccessPath.indices_push] at hother
    obtain hother | hother := List.mem_append.1 hother
    · exact List.mem_cons_of_mem _ (h other hother)
    · dsimp only [Accessor.indices] at hother
      split at hother
      · cases hother
      · cases List.mem_singleton.1 hother
        exact List.mem_cons_self
  position := by
    intro around index _ other hother
    cases List.mem_singleton.1 hother
    exact List.mem_cons_self

theorem Writes.wellScoped {programs : List (String × Program)} {P : Program} {code : List Stmt}
    (h : Writes programs P code) : WellScoped code := by
  obtain ⟨v, hwritten⟩ := h
  have htakes := hwritten.takes
  -- the names that are taken are that of the input, then those of the loops
  have hnodup := htakes.nodup (List.nodup_singleton inputName)
  rw [htakes.names] at hnodup
  refine ⟨(List.nodup_append'.1 hnodup).2.1, ?_, ?_⟩
  · intro index hindex
    have hname := htakes.named index hindex
    exact ⟨hname.isIdentifier, hname.ne_input, hname.ne_result⟩
  · refine hwritten.places stable_bound (fun _ _ _ _ _ _ => trivial) (Scope.view_root ?_)
    intro index hindex
    cases hindex

end Lower

namespace Source

open Code (WellScoped loopIndices)
open Lower (lower lowerProgram)
open Template (Program)

/-- The functions of a lowered template are well scoped: those that it becomes, and so those of
every file that is written for it. -/
theorem lowerProgram_wellScoped {programs : List (String × Program)} {program : Program}
    {code : List Code.Stmt} {st : Lower.State}
    (h : lowerProgram programs 0 program .initial = .ok code st) :
    WellScoped code ∧ (∀ p ∈ st.partials, WellScoped p.code) ∧
      ∀ l, lower programs program = .ok l → ∀ o constants naming file,
        SourceFile.assemble o constants naming l = .ok file →
          ∀ m ∈ file.modules, ∀ f ∈ m.functions, WellScoped f.body := by
  have hall : ∀ {partials}, Lower.AllWritten programs partials →
      ∀ p ∈ partials, WellScoped p.code := by
    intro partials hpartials p hp
    obtain ⟨body, _, hwrites⟩ := hpartials p hp
    exact hwrites.wellScoped
  obtain ⟨hmain, hentered⟩ := Lower.lowerProgram_writes h
  refine ⟨hmain.wellScoped, hall hentered.writes, ?_⟩
  intro l hlower o constants naming file hfile m hm f hf
  obtain ⟨hcode, hentered⟩ := Lower.lower_writes hlower
  obtain ⟨main, own, libraries, hmodules⟩ := assemble_modules hfile
  obtain hbody | ⟨p, hp, hbody⟩ := hmodules.body_mem hm hf
  · rw [hbody]
    exact hcode.wellScoped
  · rw [hbody]
    exact hall hentered.writes p hp

/-- A grid of numbered cells, each with the name of its row. -/
def gridPartials : List (String × Program) :=
  [("grid", [.block { written := "each", parts := ["each"] }
    [.path { written := "rows", parts := ["rows"] }] [] ["row", "i"]
    [.block { written := "each", parts := ["each"] }
      [.path { written := "row.cells", parts := ["row", "cells"] }] [] ["cell", "i"]
      [.interpolation (.path { written := "i", parts := ["i"] }) [] [] true {},
        .interpolation (.path { written := "../i", parts := ["i"], depth := 1 }) [] [] true {},
        .interpolation (.path { written := "row.name", parts := ["row", "name"] }) [] [] true {}]
      none {}] none {}])]

/-- A grid for each sheet. -/
def gridSheets : Program :=
  [.block { written := "each", parts := ["each"] }
    [.path { written := "sheets", parts := ["sheets"] }] [] [] [.inclusion "grid" [] [] {}] none {}]

/-- Loops inside each other whose positions go by the same name in the template. -/
theorem lowerProgram_wellScoped_grid :
    ∃ code st, lowerProgram gridPartials 0 gridSheets .initial = .ok code st ∧ WellScoped code ∧
      ∃ p ∈ st.partials, WellScoped p.code ∧
        (Code.Stmt.allParts [] p.code).map (fun x => (x.1, x.2.paths.flatMap (·.indices))) =
          [([], []), (["__i"], ["__i"]), (["__i2", "__i"], ["__i2"]), (["__i2", "__i"], ["__i"]),
            (["__i2", "__i"], ["__i"])] := by
  have hrun : Lower.endsWith (lowerProgram gridPartials 0 gridSheets .initial) (fun st =>
      st.partials.any fun p =>
        (Code.Stmt.allParts [] p.code).map (fun x => (x.1, x.2.paths.flatMap (·.indices))) ==
          [([], []), (["__i"], ["__i"]), (["__i2", "__i"], ["__i2"]), (["__i2", "__i"], ["__i"]),
            (["__i2", "__i"], ["__i"])]) = true := by
    decide +kernel
  obtain ⟨code, st, hlower, hcheck⟩ := Lower.exists_of_endsWith hrun
  obtain ⟨p, hp, hparts⟩ := List.any_eq_true.1 hcheck
  obtain ⟨hcode, hpartials, _⟩ := lowerProgram_wellScoped hlower
  exact ⟨code, st, hlower, hcode, p, hp, hpartials p hp, beq_iff_eq.1 hparts⟩

end Source
end Stencil
