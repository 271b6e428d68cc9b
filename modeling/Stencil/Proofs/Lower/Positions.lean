import Stencil.Proofs.Lower.Standing

/-!
# Which loop a position belongs to

A loop names the position in it `@index`, unless it has a name of its own for it. Blocks keep the
names that are bound around them, so that `@index` is looked up through all loops, from the
innermost one outward. This file defines:

* `PathExpr.IsPosition` : a reference is `@index`, of the scope that it stands in;
* `Loop.indexAlias?`    : what a loop binds `@index` to, if it does;
* `Loop.BindsPosition`  : a loop binds `@index` to its index.

What `@index` means is found by one search through the loops (`Stands.lookup_index`). By the main
result `lower_positions`, it means the innermost loop just if that loop has no other name for its
index.
-/

namespace Stencil

/-- A reference is `@index`, seen from where it stands. -/
def Template.PathExpr.IsPosition (p : Template.PathExpr) : Prop :=
  p.data = true ∧ p.depth = 0 ∧ "@" ++ ".".intercalate p.parts = indexAlias

namespace Lower

open Code (Placed Stmt)
open Results (bind_eq_ok)
open Template (Expr Hash PathExpr Program Statement)
open Stencil.Types (NodeId)

/-! ## What loops bind -/

namespace Loop

/-- The item that a loop looks at. -/
def item (loop : Loop) : AccessPath := loop.items.push (.index loop.index)

/-- The index of a loop. -/
def position (loop : Loop) : AccessPath := ⟨.variable loop.index, []⟩

/-- What a loop binds `@index` to. A name for the item comes before that for the index. -/
def indexAlias? (loop : Loop) : Option AccessPath :=
  if loop.binders.headD "this" = indexAlias then some loop.item
  else if (loop.binders.drop 1).headD indexAlias = indexAlias then some loop.position
  else none

/-- A loop binds `@index` to its index: it has no other name for it. -/
def BindsPosition (loop : Loop) : Prop :=
  loop.binders.headD "this" ≠ indexAlias ∧ (loop.binders.drop 1).headD indexAlias = indexAlias

variable {loop other : Loop}

theorem lookup_loopAliases (loop : Loop) :
    (loopAliases loop.binders loop.index loop.item).reverse.lookup indexAlias =
      loop.indexAlias? := by
  have hcons : ∀ (key name : String) (path : AccessPath) (rest : List (String × AccessPath)),
      List.lookup key ((name, path) :: rest) =
        if name = key then some path else rest.lookup key := by
    intro key name path rest
    by_cases hname : name = key
    · simp [hname]
    · simp [List.lookup_cons, hname, beq_eq_false_iff_ne.2 (Ne.symm hname)]
  unfold loopAliases indexAlias? position
  generalize loop.binders.headD "this" = itemAlias
  generalize (loop.binders.drop 1).headD indexAlias = positionAlias
  by_cases hthis : itemAlias = "this"
  · have hne : ("this" : String) ≠ indexAlias := by decide
    simp [hthis, hne, hcons]
  · simp [hthis, hcons]

theorem item_ne_position (loop other : Loop) : loop.item ≠ other.position := by
  intro h
  have haccessors : loop.items.accessors ++ [.index loop.index] = [] :=
    congrArg AccessPath.accessors h
  simp at haccessors

theorem BindsPosition.indexAlias?_eq (h : loop.BindsPosition) :
    loop.indexAlias? = some loop.position := by
  rw [indexAlias?, if_neg h.1, if_pos h.2]

/-- A loop that binds `@index` to an index binds it to its own. -/
theorem bindsPosition_of_indexAlias? (h : loop.indexAlias? = some other.position) :
    loop.BindsPosition ∧ loop.index = other.index := by
  unfold indexAlias? at h
  split at h
  · exact absurd (Option.some.inj h) (item_ne_position loop other)
  · next hitem =>
    split at h
    · next hposition =>
      have horigin := congrArg AccessPath.origin (Option.some.inj h)
      exact ⟨⟨hitem, hposition⟩, Origin.variable.inj horigin⟩
    · cases h

end Loop

/-! ## Looking through the loops -/

section

variable {scope inner : Scope} {loops around : List Loop} {P : Program} {s : Statement}
  {p : PathExpr} {target : AccessPath}

/-- What `@index` is bound to in a scope is what the innermost of the loops around binds it to, of
those that bind it. -/
theorem Stands.lookup_index (h : Stands scope loops P s inner around)
    (hscope : scope.inner.aliases.lookup indexAlias = loops.findSome? Loop.indexAlias?) :
    inner.inner.aliases.lookup indexAlias = around.findSome? Loop.indexAlias? := by
  -- only loops bind names, and theirs come before those that are bound around them
  induction h with
  | here => exact hscope
  | later _ ih | inBranch _ _ ih | inInverse _ _ ih => exact ih hscope
  | @inLoop scope _ loops _ _ _ _ binders _ _ _ _ _ items index _ _ _ ih =>
    apply ih
    have hbound : (loopAliases binders index (items.push (.index index))).reverse.lookup
        indexAlias = Loop.indexAlias? ⟨binders, index, items⟩ :=
      Loop.lookup_loopAliases ⟨binders, index, items⟩
    change List.lookup _ ((loopAliases binders index _).reverse ++ scope.inner.aliases) = _
    rw [List.lookup_append, hscope, hbound, List.findSome?_cons]
    cases Loop.indexAlias? ⟨binders, index, items⟩ with
    | none => rfl
    | some bound => rfl
  | inPlace _ _ _ ih => exact ih hscope

/-- `@index` is looked up among the names that are bound. -/
theorem resolve_position (hp : p.IsPosition) :
    scope.resolve p = .ok target ↔ scope.inner.aliases.lookup indexAlias = some target := by
  obtain ⟨hdata, hdepth, hname⟩ := hp
  unfold Scope.resolve Frame.resolve
  simp only [hdepth, hdata, hname, beq_self_eq_true, bne_self_eq_false, if_true,
    Bool.false_eq_true, if_false]
  cases scope.inner.aliases.lookup indexAlias with
  | none => simp
  | some bound => simp

/-! ## References to data variables -/

theorem eq_of_pathArgument {params : List Expr} {context : String} {q : PathExpr}
    (h : pathArgument params context = .ok q)
    (hp : p ∈ params.filterMap Expr.reference?) : p = q := by
  unfold pathArgument at h
  split at h
  · cases h
    simpa [Expr.reference?] using hp
  all_goals cases h

/-- A reference among the parameters is what the argument resolves to. -/
theorem resolves_parameter {params : List Expr} {context : String}
    (h : (pathArgument params context >>= scope.resolve) = .ok target)
    (hp : p ∈ params.filterMap Expr.reference?) : scope.resolve p = .ok target := by
  obtain ⟨q, hq, htarget⟩ := bind_eq_ok.1 h
  rwa [eq_of_pathArgument hq hp]

/-- A block whose head is not a plain name is a condition on it. -/
theorem blockKind_of_not_plain {head : PathExpr} {params : List Expr} {kind : BlockKind}
    (h : blockKind head params = .ok kind) (hplain : head.isPlainName = false) :
    kind = .conditional false ∧ params = [] := by
  unfold blockKind at h
  rw [hplain] at h
  cases params with
  | nil =>
    cases h
    exact ⟨rfl, rfl⟩
  | cons x params => cases h

/-- What is written as it is takes no arguments. -/
theorem params_eq_nil {head : PathExpr} {params : List Expr} {hash : Hash}
    {plan : Code.Atom × Option Demand}
    (h : interpolationPlan scope (.path head) params hash = .ok plan)
    (hhelper : headHelper? head = .ok none) : params = [] := by
  unfold interpolationPlan at h
  obtain ⟨helper, hhelper', h⟩ := bind_eq_ok.1 h
  rw [hhelper] at hhelper'
  cases hhelper'
  cases params with
  | nil => rfl
  | cons x params => cases h

theorem resolves_interpolation {head : Expr} {params : List Expr} {hash : Hash}
    {plan : Code.Atom × Option Demand}
    (h : interpolationPlan scope head params hash = .ok plan)
    (hp : p ∈ (head :: params).filterMap Expr.reference?) (hplain : p.isPlainName = false) :
    ∃ target, scope.resolve p = .ok target := by
  obtain ⟨target, use, huses, _⟩ := interpolationPlan_uses h true {}
  cases huses with
  | @text q _ _ _ _ _ hhelper htarget =>
    rw [params_eq_nil h hhelper] at hp
    obtain rfl : p = q := by simpa [Expr.reference?] using hp
    exact ⟨target, htarget⟩
  | @helper q _ _ _ _ _ helper hhelper htarget =>
    obtain rfl | hparam : p = q ∨ p ∈ params.filterMap Expr.reference? := by
      simpa [Expr.reference?] using hp
    · -- the name of a helper is a plain one
      simp [headHelper?, hplain] at hhelper
    · exact ⟨target, resolves_parameter htarget hparam⟩

theorem resolves_condition {head : PathExpr} {params : List Expr} {hash : Hash} {d : Demand}
    (h : conditionPlan scope head params hash = .ok d)
    (hp : p = head ∧ params = [] ∨ p ∈ params.filterMap Expr.reference?) :
    scope.resolve p = .ok d.target := by
  unfold conditionPlan at h
  obtain ⟨_, _, h⟩ := bind_eq_ok.1 h
  obtain ⟨target, htarget, h⟩ := bind_eq_ok.1 h
  split at h
  · cases h
  · cases h
    unfold conditionPath at htarget
    obtain ⟨rfl, rfl⟩ | hparam := hp
    · dsimp only at htarget
      split at htarget
      · exact htarget
      · cases htarget
    · have hne : params.isEmpty = false := by
        cases params with
        | nil => cases hparam
        | cons x params => rfl
      rw [hne] at htarget
      exact resolves_parameter htarget hparam

/-- A reference to a data variable is never the name of a helper or of a block, so that what it
means has been looked up. -/
theorem Written.resolves {programs : List (String × Program)} {names : List String}
    {v v' : Variables} {parts : List Placed} (h : Written programs scope names v [s] parts v')
    (hp : p ∈ s.references) (hdata : p.data = true) : ∃ target, scope.resolve p = .ok target := by
  have hplain : p.isPlainName = false := by simp [PathExpr.isPlainName, hdata]
  cases h with
  | content | comment | constant => cases hp
  | interpolation hplan _ => exact resolves_interpolation hplan hp hplain
  | inclusion hplan _ =>
    obtain ⟨_, _, _, _, hcontext⟩ := inclusionPlan_eq_ok.1 hplan
    unfold inclusionContext at hcontext
    split at hcontext
    · next hempty =>
      rw [List.isEmpty_iff.1 hempty] at hp
      cases hp
    · exact ⟨_, resolves_parameter hcontext hp⟩
  | @each _ _ _ _ _ _ _ _ _ binders body span _ _ _ _ _ hkind hplan _ _ _ =>
    obtain ⟨huses, _⟩ := loopPlan_uses hkind hplan binders body none span
    cases huses with
    | items _ htarget _ =>
      obtain rfl | hparam := List.mem_cons.1 hp
      · cases (blockKind_of_not_plain hkind hplain).1
      · exact ⟨_, resolves_parameter htarget hparam⟩
  | dive hkind hopen _ _ =>
    obtain ⟨target, htarget, _⟩ := openWith_ok hopen
    obtain rfl | hparam := List.mem_cons.1 hp
    · cases (blockKind_of_not_plain hkind hplain).1
    · exact ⟨target, resolves_parameter htarget hparam⟩
  | conditional hkind hplan _ _ _ _ =>
    refine ⟨_, resolves_condition hplan ?_⟩
    obtain rfl | hparam := List.mem_cons.1 hp
    · exact .inl ⟨rfl, (blockKind_of_not_plain hkind hplain).2⟩
    · exact .inr hparam

end

/-! ## Positions in lowered templates -/

/-- In each function of a lowered template, `@index` stands in a loop and means what the innermost
loop binds it to that binds it at all. This is the index of the innermost loop just if that loop has
no other name for it; names of indices in code are distinct. -/
theorem lower_positions {programs : List (String × Program)} {program : Program} {l : Lowered}
    (h : lower programs program = .ok l) {name : Option String} {P : Program} {code : List Stmt}
    {input : NodeId} (hroutine : Routine programs program l name P code input) {s : Statement}
    {scope : Scope} {loops : List Loop} (hstands : Stands {} [] P s scope loops) {p : PathExpr}
    (hp : p ∈ s.references) (hposition : p.IsPosition) :
    ∃ inner outer target, loops = inner :: outer ∧ scope.resolve p = .ok target ∧
      loops.findSome? Loop.indexAlias? = some target ∧
      (inner.BindsPosition → target = inner.position) ∧
      ((loops.map (·.index)).Nodup → target = inner.position → inner.BindsPosition) := by
  obtain ⟨v, hwritten⟩ := hroutine.writes h
  -- the statement has been written, so that its references have been resolved
  obtain ⟨scope', names, v₁, v₂, own, hparallel, hown, _⟩ := hstands.written (.refl _) hwritten
  obtain ⟨target', htarget'⟩ := hown.resolves hp hposition.1
  obtain ⟨target, htarget, _⟩ := hparallel.symm.resolve htarget'
  have hfound : loops.findSome? Loop.indexAlias? = some target := by
    rw [← hstands.lookup_index rfl]
    exact (resolve_position hposition).1 htarget
  cases loops with
  | nil => cases hfound
  | cons inner outer =>
    refine ⟨inner, outer, target, rfl, htarget, hfound, ?_, ?_⟩
    · intro hbinds
      rw [List.findSome?_cons, hbinds.indexAlias?_eq] at hfound
      exact (Option.some.inj hfound).symm
    · -- a loop that binds `@index` to an index binds it to its own
      rintro hdistinct rfl
      obtain ⟨loop, hloop, halias⟩ := List.exists_of_findSome?_eq_some hfound
      obtain ⟨hbinds, hindex⟩ := Loop.bindsPosition_of_indexAlias? halias
      obtain rfl | houter := List.mem_cons.1 hloop
      · exact hbinds
      · -- an outer loop has another name for its index
        have hmem : inner.index ∈ outer.map (·.index) := List.mem_map.2 ⟨loop, houter, hindex⟩
        exact absurd hmem (List.nodup_cons.1 hdistinct).1

def positionTag : Statement :=
  .interpolation (.path { written := "@index", parts := ["index"], data := true }) [] [] true {}

/-- A loop that has a name for its index, in one that has none. -/
def mixedGrid : Program :=
  [.block { written := "each", parts := ["each"] }
    [.path { written := "rows", parts := ["rows"] }] [] []
    [.block { written := "each", parts := ["each"] }
      [.path { written := "cells", parts := ["cells"] }] [] ["cell", "column"]
      [positionTag] none {}] none {}]

def mixedRows : Loop := ⟨[], "__i", ⟨.input, [.member "rows"]⟩⟩

def mixedCells : Loop :=
  ⟨["cell", "column"], "__i2", ⟨.input, [.member "rows", .index "__i", .member "cells"]⟩⟩

/-- In the inner loop, `@index` is the index of the outer one, and it is written so. -/
theorem lower_positions_mixed : ∃ (l : Lowered) (p : LoweredPartial) (scope : Scope),
    lower [("grid", mixedGrid)] [.inclusion "grid" [] [] {}] = .ok l ∧
    Routine [("grid", mixedGrid)] [.inclusion "grid" [] [] {}] l (some "grid") mixedGrid p.code
      p.input ∧
    Stands {} [] mixedGrid positionTag scope [mixedCells, mixedRows] ∧
    scope.resolve { written := "@index", parts := ["index"], data := true } =
      .ok mixedRows.position ∧
    (["__i2", "__i"], .atom (.number false mixedRows.position 0)) ∈ Stmt.allParts [] p.code := by
  have hrun : endsWith (lowerProgram [("grid", mixedGrid)] 0 [.inclusion "grid" [] [] {}]
      State.initial) (fun st => settlesWith 1 st fun st' => st'.partials.any fun p =>
        p.name == "grid" && (Stmt.allParts [] p.code).contains
          (["__i2", "__i"], .atom (.number false mixedRows.position 0))) = true := by
    decide +kernel
  obtain ⟨l, st', hlower, hpartials, _, _, hgrid⟩ := exists_lower_of_endsWith hrun
  obtain ⟨p, hp, hgrid⟩ := List.any_eq_true.1 hgrid
  rw [Bool.and_eq_true, beq_iff_eq, List.contains_iff_mem] at hgrid
  obtain ⟨hname, hwritten⟩ := hgrid
  rw [← hpartials] at hp
  have hroutine : Routine [("grid", mixedGrid)] [.inclusion "grid" [] [] {}] l (some p.name)
      mixedGrid p.code p.input := by
    refine .part hp ?_
    rw [hname]
    rfl
  have hstands : Stands {} [] mixedGrid positionTag _ [mixedCells, mixedRows] :=
    .inLoop (by decide +kernel) (by decide +kernel)
      (.inLoop (by decide +kernel) (by decide +kernel) .here)
  obtain ⟨inner, outer, target, _, hresolve, hfound, _⟩ :=
    lower_positions hlower hroutine hstands (List.mem_singleton.2 rfl)
      ⟨rfl, rfl, by decide +kernel⟩
  rw [hname] at hroutine
  have htarget : [mixedCells, mixedRows].findSome? Loop.indexAlias? =
      some mixedRows.position := by
    decide +kernel
  rw [htarget] at hfound
  cases hfound
  exact ⟨l, p, _, hlower, hroutine, hstands, hresolve, hwritten⟩

end Lower
end Stencil
