import Stencil.Proofs.Lookup
import Stencil.Scope

/-!
# What a reference looks at

A template looks at its data from a place, with names for other places, and the blocks around it
look from places of their own. What a place is depends on the use: an access path in generated
code, a piece of data when a template is interpreted, or only whether it is a loop index.

This file defines:

* `Sight`, `View` : the places that one block knows, and those of the blocks around it;
* `View.look`     : the place of a reference.

References of a scope are looked up in this way (`look_of_resolve`), and looking up commutes with
every function between places that respects their segments (`look_map`).
-/

namespace Stencil
namespace Meaning

open Template (PathExpr)

variable {α β : Type}

/-- The place that a block looks from, and the names bound there, the latest first. -/
structure Sight (α : Type) where
  here : α
  names : List (String × α) := []

/-- What the innermost block knows, and what the blocks around it know. -/
structure View (α : Type) where
  inner : Sight α
  outer : List (Sight α) := []

/-! ## Looking up -/

/-- The place of a reference, whatever its depth; `step` goes on by one segment. -/
def Sight.look (step : α → String → α) (s : Sight α) (p : PathExpr) : Option α :=
  if p.data then
    if "@" ++ ".".intercalate p.parts = indexAlias then s.names.lookup indexAlias else none
  else
    match p.parts with
    | [] => some s.here
    | head :: rest =>
      let named := if p.explicitThis then none else s.names.lookup head
      some (rest.foldl step (named.getD (step s.here head)))

namespace View

/-- The view of a function on its input. -/
def root (here : α) : View α := ⟨⟨here, []⟩, []⟩

/-- Enters a block that looks from `here` and binds further names. -/
def enter (v : View α) (here : α) (names : List (String × α)) : View α :=
  ⟨⟨here, names ++ v.inner.names⟩, v.inner :: v.outer⟩

/-- The place of a reference. -/
def look (step : α → String → α) (v : View α) (p : PathExpr) : Option α :=
  (v.inner :: v.outer)[p.depth]?.bind (·.look step p)

end View

/-! ## Functions between places -/

def Sight.map (f : α → β) (s : Sight α) : Sight β :=
  ⟨f s.here, s.names.map fun e => (e.1, f e.2)⟩

def View.map (f : α → β) (v : View α) : View β :=
  ⟨v.inner.map f, v.outer.map (·.map f)⟩

theorem View.map_enter (f : α → β) (v : View α) (here : α) (names : List (String × α)) :
    (v.enter here names).map f =
      (v.map f).enter (f here) (names.map fun e => (e.1, f e.2)) := by
  simp [View.enter, View.map, Sight.map]

section

variable {f : α → β} {step : α → String → α} {step' : β → String → β}

theorem foldl_step (h : ∀ a part, f (step a part) = step' (f a) part) (parts : List String)
    (a : α) : f (parts.foldl step a) = parts.foldl step' (f a) := by
  induction parts generalizing a with
  | nil => rfl
  | cons part parts ih =>
    rw [List.foldl_cons, List.foldl_cons, ← h]
    exact ih (step a part)

theorem Sight.look_map (h : ∀ a part, f (step a part) = step' (f a) part) (s : Sight α)
    (p : PathExpr) : (s.map f).look step' p = (s.look step p).map f := by
  unfold Sight.look
  by_cases hdata : p.data = true
  · simp only [hdata, if_true]
    by_cases hindex : "@" ++ ".".intercalate p.parts = indexAlias
    · simp only [hindex, if_true]
      exact Lookup.lookup_map f s.names indexAlias
    · simp only [hindex, if_false, Option.map_none]
  · simp only [hdata, Bool.false_eq_true, if_false]
    cases p.parts with
    | nil => rfl
    | cons head rest =>
      simp only [Option.map_some, Option.some.injEq]
      rw [foldl_step h]
      congr 1
      have hlookup := Lookup.lookup_map f s.names head
      -- an explicit `this` passes the names by
      cases p.explicitThis with
      | true => exact (h s.here head).symm
      | false =>
        simp only [Bool.false_eq_true, if_false, Sight.map] at hlookup ⊢
        rw [hlookup]
        cases s.names.lookup head with
        | none => exact (h s.here head).symm
        | some a => rfl

/-- Looking up commutes with functions that respect segments. -/
theorem View.look_map (h : ∀ a part, f (step a part) = step' (f a) part) (v : View α)
    (p : PathExpr) : (v.map f).look step' p = (v.look step p).map f := by
  unfold View.look
  have hsights : (v.map f).inner :: (v.map f).outer = (v.inner :: v.outer).map (·.map f) := rfl
  rw [hsights, List.getElem?_map]
  cases (v.inner :: v.outer)[p.depth]? with
  | none => rfl
  | some s => exact s.look_map h p

end

/-! ## Properties of all places -/

/-- All places of a block have a property. -/
def Sight.All (P : α → Prop) (s : Sight α) : Prop :=
  P s.here ∧ ∀ e ∈ s.names, P e.2

/-- All places of a view have a property. -/
def View.All (P : α → Prop) (v : View α) : Prop :=
  v.inner.All P ∧ ∀ s ∈ v.outer, s.All P

section

variable {P : α → Prop} {step : α → String → α}

theorem View.All.mono {Q : α → Prop} {v : View α} (h : v.All P) (himp : ∀ a, P a → Q a) :
    v.All Q := by
  have hsight : ∀ s : Sight α, s.All P → s.All Q := by
    intro s hs
    exact ⟨himp _ hs.1, fun e he => himp _ (hs.2 e he)⟩
  exact ⟨hsight _ h.1, fun s hs => hsight s (h.2 s hs)⟩

theorem View.All.enter {v : View α} (h : v.All P) {here : α} {names : List (String × α)}
    (hhere : P here) (hnames : ∀ e ∈ names, P e.2) : (v.enter here names).All P := by
  refine ⟨⟨hhere, ?_⟩, ?_⟩
  · intro e he
    rcases List.mem_append.1 he with he | he
    · exact hnames e he
    · exact h.1.2 e he
  · intro s hs
    rcases List.mem_cons.1 hs with rfl | hs
    · exact h.1
    · exact h.2 s hs

/-- Functions that agree on all places of a view. -/
theorem View.map_congr {f g : α → β} {v : View α} (h : v.All fun a => f a = g a) :
    v.map f = v.map g := by
  have hsight : ∀ s : Sight α, s.All (fun a => f a = g a) → s.map f = s.map g := by
    intro s hs
    unfold Sight.map
    rw [hs.1, List.map_congr_left fun e he => by rw [hs.2 e he]]
  unfold View.map
  rw [hsight _ h.1, List.map_congr_left fun s hs => hsight s (h.2 s hs)]

theorem foldl_closed (parts : List String) (hstep : ∀ a, ∀ part ∈ parts, P a → P (step a part))
    {a : α} (ha : P a) : P (parts.foldl step a) := by
  induction parts generalizing a with
  | nil => exact ha
  | cons part parts ih =>
    refine ih (fun b other hother => hstep b other (List.mem_cons_of_mem _ hother)) ?_
    exact hstep a part List.mem_cons_self ha

theorem Sight.All.look {p : PathExpr} (hstep : ∀ a, ∀ part ∈ p.parts, P a → P (step a part))
    {s : Sight α} (hs : s.All P) {a : α} (h : s.look step p = some a) : P a := by
  have hnamed : ∀ {name : String} {b : α}, s.names.lookup name = some b → P b := by
    intro name b hb
    exact hs.2 (name, b) (Lookup.mem_of_lookup hb)
  unfold Sight.look at h
  split at h
  · split at h
    · exact hnamed h
    · cases h
  · split at h
    · cases h
      exact hs.1
    · next head rest hparts =>
      cases h
      rw [hparts] at hstep
      -- the first segment is a name or a step from here, and the others follow it
      refine foldl_closed rest (fun b part hpart => hstep b part (List.mem_cons_of_mem _ hpart)) ?_
      cases hname : (if p.explicitThis then none else s.names.lookup head) with
      | none => exact hstep _ _ List.mem_cons_self hs.1
      | some b =>
        split at hname
        · cases hname
        · exact hnamed hname

/-- A property that the segments of a reference keep goes over to what is looked up. -/
theorem View.All.look {p : PathExpr} (hstep : ∀ a, ∀ part ∈ p.parts, P a → P (step a part))
    {v : View α} (hv : v.All P) {a : α} (h : v.look step p = some a) : P a := by
  rcases Option.bind_eq_some_iff.1 h with ⟨s, hs, hlook⟩
  have hmem := List.mem_of_getElem? hs
  rcases List.mem_cons.1 hmem with rfl | hmem
  · exact hv.1.look hstep hlook
  · exact (hv.2 s hmem).look hstep hlook

end
end Meaning

/-! ## Scopes -/

open Meaning (Sight View)
open Template (PathExpr)

/-- The path with one more segment. -/
def AccessPath.segment (path : AccessPath) (part : String) : AccessPath :=
  path.push (.ofSegment part)

def Frame.sight (f : Frame) : Sight AccessPath := ⟨f.path, f.aliases⟩

/-- A scope as a view of access paths. -/
def Scope.view (s : Scope) : View AccessPath := ⟨s.inner.sight, s.outer.map Frame.sight⟩

theorem Scope.view_dive (s : Scope) (path : AccessPath) (aliases : List (String × AccessPath)) :
    (s.dive path aliases).view = s.view.enter path aliases.reverse := rfl

/-- The scope of a function looks from its input and knows no names. -/
theorem Scope.view_root {P : AccessPath → Prop} (h : P {}) : ({} : Scope).view.All P := by
  refine ⟨⟨h, ?_⟩, ?_⟩
  · intro e he
    cases he
  · intro s hs
    cases hs

theorem Frame.look_of_resolve {f : Frame} {p : PathExpr} {path : AccessPath}
    (h : f.resolve p = .ok path) : f.sight.look AccessPath.segment p = some path := by
  unfold Frame.resolve at h
  unfold Sight.look
  -- the references that a frame refuses are ruled out by `h`
  by_cases hdata : p.data = true
  · simp only [hdata, if_true] at h ⊢
    by_cases hindex : "@" ++ ".".intercalate p.parts = indexAlias
    · simp only [hindex, bne_self_eq_false, Bool.false_eq_true, if_false] at h
      simp only [hindex, if_true]
      change f.aliases.lookup indexAlias = some path
      cases hlookup : f.aliases.lookup indexAlias with
      | none => simp [hlookup] at h
      | some target =>
        simp only [hlookup, Except.ok.injEq] at h
        rw [h]
    · simp [hindex] at h
  · simp only [hdata, Bool.false_eq_true, if_false] at h ⊢
    cases hparts : p.parts with
    | nil =>
      simp only [hparts, Except.ok.injEq] at h
      exact congrArg some h
    | cons head rest =>
      simp only [hparts, Except.ok.injEq] at h
      exact congrArg some h

/-- A scope resolves a reference as it is looked up. -/
theorem Scope.look_of_resolve {s : Scope} {p : PathExpr} {path : AccessPath}
    (h : s.resolve p = .ok path) : s.view.look AccessPath.segment p = some path := by
  have hsights : s.view.inner :: s.view.outer = (s.inner :: s.outer).map Frame.sight := rfl
  unfold View.look
  rw [hsights, List.getElem?_map]
  unfold Scope.resolve at h
  by_cases hdepth : p.depth = 0
  · simp only [hdepth, beq_self_eq_true, if_true] at h
    rw [hdepth]
    exact Frame.look_of_resolve h
  · have hbeq : (p.depth == 0) = false := by
      simpa using hdepth
    simp only [hbeq, Bool.false_eq_true, if_false] at h
    change ((s.climb p.depth).map Frame.sight).bind _ = _
    cases hframe : s.climb p.depth with
    | none => simp [hframe] at h
    | some frame =>
      simp only [hframe] at h
      -- looking up in a frame does not read the depth
      have hlook := Frame.look_of_resolve h
      exact hlook

end Stencil
