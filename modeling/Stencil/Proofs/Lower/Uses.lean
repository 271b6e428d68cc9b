import Stencil.Lower.Partial
import Stencil.Proofs.Meaning.View
import Stencil.Proofs.Results
import Stencil.Proofs.Types.Forest

/-!
# What a template does with its data

Each tag of a template uses data in a way that only some types allow. What it uses is a place of the
input, and the place depends on the blocks around the tag. This file defines:

* `Use`, `Use.MetBy`          : the ways of using data, and the nodes that allow them;
* `Kind.allows`               : the lengths that data can be declared with, to which helpers keep;
* `Uses scope P target use`   : a statement of `P`, at any depth, uses the data at `target`;
* `Walks s id accessors j`    : the accessors lead from a node to another one, through arrays and
  structs;
* `Scope.Alike`               : scopes that look at the same places of the input.

The names of loop indices differ from one lowering to another. They play no part in which place is
meant, so that `Uses` leaves them open: what is used under any such names is the same place
(`Alike.place_eq`).
-/

namespace Stencil

open Meaning (View)

/-- The lengths that data of a kind can be declared with. -/
def Types.Kind.allows : Types.Kind → Nat → Bool
  | .string, n => 1 ≤ n && n ≤ 32
  | .uint, n | .int, n => 8 ≤ n && n ≤ 256 && n % 8 == 0
  | .array, n => 1 ≤ n
  | .bool, _ | .struct, _ => false

/-! ## Places -/

/-- The place of the input that a path leads to, if it starts there. -/
def AccessPath.place (path : AccessPath) : Option (List Step) :=
  match path.origin with
  | .input => some (path.accessors.map Accessor.step)
  | .variable _ => none

theorem AccessPath.place_push (path : AccessPath) (a : Accessor) :
    (path.push a).place = path.place.map (· ++ [a.step]) := by
  unfold place push
  cases path.origin with
  | input => simp
  | «variable» name => rfl

theorem AccessPath.place_of_input {path : AccessPath} (h : path.origin = .input) :
    path.place = some (path.accessors.map Accessor.step) := by
  unfold place
  rw [h]

theorem AccessPath.input_of_place {path : AccessPath} {steps : List Step}
    (h : path.place = some steps) :
    path.origin = .input ∧ path.accessors.map Accessor.step = steps := by
  unfold place at h
  cases horigin : path.origin with
  | input =>
    rw [horigin] at h
    exact ⟨rfl, Option.some.inj h⟩
  | «variable» name =>
    rw [horigin] at h
    cases h

theorem AccessPath.place_of_isVariable {path : AccessPath} (h : path.isVariable = true) :
    path.place = none := by
  unfold isVariable at h
  unfold place
  cases horigin : path.origin with
  | input =>
    rw [horigin] at h
    cases h
  | «variable» name => rfl

namespace Scope

/-- Two scopes look at the same places of the input. -/
def Alike (a b : Scope) : Prop := a.view.map AccessPath.place = b.view.map AccessPath.place

theorem Alike.refl (a : Scope) : a.Alike a := rfl

variable {a b : Scope}

/-- A reference leads to the same place, as only the segments behind the start are its own. -/
theorem Alike.place_eq (h : a.Alike b) {p : Template.PathExpr} {t t' : AccessPath}
    (ha : a.resolve p = .ok t) (hb : b.resolve p = .ok t') : t.place = t'.place := by
  have hlook : ∀ c : Scope, (c.view.map AccessPath.place).look
      (fun place part => place.map (· ++ [(Accessor.ofSegment part).step])) p =
        (c.view.look AccessPath.segment p).map AccessPath.place :=
    fun c => View.look_map (fun path part => path.place_push _) c.view p
  have hsame := hlook a
  rw [h, hlook b, look_of_resolve ha, look_of_resolve hb] at hsame
  exact Option.some.inj hsame.symm

/-- The same for a reference that is an argument. -/
theorem Alike.place_eq_of_bind (h : a.Alike b) {x : Except Error Template.PathExpr}
    {t t' : AccessPath} (ha : (x >>= a.resolve) = .ok t) (hb : (x >>= b.resolve) = .ok t') :
    t.place = t'.place := by
  obtain ⟨p, rfl, ha⟩ := Results.bind_eq_ok.1 ha
  exact h.place_eq ha hb

theorem Alike.inner_place_eq (h : a.Alike b) : a.inner.path.place = b.inner.path.place :=
  congrArg (fun v => v.inner.here) h

theorem Alike.dive (h : a.Alike b) {t t' : AccessPath} (ht : t.place = t'.place)
    {aliases aliases' : List (String × AccessPath)}
    (haliases : (aliases.map fun e => (e.1, e.2.place)) =
      aliases'.map fun e => (e.1, e.2.place)) : (a.dive t aliases).Alike (b.dive t' aliases') := by
  unfold Alike
  rw [view_dive, view_dive, View.map_enter, View.map_enter, h, ht, List.map_reverse,
    List.map_reverse, haliases]

end Scope

namespace Lower

open Template (Expr Hash PathExpr Program Span Statement)
open Stencil.Types (Kind LengthLe Node NodeId Store)

/-- Partials are given the same place. -/
theorem place_eq_of_inclusionContext {a b : Scope} (h : a.Alike b) {name : String}
    {params : List Expr} {t t' : AccessPath} (ha : inclusionContext a name params = .ok t)
    (hb : inclusionContext b name params = .ok t') : t.place = t'.place := by
  unfold inclusionContext at ha hb
  split at ha
  · next hempty =>
    rw [if_pos hempty] at hb
    cases ha
    cases hb
    exact h.inner_place_eq
  · next hempty =>
    rw [if_neg hempty] at hb
    exact h.place_eq_of_bind ha hb

/-- Loops over the same place look at the same places, whatever their indices are called. -/
theorem alike_loop {a b : Scope} (h : a.Alike b) {items items' : AccessPath}
    (hitems : items.place = items'.place) (binders : List String) (index index' : String) :
    (a.dive (items.push (.index index))
        (loopAliases binders index (items.push (.index index)))).Alike
      (b.dive (items'.push (.index index'))
        (loopAliases binders index' (items'.push (.index index')))) := by
  have hitem : (items.push (.index index)).place = (items'.push (.index index')).place := by
    rw [AccessPath.place_push, AccessPath.place_push, hitems]
    rfl
  apply h.dive hitem
  have hposition : ∀ name, (⟨.variable name, []⟩ : AccessPath).place = none := fun _ => rfl
  unfold loopAliases
  by_cases hthis : (binders.headD "this" == "this") = true
  · simp only [hthis, if_true, List.map_cons, List.map_nil, hposition]
  · simp only [hthis, Bool.false_eq_true, if_false, List.map_cons, List.map_nil, hposition, hitem]

/-! ## Widths of helpers -/

/-- The length that a helper asks for can be declared. -/
def Helper.Allowed : Helper → Prop
  | .integer signed width => ∀ n, width = some n → (if signed then Kind.int else .uint).allows n
  | .bytes width => Kind.string.allows width = true

theorem integerHelper_allowed {name : String} {signed : Bool} {digits : List Char}
    {helper : Helper} (h : integerHelper name signed digits = .ok helper) : helper.Allowed := by
  unfold integerHelper at h
  split at h
  · cases h
    intro n hn
    cases hn
  · simp only at h
    split at h
    · cases h
    · next hwidth =>
      cases h
      rintro n ⟨⟩
      simp only [Bool.or_eq_true, beq_iff_eq, decide_eq_true_eq, bne_iff_ne, not_or] at hwidth
      have hallows : 8 ≤ widthOf digits ∧ widthOf digits ≤ 256 ∧ widthOf digits % 8 = 0 := by
        omega
      cases signed <;> simpa [Kind.allows, and_assoc] using hallows

theorem bytesHelper_allowed {name : String} {digits : List Char} {helper : Helper}
    (h : bytesHelper name digits = .ok helper) : helper.Allowed := by
  unfold bytesHelper at h
  simp only at h
  split at h
  · cases h
  · next hwidth =>
    cases h
    simp only [Bool.or_eq_true, beq_iff_eq, decide_eq_true_eq, not_or] at hwidth
    have hallows : 1 ≤ widthOf digits ∧ widthOf digits ≤ 32 := by omega
    simpa [Helper.Allowed, Kind.allows] using hallows

/-- No helper asks for a length that cannot be declared. -/
theorem helper_allowed {p : PathExpr} {helper : Helper}
    (h : headHelper? p = .ok (some helper)) : helper.Allowed := by
  have hmap : ∀ {x : Except Error Helper}, (some <$> x) = .ok (some helper) → x = .ok helper := by
    intro x hx
    cases x with
    | error e => cases hx
    | ok other =>
      cases hx
      rfl
  unfold headHelper? at h
  split at h
  · unfold Helper.ofName? at h
    split at h
    · exact integerHelper_allowed (hmap h)
    · exact integerHelper_allowed (hmap h)
    · exact bytesHelper_allowed (hmap h)
    · cases h
  · cases h

/-! ## Uses -/

/-- What a tag does with a piece of data. -/
inductive Use where
  /-- Writes it as text. -/
  | text
  /-- Writes it as a text of some bytes. -/
  | bytes (width : Nat)
  /-- Writes it as a number. -/
  | number (signed : Bool) (width : Option Nat)
  /-- Runs over it. -/
  | items (length : Option Nat)
  /-- Tests it. -/
  | flag
  /-- Passes it to a partial. -/
  | context
  /-- Only looks from there. -/
  | place
  deriving DecidableEq, Repr

/-- What a helper does with its argument. -/
def Helper.use : Helper → Use
  | .integer signed width => .number signed width
  | .bytes width => .bytes width

/-- A node allows a use. -/
def Use.MetBy : Use → Node → Prop
  | .text, node => ∃ length, node = .string length
  | .bytes width, node => ∃ length, node = .string (some length) ∧ width ≤ length
  | .number signed width, node =>
    ∃ length, node = (if signed then .int length else .uint length) ∧ LengthLe width length
  | .items length, node => ∃ known element, node = .array known element ∧
    ∀ n, length = some n → 0 < n → ∃ m, known = some m ∧ n ≤ m
  | .flag, node => node = .bool
  | .context, _ => True
  | .place, _ => True

/-- A statement of a program uses the data at a path, where the program stands in a scope. The
indices of the loops around the statement may have any names. -/
inductive Uses : Scope → Program → AccessPath → Use → Prop where
  | later {scope : Scope} {s : Statement} {rest : Program} {target : AccessPath} {use : Use} :
      Uses scope rest target use → Uses scope (s :: rest) target use
  | text {scope : Scope} {p : PathExpr} {params : List Expr} {hash : Hash} {escaped : Bool}
      {span : Span} {rest : Program} {target : AccessPath} :
      headHelper? p = .ok none → scope.resolve p = .ok target →
        Uses scope (.interpolation (.path p) params hash escaped span :: rest) target .text
  | helper {scope : Scope} {p : PathExpr} {params : List Expr} {hash : Hash} {escaped : Bool}
      {span : Span} {rest : Program} {target : AccessPath} {helper : Helper} :
      headHelper? p = .ok (some helper) →
        (pathArgument params p.written >>= scope.resolve) = .ok target →
        Uses scope (.interpolation (.path p) params hash escaped span :: rest) target helper.use
  | context {scope : Scope} {name : String} {params : List Expr} {hash : Hash} {span : Span}
      {rest : Program} {target : AccessPath} :
      inclusionContext scope name params = .ok target →
        Uses scope (.inclusion name params hash span :: rest) target .context
  | items {scope : Scope} {head : PathExpr} {params : List Expr} {hash : Hash}
      {binders : List String} {body : Program} {inverse : Option Program} {span : Span}
      {rest : Program} {target : AccessPath} {length : Option Nat} :
      blockKind head params = .ok .each →
        (pathArgument params "each" >>= scope.resolve) = .ok target →
        integerKeyword? hash "length" = .ok length →
        Uses scope (.block head params hash binders body inverse span :: rest) target
          (.items length)
  | inLoop {scope : Scope} {head : PathExpr} {params : List Expr} {hash : Hash}
      {binders : List String} {body : Program} {inverse : Option Program} {span : Span}
      {rest : Program} {items target : AccessPath} {use : Use} {index : String} :
      blockKind head params = .ok .each →
        (pathArgument params "each" >>= scope.resolve) = .ok items →
        Uses (scope.dive (items.push (.index index))
          (loopAliases binders index (items.push (.index index)))) body target use →
        Uses scope (.block head params hash binders body inverse span :: rest) target use
  | place {scope : Scope} {head : PathExpr} {params : List Expr} {hash : Hash}
      {binders : List String} {body : Program} {inverse : Option Program} {span : Span}
      {rest : Program} {target : AccessPath} :
      blockKind head params = .ok .dive →
        (pathArgument params "with" >>= scope.resolve) = .ok target →
        Uses scope (.block head params hash binders body inverse span :: rest) target .place
  | inPlace {scope : Scope} {head : PathExpr} {params : List Expr} {hash : Hash}
      {binders : List String} {body : Program} {inverse : Option Program} {span : Span}
      {rest : Program} {place target : AccessPath} {use : Use} :
      blockKind head params = .ok .dive →
        (pathArgument params "with" >>= scope.resolve) = .ok place →
        Uses (scope.dive place []) body target use →
        Uses scope (.block head params hash binders body inverse span :: rest) target use
  | flag {scope : Scope} {head : PathExpr} {params : List Expr} {hash : Hash}
      {binders : List String} {body : Program} {inverse : Option Program} {span : Span}
      {rest : Program} {target : AccessPath} {negated : Bool} :
      blockKind head params = .ok (.conditional negated) →
        (conditionPath head params >>= scope.resolve) = .ok target →
        Uses scope (.block head params hash binders body inverse span :: rest) target .flag
  | inBranch {scope : Scope} {head : PathExpr} {params : List Expr} {hash : Hash}
      {binders : List String} {body : Program} {inverse : Option Program} {span : Span}
      {rest : Program} {target : AccessPath} {use : Use} {negated : Bool} :
      blockKind head params = .ok (.conditional negated) → Uses scope body target use →
        Uses scope (.block head params hash binders body inverse span :: rest) target use
  | inInverse {scope : Scope} {head : PathExpr} {params : List Expr} {hash : Hash}
      {binders : List String} {body otherwise : Program} {span : Span}
      {rest : Program} {target : AccessPath} {use : Use} {negated : Bool} :
      blockKind head params = .ok (.conditional negated) → Uses scope otherwise target use →
        Uses scope (.block head params hash binders body (some otherwise) span :: rest) target use

/-- The accessors of a path lead from a node to another one: each index through an array, and each
member through a struct that has it. -/
inductive Walks (s : Store) : NodeId → List Accessor → NodeId → Prop where
  | nil {id : NodeId} : Walks s id [] id
  | index {id element target : NodeId} {expr : String} {length : Option Nat}
      {rest : List Accessor} :
      s.get id = .array length element → Walks s element rest target →
        Walks s id (.index expr :: rest) target
  | member {id next target : NodeId} {name : String} {members : List (String × NodeId)}
      {rest : List Accessor} :
      s.get id = .struct members → members.lookup name = some next → Walks s next rest target →
        Walks s id (.member name :: rest) target

theorem walks_iff {s : Store} {id target : NodeId} {accessors : List Accessor} :
    Walks s id accessors target ↔ s.follow id (accessors.map Accessor.step) = some target := by
  constructor
  · intro h
    induction h with
    | nil => rfl
    | index hnode _ ih => exact Store.follow_cons.2 ⟨_, by rw [hnode]; rfl, ih⟩
    | member hnode hname _ ih => exact Store.follow_cons.2 ⟨_, by rw [hnode]; exact hname, ih⟩
  · intro h
    induction accessors generalizing id with
    | nil =>
      cases h
      exact .nil
    | cons a accessors ih =>
      obtain ⟨next, hnext, hrest⟩ := Store.follow_cons.1 h
      cases a with
      | index expr =>
        cases hnode : s.get id with
        | array length element =>
          rw [hnode] at hnext
          cases hnext
          exact .index hnode (ih hrest)
        | _ =>
          rw [hnode] at hnext
          cases hnext
      | member name =>
        cases hnode : s.get id with
        | struct members =>
          rw [hnode] at hnext
          exact .member hnode hnext (ih hrest)
        | _ =>
          rw [hnode] at hnext
          cases hnext

end Lower
end Stencil
