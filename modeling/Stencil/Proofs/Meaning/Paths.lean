import Stencil.Proofs.Lower.Evolution
import Stencil.Proofs.Meaning.Execute
import Stencil.Proofs.Meaning.Interpret

/-!
# Data at access paths

References of a template become access paths of generated code. This file shows that they lead to
the same data, in an environment that knows the loop indices of the paths, and that the data is of
the type which lowering has inferred for the path.

* `Bound`, `Fits`  : the loop indices of a path, and of all paths of a scope, are known;
* `eval_segment`   : a segment of a reference is a step of a path;
* `eval_bind`      : paths from outside a loop do not see its index;
* `eval_typed`     : data at a path is of the type of its node, or an element is missing;
* `view_loop`      : what the body of a loop sees.
-/

namespace Stencil

open Lower (loopAliases)
open Meaning
open Stencil.Types (Kind Label NodeId Store)

/-! ## Paths that an environment knows -/

/-- The index of a step is known. -/
def Accessor.Bound (env : Env) : Accessor → Prop
  | .member _ => True
  | .index expr => ∃ k, env.element? expr = some k

/-- All loop indices of a path are known. -/
structure AccessPath.Bound (env : Env) (p : AccessPath) : Prop where
  origin : ∀ name, p.origin = .variable name → ∃ k, env.locals.lookup name = some k
  accessors : ∀ a ∈ p.accessors, a.Bound env

namespace AccessPath

variable {env : Env} {p : AccessPath}

theorem bound_input : (⟨.input, []⟩ : AccessPath).Bound env := by
  refine ⟨?_, ?_⟩
  · intro name h
    cases h
  · intro a ha
    cases ha

theorem Bound.push (h : p.Bound env) {a : Accessor} (ha : a.Bound env) : (p.push a).Bound env := by
  refine ⟨h.origin, ?_⟩
  intro b hb
  rcases List.mem_append.1 hb with hb | hb
  · exact h.accessors b hb
  · rw [List.mem_singleton.1 hb]
    exact ha

/-- A segment of digits is an index that stands for itself. -/
theorem ofSegment_eq (part : String) :
    (∃ k, decimal? part = some k ∧ Accessor.ofSegment part = .index part) ∨
      (decimal? part = none ∧ Accessor.ofSegment part = .member part) := by
  unfold decimal? Accessor.ofSegment
  split
  · exact .inl ⟨_, rfl, rfl⟩
  · exact .inr ⟨rfl, rfl⟩

theorem Bound.segment (part : String) (h : p.Bound env) : (p.segment part).Bound env := by
  refine h.push ?_
  rcases ofSegment_eq part with ⟨k, hk, heq⟩ | ⟨_, heq⟩
  · rw [heq]
    refine ⟨k, ?_⟩
    simp [Env.element?, hk]
  · rw [heq]
    trivial

/-- A segment of a reference is a step of a path. -/
theorem eval_segment (env : Env) (p : AccessPath) (part : String) :
    (p.segment part).eval env = within (p.eval env) part := by
  unfold AccessPath.segment within
  rw [eval_push]
  rcases ofSegment_eq part with ⟨k, hk, heq⟩ | ⟨hnone, heq⟩
  · have hpick : (Accessor.index part).pick env = Value.item k := by
      funext v
      simp [Accessor.pick, Env.element?, hk]
    rw [heq, hk, hpick]
  · have hpick : (Accessor.member part).pick env = Value.member part := by
      funext v
      rfl
    rw [heq, hnone, hpick]

/-! ## Inside a loop -/

theorem lookup_bind {env : Env} {index name : String} (k : Nat)
    (hindex : index ∉ env.locals.map (·.1)) {n : Nat} (h : env.locals.lookup name = some n) :
    (env.bind index k).locals.lookup name = some n := by
  have hne : (name == index) = false := by
    rw [beq_eq_false_iff_ne]
    rintro rfl
    exact hindex (List.mem_map.2 ⟨_, Lookup.mem_of_lookup h, rfl⟩)
  simp [Env.bind, List.lookup_cons, hne, h]

theorem element?_bind {env : Env} {index expr : String} (k : Nat)
    (hindex : index ∉ env.locals.map (·.1)) {n : Nat} (h : env.element? expr = some n) :
    (env.bind index k).element? expr = some n := by
  unfold Env.element? at h ⊢
  -- a number is read the same everywhere, a name is looked up
  cases hdecimal : decimal? expr with
  | some m =>
    rw [hdecimal] at h
    exact h
  | none =>
    rw [hdecimal] at h
    exact lookup_bind k hindex h

theorem Bound.bind {index : String} (hindex : index ∉ env.locals.map (·.1)) (k : Nat)
    (h : p.Bound env) : p.Bound (env.bind index k) := by
  refine ⟨?_, ?_⟩
  · intro name hname
    rcases h.origin name hname with ⟨n, hn⟩
    exact ⟨n, lookup_bind k hindex hn⟩
  · intro a ha
    have hbound := h.accessors a ha
    cases a with
    | member name => trivial
    | index expr =>
      rcases hbound with ⟨n, hn⟩
      exact ⟨n, element?_bind k hindex hn⟩

/-- A path from outside a loop leads to the same data inside it. -/
theorem eval_bind {index : String} (hindex : index ∉ env.locals.map (·.1)) (k : Nat)
    (h : p.Bound env) : p.eval (env.bind index k) = p.eval env := by
  -- the path knows its indices, and the new one is none of them
  have horigin : p.origin.value (env.bind index k) = p.origin.value env := by
    rcases hp : p.origin with _ | name
    · rfl
    · rcases h.origin name hp with ⟨n, hn⟩
      simp only [Origin.value, hn, lookup_bind k hindex hn]
  have hpick : ∀ a ∈ p.accessors, a.pick (env.bind index k) = a.pick env := by
    intro a ha
    have hbound := h.accessors a ha
    funext v
    cases a with
    | member name => rfl
    | index expr =>
      rcases hbound with ⟨n, hn⟩
      simp only [Accessor.pick, hn, element?_bind k hindex hn]
  unfold AccessPath.eval
  rw [horigin]
  refine List.foldl_ext _ _ _ ?_
  intro v a ha
  rw [hpick a ha]

end AccessPath

/-! ## Types of data -/

namespace Meaning

/-- Data of a kind. -/
def Value.Of : Kind → Value → Prop
  | .string, v => ∃ bytes, v = .text bytes
  | .uint, v => ∃ n, v = .number n
  | .int, v => ∃ n, v = .number n
  | .bool, v => ∃ b, v = .flag b
  | .array, v => ∃ items, v = .array items
  | .struct, v => ∃ fields, v = .record fields

/-- Data with a property, unless an element is missing. -/
def Gives (P : Value → Prop) (o : Outcome Value) : Prop :=
  (∃ v, o = .ok v ∧ P v) ∨ o = .error .outOfRange

theorem Gives.mono {P Q : Value → Prop} {o : Outcome Value} (h : Gives P o)
    (himp : ∀ v, P v → Q v) : Gives Q o := by
  rcases h with ⟨v, hv, hP⟩ | herror
  · exact .inl ⟨v, hv, himp v hP⟩
  · exact .inr herror

theorem Gives.bind {P Q : Value → Prop} {o : Outcome Value} {f : Value → Outcome Value}
    (h : Gives P o) (hf : ∀ v, P v → Gives Q (f v)) : Gives Q (o >>= f) := by
  rcases h with ⟨v, rfl, hP⟩ | rfl
  · exact hf v hP
  · exact .inr rfl

/-- Data can be read as what it is. -/
theorem Gives.read {α : Type} {P : Value → Prop} {o : Outcome Value} {read : Value → Outcome α}
    (h : Gives P o) (hread : ∀ v, P v → ∃ a, read v = .ok a) :
    (∃ a, (o >>= read) = .ok a) ∨ (o >>= read) = .error .outOfRange := by
  rcases h with ⟨v, rfl, hP⟩ | rfl
  · exact .inl (hread v hP)
  · exact .inr rfl

end Meaning

namespace Types

theorem Label.of_holds {kind : Kind} {length : Option Nat} {v : Value}
    (h : Label.Holds ⟨some kind, length⟩ v) : v.Of kind := by
  cases kind <;> cases v <;> simp_all [Label.Holds, Value.Of]

variable {s : Store} {env : Env}

theorem of_holds_shape (hs : s.Forest) {id : Nat} {kind : Kind} {v : Value}
    (hv : (s.shape id).Holds v) (hkind : (s.get id).kind? = some kind) : v.Of kind := by
  have hlabel := ((Store.holds_iff hs id v).1 hv).1
  unfold Node.label at hlabel
  rw [hkind] at hlabel
  exact Label.of_holds hlabel

/-- A step leads to data of the type of the node that it leads to. -/
theorem pick_typed (hs : s.Forest) {id c : Nat} {a : Accessor} {v : Value}
    (hv : (s.shape id).Holds v) (hc : (s.get id).child? a.step = some c) (ha : a.Bound env) :
    Gives (s.shape c).Holds (a.pick env v) := by
  rcases (Store.holds_iff hs id v).1 hv with ⟨_, hitems, hfields⟩
  cases a with
  | member name =>
    rcases hfields name c hc with ⟨w, hw, hwc⟩
    refine .inl ⟨w, ?_, hwc⟩
    simp [Accessor.pick, Value.member, hw]
  | index expr =>
    rcases ha with ⟨k, hk⟩
    rcases of_holds_shape hs hv (Node.kind?_of_child? hc) with ⟨items, rfl⟩
    simp only [Accessor.pick, hk, Value.item]
    -- types do not bound what a number in a template asks for
    cases hw : items[k]? with
    | none => exact .inr rfl
    | some w => exact .inl ⟨w, rfl, hitems c hc w (List.mem_of_getElem? hw)⟩

theorem foldl_typed (hs : s.Forest) {id j : Nat} {accessors : List Accessor} {o : Outcome Value}
    (ho : Gives (s.shape id).Holds o) (hbound : ∀ a ∈ accessors, a.Bound env)
    (hj : s.follow id (accessors.map Accessor.step) = some j) :
    Gives (s.shape j).Holds (accessors.foldl (fun v a => v >>= a.pick env) o) := by
  induction accessors generalizing id o with
  | nil =>
    cases hj
    exact ho
  | cons a rest ih =>
    rcases Store.follow_cons.1 hj with ⟨c, hc, hcj⟩
    -- a missing element stays missing for the rest of the path
    refine ih (ho.bind ?_) (fun b hb => hbound b (List.mem_cons_of_mem _ hb)) hcj
    intro v hv
    exact pick_typed hs hv hc (hbound a List.mem_cons_self)

/-- The data at a path of the input has the type of its node. -/
theorem eval_typed (hs : s.Forest) {root j : Nat} {p : AccessPath}
    (hinput : (s.shape root).Holds env.input) (hp : p.Bound env) (horigin : p.origin = .input)
    (hj : s.follow root (p.accessors.map Accessor.step) = some j) :
    Gives (s.shape j).Holds (p.eval env) := by
  have hstart : Gives (s.shape root).Holds (p.origin.value env) := by
    rw [horigin]
    exact .inl ⟨env.input, rfl, hinput⟩
  exact foldl_typed hs hstart hp.accessors hj

/-- The data at a path that was asked to be of some kind is of that kind. -/
theorem eval_narrowed {t : Store} (hs : s.Forest) (hgrows : t.Grows s) {root : Nat} {p : AccessPath}
    {kind : Kind} {length : Option Nat} (hnarrowed : Lower.Narrowed t root p kind length)
    (hinput : (s.shape root).Holds env.input) (hp : p.Bound env) (horigin : p.origin = .input) :
    Gives (·.Of kind) (p.eval env) := by
  rcases hnarrowed horigin with ⟨j, hj, hkind, _⟩
  refine (eval_typed hs hinput hp horigin (hgrows.follow hj)).mono ?_
  intro v hv
  exact of_holds_shape hs hv (hgrows.kind? hkind)

end Types

namespace Meaning

/-! ## Scopes -/

/-- An environment that knows the loop indices of a scope, where `names` are taken. -/
structure Fits (names : List String) (scope : Scope) (env : Env) : Prop where
  bound : scope.view.All (AccessPath.Bound env)
  taken : ∀ name ∈ env.locals.map (·.1), name ∈ names

namespace Fits

variable {names names' : List String} {scope : Scope} {env : Env}

theorem root (v : Value) : Fits names {} ⟨v, []⟩ := by
  refine ⟨⟨⟨AccessPath.bound_input, ?_⟩, ?_⟩, ?_⟩
  · intro e he
    cases he
  · intro s hs
    cases hs
  · intro name hname
    cases hname

theorem mono (h : Fits names scope env) (hsub : names ⊆ names') : Fits names' scope env :=
  ⟨h.bound, fun name hname => hsub (h.taken name hname)⟩

theorem fresh (h : Fits names scope env) {index : String} (hindex : index ∉ names) :
    index ∉ env.locals.map (·.1) :=
  fun hmem => hindex (h.taken index hmem)

/-- Inside a block that looks from another known place. -/
theorem dive (h : Fits names scope env) {path : AccessPath} (hpath : path.Bound env) :
    Fits names (scope.dive path []) env := by
  refine ⟨?_, h.taken⟩
  rw [Scope.view_dive]
  refine h.bound.enter hpath ?_
  intro e he
  cases he

end Fits

/-! ## Loops -/

section

variable {names names' : List String} {scope : Scope} {env : Env} {items : AccessPath}
  {index : String}

theorem reverse_loopAliases (binders : List String) (index : String) (path : AccessPath) :
    (loopAliases binders index path).reverse =
      loopNames binders path ⟨.variable index, []⟩ := by
  unfold loopAliases loopNames
  generalize binders.headD "this" = item, (binders.drop 1).headD indexAlias = position
  by_cases hthis : item = "this"
  · simp [hthis]
  · simp [hthis]

/-- No loop index is a number. -/
theorem decimal?_index (h : index.toList.head? = some '_') : decimal? index = none := by
  rcases List.head?_eq_some_iff.1 h with ⟨rest, hindex⟩
  have hdigit : Char.isDigit '_' = false := by
    decide
  simp [decimal?, hindex, hdigit]

theorem element?_index (hindex : decimal? index = none) (k : Nat) :
    (env.bind index k).element? index = some k := by
  simp [Env.element?, hindex, Env.bind]

/-- Inside a loop, whose index was free. -/
theorem Fits.loop (h : Fits names scope env) (hitems : items.Bound env) (hfree : index ∉ names)
    (hindex : decimal? index = none) (hsub : names ⊆ names') (htaken : index ∈ names')
    (binders : List String) (k : Nat) :
    Fits names' (scope.dive (items.push (.index index))
      (loopAliases binders index (items.push (.index index)))) (env.bind index k) := by
  have hfresh := h.fresh hfree
  have hitem : (items.push (.index index)).Bound (env.bind index k) :=
    (hitems.bind hfresh k).push ⟨k, element?_index hindex k⟩
  have hposition : (⟨.variable index, []⟩ : AccessPath).Bound (env.bind index k) := by
    refine ⟨?_, fun a ha => by cases ha⟩
    rintro name ⟨⟩
    exact ⟨k, by simp [Env.bind]⟩
  refine ⟨?_, ?_⟩
  · rw [Scope.view_dive, reverse_loopAliases]
    -- names from outside still stand for known paths, as the index is new
    refine (h.bound.mono fun p hp => hp.bind hfresh k).enter hitem ?_
    intro e he
    unfold loopNames at he
    dsimp only at he
    split at he
    · rcases List.mem_singleton.1 he with rfl
      exact hposition
    · rcases List.mem_pair.1 he with rfl | rfl
      · exact hitem
      · exact hposition
  · intro name hname
    rcases List.mem_cons.1 hname with rfl | hname
    · exact htaken
    · exact hsub (h.taken name hname)

/-- What the body of a loop sees of its item and of what lies outside. -/
theorem view_loop (h : Fits names scope env) (hitems : items.Bound env) (hfree : index ∉ names)
    (hindex : decimal? index = none) (binders : List String) {xs : List Value} {k : Nat} {x : Value}
    (hxs : items.eval env = .ok (.array xs)) (hx : xs[k]? = some x) :
    (scope.dive (items.push (.index index))
        (loopAliases binders index (items.push (.index index)))).view.map
        (AccessPath.eval (env.bind index k)) =
      (scope.view.map (AccessPath.eval env)).enter (.ok x)
        (loopNames binders (.ok x) (.ok (.number k))) := by
  have hfresh := h.fresh hfree
  have hitem : (items.push (.index index)).eval (env.bind index k) = .ok x := by
    rw [AccessPath.eval_push, AccessPath.eval_bind hfresh k hitems, hxs]
    change (Accessor.index index).pick (env.bind index k) (.array xs) = .ok x
    simp [Accessor.pick, element?_index hindex, Value.item, hx]
  have hposition : (⟨.variable index, []⟩ : AccessPath).eval (env.bind index k) =
      .ok (.number k) := by
    simp [AccessPath.eval, Origin.value, Env.bind]
  -- what the outer blocks see is what they saw before the loop
  have houter : scope.view.map (AccessPath.eval (env.bind index k)) =
      scope.view.map (AccessPath.eval env) :=
    View.map_congr (h.bound.mono fun p hp => AccessPath.eval_bind hfresh k hp)
  rw [Scope.view_dive, reverse_loopAliases, View.map_enter, houter, loopNames_map, hitem, hposition]

end

end Meaning

/-! ## Loop indices -/

namespace AccessPath

/-- Where a path leads. -/
def reach (p : AccessPath) : Reach :=
  match p.origin with
  | .input => .data
  | .variable _ => if p.accessors.isEmpty then .index else .beyond

theorem reach_segment (p : AccessPath) (part : String) :
    (p.segment part).reach = p.reach.segment part := by
  unfold reach AccessPath.segment AccessPath.push
  rcases p with ⟨_ | name, accessors⟩
  · rfl
  · have hsome : (accessors ++ [Accessor.ofSegment part]).isEmpty = false := by
      simp
    simp only [hsome, Bool.false_eq_true, if_false]
    split <;> rfl

theorem origin_of_reach {p : AccessPath} (h : p.reach = .data) : p.origin = .input := by
  rcases p with ⟨_ | name, accessors⟩
  · rfl
  · unfold reach at h
    dsimp only at h
    split at h <;> cases h

/-- A path that is no loop index and does not lead inside one is a path of the input. -/
theorem origin_of_near {p : AccessPath} (hnear : p.reach ≠ .beyond)
    (hdata : p.isVariable = false) : p.origin = .input := by
  rcases p with ⟨_ | name, accessors⟩
  · rfl
  · -- a variable with steps behind it would lead inside an index
    unfold isVariable at hdata
    dsimp only at hdata
    exact absurd (by simp [reach, hdata]) hnear

/-- A loop index is a variable without steps, and stands for its number. -/
theorem eval_index {env : Env} {p : AccessPath} (hbound : p.Bound env)
    (hindex : p.isVariable = true) : ∃ k : Nat, p.eval env = .ok (.number k) := by
  rcases p with ⟨_ | name, accessors⟩
  · cases hindex
  · have hnil : accessors = [] := by
      simpa [isVariable] using hindex
    rcases hbound.origin name rfl with ⟨k, hk⟩
    exact ⟨k, by simp [eval, Origin.value, hnil, hk]⟩

end AccessPath

/-! ## What a tag refers to -/

namespace Lower

open Template (Expr PathExpr)

variable {scope : Scope} {params : List Expr} {target : AccessPath}

theorem argument?_of_pathArgument {context : String}
    (h : (pathArgument params context >>= scope.resolve) = .ok target) :
    argument? AccessPath.segment scope.view params = some target := by
  unfold pathArgument at h
  split at h
  · exact Scope.look_of_resolve h
  all_goals cases h

theorem context?_of_inclusionContext {name : String}
    (h : inclusionContext scope name params = .ok target) :
    context? AccessPath.segment scope.view params = some target := by
  unfold inclusionContext at h
  unfold context?
  split at h
  · next hempty =>
    cases h
    rw [if_pos hempty]
    rfl
  · next hempty =>
    rw [if_neg hempty]
    exact argument?_of_pathArgument h

theorem condition?_of_conditionPath {head : PathExpr}
    (h : (conditionPath head params >>= scope.resolve) = .ok target) :
    condition? AccessPath.segment scope.view head params = some target := by
  unfold conditionPath at h
  unfold condition?
  by_cases hempty : params.isEmpty = true
  · rw [if_pos hempty]
    -- a keyword without an argument is refused
    by_cases hkeyword : (params.isEmpty &&
        !(head.head? == some "if" || head.head? == some "unless")) = true
    · rw [if_pos hkeyword] at h
      exact Scope.look_of_resolve h
    · rw [if_neg hkeyword, List.isEmpty_iff.1 hempty] at h
      cases h
  · have hfalse : params.isEmpty = false := by
      simpa using hempty
    rw [if_neg hempty]
    simp only [hfalse, Bool.false_and, Bool.false_eq_true, if_false] at h
    exact argument?_of_pathArgument h

theorem decimalsOf_eq {hash : Template.Hash} {decimals : Option Nat}
    (h : integerKeyword? hash "decimals" = .ok decimals) : decimals.getD 0 = decimalsOf hash := by
  unfold integerKeyword? at h
  unfold decimalsOf
  cases hkey : hash.lookup "decimals" with
  | none =>
    simp only [hkey, Except.ok.injEq] at h
    rw [← h]
    rfl
  | some e =>
    simp only [hkey] at h
    cases e with
    | number text =>
      unfold integerArgument at h
      dsimp only at h ⊢
      cases hread : Text.readUnsigned Text.bound32 text.toList with
      | none => simp [hread] at h
      | some n =>
        simp only [hread] at h
        cases h
        rfl
    | _ => cases h

end Lower

end Stencil
