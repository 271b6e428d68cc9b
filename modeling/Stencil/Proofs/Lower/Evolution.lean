import Stencil.Lower.Partial
import Stencil.Proofs.Lower.Derivation
import Stencil.Proofs.Name
import Stencil.Proofs.Types.Unification

/-!
# What lowering does to its state

Lowering only ever adds: the store grows, partials are appended, calls are recorded behind those
that are there, and names of local variables stay taken while a function is written.

This file defines:

* `State.Valid`   : the invariant of a state;
* `State.Evolves` : how a state may differ from an earlier one;
* `Lowers`        : the outcome of a computation on a state, as a judgement.

Every function of the lowering has its rule, up to `lowerProgram_lowers`.
-/

namespace Stencil
namespace Lower

open Code (Atom Stmt closeAppends)
open Template (Expr Hash PathExpr Program)
open Stencil.Types (Advances Inference NodeId Store narrow narrow_advances resolveNode
  resolveNode_advances unify unify_advances)

/-! ## Partials -/

/-- A partial with further calls. -/
structure LoweredPartial.Extends (p q : LoweredPartial) : Prop where
  name : q.name = p.name
  input : q.input = p.input
  code : q.code = p.code
  group : q.group = p.group
  callSites : p.callSites <+: q.callSites

theorem LoweredPartial.Extends.refl (p : LoweredPartial) : p.Extends p :=
  ⟨rfl, rfl, rfl, rfl, List.prefix_rfl⟩

theorem LoweredPartial.Extends.trans {p q r : LoweredPartial} (h : p.Extends q)
    (h' : q.Extends r) : p.Extends r :=
  ⟨h'.name.trans h.name, h'.input.trans h.input, h'.code.trans h.code, h'.group.trans h.group,
    h.callSites.trans h'.callSites⟩

/-- Partials that stay where they are, with further calls, and further partials behind them. -/
def PartialsLe (ps qs : List LoweredPartial) : Prop :=
  ∀ (i : Nat) (p : LoweredPartial), ps[i]? = some p → ∃ q, qs[i]? = some q ∧ p.Extends q

namespace PartialsLe

variable {ps qs rs : List LoweredPartial}

theorem refl (ps : List LoweredPartial) : PartialsLe ps ps := by
  intro i p hp
  exact ⟨p, hp, .refl p⟩

theorem trans (h : PartialsLe ps qs) (h' : PartialsLe qs rs) : PartialsLe ps rs := by
  intro i p hp
  rcases h i p hp with ⟨q, hq, hpq⟩
  rcases h' i q hq with ⟨r, hr, hqr⟩
  exact ⟨r, hr, hpq.trans hqr⟩

theorem append (ps extra : List LoweredPartial) : PartialsLe ps (ps ++ extra) := by
  intro i p hp
  refine ⟨p, ?_, .refl p⟩
  rw [List.getElem?_append_left (List.getElem?_eq_some_iff.1 hp).1]
  exact hp

theorem map {f : LoweredPartial → LoweredPartial} (h : ∀ p : LoweredPartial, p.Extends (f p))
    (ps : List LoweredPartial) : PartialsLe ps (ps.map f) := by
  intro i p hp
  refine ⟨f p, ?_, h p⟩
  rw [List.getElem?_map, hp]
  rfl

end PartialsLe

/-! ## States -/

namespace State

/-- The invariant of a state: types lie in one tree, below the input of the template, and partials
differ in their names and have been called with their input. -/
structure Valid (st : State) : Prop where
  forest : st.store.Forest
  nonempty : 0 < st.store.size
  rooted : ∀ i : Nat, i < st.store.size → ∃ p, st.store.follow 0 p = some i
  site_lt : ∀ p ∈ st.partials, ∀ site ∈ p.callSites, site.node < st.store.size
  first : ∀ p ∈ st.partials, ∃ site ∈ p.callSites, site.node = p.input
  names_nodup : (st.partials.map (·.name)).Nodup

theorem Valid.input_lt {st : State} (hst : st.Valid) {p : LoweredPartial} (hp : p ∈ st.partials) :
    p.input < st.store.size := by
  rcases hst.first p hp with ⟨site, hsite, heq⟩
  rw [← heq]
  exact hst.site_lt p hp site hsite

/-- The store of a valid state may grow. -/
theorem Valid.of_grows {st : State} (hst : st.Valid) {s : Store} (hs : s.Forest)
    (hgrows : st.store.Grows s) : Valid { st with store := s } where
  forest := hs
  nonempty := Nat.lt_of_lt_of_le hst.nonempty hgrows.size_le
  rooted := hgrows.rooted hs hst.rooted
  site_lt := by
    intro p hp site hsite
    exact Nat.lt_of_lt_of_le (hst.site_lt p hp site hsite) hgrows.size_le
  first := hst.first
  names_nodup := hst.names_nodup

/-- The invariant does not speak of local variables. -/
theorem Valid.with_locals {st : State} (hst : st.Valid) (locals : Variables) :
    Valid { st with locals } :=
  ⟨hst.forest, hst.nonempty, hst.rooted, hst.site_lt, hst.first, hst.names_nodup⟩

/-- How a state may differ from an earlier one, where the partials in `opened` are not completed. -/
structure Evolves (opened : List String) (st st' : State) : Prop where
  grows : st.store.Grows st'.store
  partials : PartialsLe st.partials st'.partials
  locals : st.locals.names <+: st'.locals.names
  absent : ∀ name ∈ opened, (∀ p ∈ st.partials, p.name ≠ name) → ∀ p ∈ st'.partials, p.name ≠ name

namespace Evolves

variable {opened : List String} {st st' st'' : State}

theorem refl (opened : List String) (st : State) : st.Evolves opened st :=
  ⟨.refl _, .refl _, List.prefix_rfl, fun _ _ h => h⟩

theorem trans (h : st.Evolves opened st') (h' : st'.Evolves opened st'') :
    st.Evolves opened st'' :=
  ⟨h.grows.trans h'.grows, h.partials.trans h'.partials, h.locals.trans h'.locals,
    fun name hname habsent => h'.absent name hname (h.absent name hname habsent)⟩

end Evolves

end State

/-! ## The judgement -/

variable {α β : Type}

/-- The outcome of a computation that started on `st`: if it has a result, the state is valid and
has evolved from `st`, and the result fulfils `post`. -/
def Lowers (opened : List String) (st : State) (post : α → State → Prop) :
    EStateM.Result Error State α → Prop
  | .ok a st' => st'.Valid ∧ st.Evolves opened st' ∧ post a st'
  | .error _ _ => True

namespace Lowers

variable {opened : List String} {st : State}

theorem pure {post : α → State → Prop} (hst : st.Valid) {a : α} (h : post a st) :
    Lowers opened st post (.ok a st) :=
  ⟨hst, .refl _ st, h⟩

theorem of_evolves {post : α → State → Prop} {st' : State} {r : EStateM.Result Error State α}
    (h : st.Evolves opened st') (hr : Lowers opened st' post r) : Lowers opened st post r := by
  cases r with
  | ok a st'' => exact ⟨hr.1, h.trans hr.2.1, hr.2.2⟩
  | error e st'' => exact trivial

theorem of_ok {post : α → State → Prop} {r : EStateM.Result Error State α}
    (h : ∀ a st', r = .ok a st' → st'.Valid ∧ st.Evolves opened st' ∧ post a st') :
    Lowers opened st post r := by
  cases r with
  | ok a st' => exact h a st' rfl
  | error e st' => exact trivial

/-- What a result says about the state that it comes with. -/
theorem reaches {post : α → State → Prop} {r : EStateM.Result Error State α} {root : NodeId}
    (opened : List String) (h : Lowers opened st post r) (hroot : root < st.store.size) {a : α}
    {st' : State} (hr : r = .ok a st') :
    (st'.Valid ∧ root < st'.store.size ∧ st.Evolves opened st') ∧ post a st' := by
  rw [hr] at h
  exact ⟨⟨h.1, Nat.lt_of_lt_of_le hroot h.2.1.grows.size_le, h.2.1⟩, h.2.2⟩

theorem mono {post post' : α → State → Prop} {r : EStateM.Result Error State α}
    (h : Lowers opened st post r)
    (himp : ∀ a st', st'.Valid → st.Evolves opened st' → post a st' → post' a st') :
    Lowers opened st post' r := by
  cases r with
  | ok a st' => exact ⟨h.1, h.2.1, himp a st' h.1 h.2.1 h.2.2⟩
  | error e st' => exact trivial

theorem bind {m : Lowering α} {f : α → Lowering β} {mid : α → State → Prop}
    {post : β → State → Prop} (hm : Lowers opened st mid (m st))
    (hf : ∀ a st', st'.Valid → st.Evolves opened st' → mid a st' →
      Lowers opened st' post (f a st')) :
    Lowers opened st post ((m >>= f) st) := by
  change Lowers opened st post (EStateM.bind m f st)
  unfold EStateM.bind
  cases hr : m st with
  | ok a st' =>
    rw [hr] at hm
    exact of_evolves hm.2.1 (hf a st' hm.1 hm.2.1 hm.2.2)
  | error e st' => exact trivial

theorem get (hst : st.Valid) :
    Lowers opened st (fun a st' => a = st ∧ st' = st) ((MonadState.get : Lowering State) st) :=
  pure hst ⟨rfl, rfl⟩

/-- A result that needs no state. -/
theorem lift (hst : st.Valid) (x : Except Error α) :
    Lowers opened st (fun a st' => x = .ok a ∧ st' = st) (Lowering.lift x st) := by
  cases x with
  | ok a => exact pure hst ⟨rfl, rfl⟩
  | error e => exact trivial

/-- A computation over the store leaves the rest of the state as it is. -/
theorem infer {post : α → Store → Prop} {m : Inference α} (hst : st.Valid)
    (h : Advances st.store post (m st.store)) :
    Lowers opened st (fun a st' => post a st'.store ∧ st' = { st with store := st'.store })
      (Lowering.infer m st) := by
  unfold Lowering.infer
  cases hr : m st.store with
  | ok a s' =>
    rw [hr] at h
    exact ⟨hst.of_grows h.1 h.2.1, ⟨h.2.1, .refl _, List.prefix_rfl, fun _ _ h => h⟩, h.2.2, rfl⟩
  | error e s' => exact trivial

end Lowers

/-! ## Interpolations and heads of blocks -/

variable {opened : List String} {st : State} {root : Nat} {scope : Scope}

/-- The next name for a local variable, unless there is none. -/
theorem allocate_eq (base : String) (st : State) :
    Lowering.allocate base st =
      match st.locals.allocate base with
      | some (name, locals) => .ok name { st with locals }
      | none => .error .endless st := by
  unfold Lowering.allocate
  change EStateM.bind (fun st => .ok st st) _ st = _
  simp only [EStateM.bind]
  cases st.locals.allocate base with
  | some taken => rfl
  | none => rfl

/-- A name taken for a local variable was free, and is taken afterwards. -/
theorem allocate_lowers (hst : st.Valid) {base : String} {c : Char}
    (hbase : base.toList.head? = some c) :
    Lowers opened st
      (fun name st' => name.toList.head? = some c ∧ name ∉ st.locals.names ∧
        name ∈ st'.locals.names ∧ st'.store = st.store ∧ st'.partials = st.partials)
      (Lowering.allocate base st) := by
  rw [allocate_eq]
  unfold Variables.allocate
  cases hname : Name.freshName st.locals.names base with
  | none => exact trivial
  | some name =>
    have hhead := Name.freshName_head hbase hname
    have hfree := Name.freshName_not_mem hname
    refine ⟨hst.with_locals _, ⟨.refl _, .refl _, ?_, fun _ _ h => h⟩, hhead, hfree, ?_, rfl, rfl⟩
    · exact List.prefix_append _ _
    · exact List.mem_append_right _ List.mem_cons_self

/-- What a store says about a place of the input that was asked to be of some kind. -/
def Narrowed (s : Store) (root : NodeId) (path : AccessPath) (kind : Types.Kind)
    (length : Option Nat) : Prop :=
  path.origin = .input →
    ∃ j, s.follow root (path.accessors.map Accessor.step) = some j ∧
      (s.get j).kind? = some kind ∧
      ∀ n, length = some (n + 1) → ∃ m, (s.get j).length? = some m ∧ n + 1 ≤ m

theorem narrow_lowers (hst : st.Valid) (hroot : root < st.store.size) (path : AccessPath)
    (kind : Types.Kind) (length : Option Nat) :
    Lowers opened st
      (fun _ st' => Narrowed st'.store root path kind length ∧
        st' = { st with store := st'.store })
      (Lowering.infer (narrow root path kind length) st) :=
  .infer hst (narrow_advances hst.forest hroot path kind length)

/-- The expressions that an interpolation becomes, and what the store then says about the data in
them. -/
inductive Interpolated (s : Store) (root : NodeId) (scope : Scope) (p : PathExpr)
    (params : List Expr) (hash : Hash) : Atom → Prop where
  | integer {signed : Bool} {width decimals : Option Nat} {target : AccessPath}
      (helper : headHelper? p = .ok (some (.integer signed width)))
      (keyword : integerKeyword? hash "decimals" = .ok decimals)
      (argument : (pathArgument params p.written >>= scope.resolve) = .ok target)
      (narrowed : Narrowed s root target (if signed then .int else .uint) width) :
      Interpolated s root scope p params hash (.number signed target (decimals.getD 0))
  | bytes {width : Nat} {target : AccessPath}
      (helper : headHelper? p = .ok (some (.bytes width)))
      (argument : (pathArgument params p.written >>= scope.resolve) = .ok target)
      (narrowed : Narrowed s root target .string (some width)) :
      Interpolated s root scope p params hash (.value target)
  | index {target : AccessPath} (helper : headHelper? p = .ok none)
      (resolved : scope.resolve p = .ok target) (loopIndex : target.isVariable = true) :
      Interpolated s root scope p params hash (.number false target 0)
  | text {target : AccessPath} (helper : headHelper? p = .ok none)
      (resolved : scope.resolve p = .ok target) (data : target.isVariable = false)
      (narrowed : Narrowed s root target .string none) :
      Interpolated s root scope p params hash (.value target)

theorem interpolation_lowers (hst : st.Valid) (hroot : root < st.store.size) (head : Expr)
    (params : List Expr) (hash : Hash) :
    Lowers opened st
      (fun a st' => (∃ p, head = .path p ∧ Interpolated st'.store root scope p params hash a) ∧
        st' = { st with store := st'.store })
      (interpolation root scope head params hash st) := by
  unfold interpolation
  cases head with
  | path p =>
    refine .bind (.lift hst _) ?_
    rintro helper _ _ _ ⟨hhelper, rfl⟩
    cases helper with
    | some helper =>
      cases helper with
      | integer signed width =>
        refine .bind (.lift hst _) ?_
        rintro _ _ _ _ ⟨_, rfl⟩
        refine .bind (.lift hst _) ?_
        rintro decimals _ _ _ ⟨hdecimals, rfl⟩
        refine .bind (.lift hst _) ?_
        rintro target _ _ _ ⟨htarget, rfl⟩
        refine .bind (narrow_lowers hst hroot target _ width) ?_
        rintro _ st' hst' _ ⟨hnarrowed, heq⟩
        exact .pure hst' ⟨⟨p, rfl, .integer hhelper hdecimals htarget hnarrowed⟩, heq⟩
      | bytes width =>
        refine .bind (.lift hst _) ?_
        rintro _ _ _ _ ⟨_, rfl⟩
        refine .bind (.lift hst _) ?_
        rintro target _ _ _ ⟨htarget, rfl⟩
        refine .bind (narrow_lowers hst hroot target _ _) ?_
        rintro _ st' hst' _ ⟨hnarrowed, heq⟩
        exact .pure hst' ⟨⟨p, rfl, .bytes hhelper htarget hnarrowed⟩, heq⟩
    | none =>
      -- without a helper the head is the path, and its origin decides between index and data
      by_cases hplain : (!params.isEmpty || !hash.isEmpty) = true
      · simp only [hplain, if_true]
        exact trivial
      · simp only [hplain, Bool.false_eq_true, if_false]
        refine .bind (.lift hst _) ?_
        rintro target _ _ _ ⟨htarget, rfl⟩
        by_cases hvariable : target.isVariable = true
        · simp only [hvariable, if_true]
          exact .pure hst ⟨⟨p, rfl, .index hhelper htarget hvariable⟩, rfl⟩
        · have hdata : target.isVariable = false := by
            simpa using hvariable
          simp only [hdata, Bool.false_eq_true, if_false]
          refine .bind (narrow_lowers hst hroot target _ _) ?_
          rintro _ st' hst' _ ⟨hnarrowed, heq⟩
          exact .pure hst' ⟨⟨p, rfl, .text hhelper htarget hdata hnarrowed⟩, heq⟩
  | _ => exact trivial

/-- What opening a loop gives: the data that it runs over, and an index that was free. -/
structure LoopOpened (st st' : State) (root : NodeId) (scope : Scope) (params : List Expr)
    (hash : Hash) (binders : List String) (loop : OpenLoop) : Prop where
  argument : (pathArgument params "each" >>= scope.resolve) = .ok loop.items
  data : loop.items.isVariable = false
  keyword : ∃ length, integerKeyword? hash "length" = .ok length ∧
    Narrowed st'.store root loop.items .array length
  index_head : loop.index.toList.head? = some '_'
  index_free : loop.index ∉ st.locals.names
  index_taken : loop.index ∈ st'.locals.names
  scope_eq : loop.scope = scope.dive (loop.items.push (.index loop.index))
    (loopAliases binders loop.index (loop.items.push (.index loop.index)))
  partials_eq : st'.partials = st.partials

theorem LoopOpened.narrowed {st' : State} {params : List Expr} {hash : Hash}
    {binders : List String} {loop : OpenLoop}
    (h : LoopOpened st st' root scope params hash binders loop) :
    Narrowed st'.store root loop.items .array none := by
  rcases h.keyword with ⟨_, _, hnarrowed⟩
  intro horigin
  rcases hnarrowed horigin with ⟨j, hj, hkind, _⟩
  exact ⟨j, hj, hkind, fun n hn => by cases hn⟩

theorem openLoop_lowers (hst : st.Valid) (hroot : root < st.store.size) (params : List Expr)
    (hash : Hash) (binders : List String) (hasInverse : Bool) :
    Lowers opened st
      (fun loop st' => hasInverse = false ∧ LoopOpened st st' root scope params hash binders loop)
      (openLoop root scope params hash binders hasInverse st) := by
  unfold openLoop
  cases hasInverse with
  | true => exact trivial
  | false =>
    simp only [Bool.false_eq_true, if_false]
    refine .bind (.lift hst _) ?_
    rintro _ _ _ _ ⟨_, rfl⟩
    refine .bind (.lift hst _) ?_
    rintro length _ _ _ ⟨hlength, rfl⟩
    refine .bind (.lift hst _) ?_
    rintro items _ _ _ ⟨hitems, rfl⟩
    cases hvariable : items.isVariable with
    | true => exact trivial
    | false =>
      simp only [Bool.false_eq_true, if_false]
      refine .bind (narrow_lowers hst hroot items .array length) ?_
      rintro _ st₁ hst₁ _ ⟨hnarrowed, heq⟩
      -- an underscore tells an index from the number of an element
      have hbase : indexBase.toList.head? = some '_' := by
        decide
      refine .bind (allocate_lowers hst₁ hbase) ?_
      rintro index st₂ hst₂ _ ⟨hhead, hfree, htaken, hstore, hpartials⟩
      refine .pure hst₂ ⟨trivial, ?_⟩
      refine ⟨hitems, hvariable, ⟨length, hlength, ?_⟩, hhead, ?_, htaken, rfl, ?_⟩
      · rw [hstore]
        exact hnarrowed
      · -- narrowing has changed the store only, so the index was free in `st` too
        rw [heq] at hfree
        exact hfree
      · rw [hpartials, heq]

theorem openCondition_lowers (hst : st.Valid) (hroot : root < st.store.size) (head : PathExpr)
    (params : List Expr) (hash : Hash) :
    Lowers opened st
      (fun path st' => ((conditionPath head params >>= scope.resolve) = .ok path ∧
        path.isVariable = false ∧ Narrowed st'.store root path .bool none) ∧
        st' = { st with store := st'.store })
      (openCondition root scope head params hash st) := by
  unfold openCondition
  refine .bind (.lift hst _) ?_
  rintro _ _ _ _ ⟨_, rfl⟩
  refine .bind (.lift hst _) ?_
  rintro target _ _ _ ⟨htarget, rfl⟩
  cases hvariable : target.isVariable with
  | true => exact trivial
  | false =>
    simp only [Bool.false_eq_true, if_false]
    refine .bind (narrow_lowers hst hroot target .bool none) ?_
    rintro _ st' hst' _ ⟨hnarrowed, heq⟩
    exact .pure hst' ⟨⟨htarget, hvariable, hnarrowed⟩, heq⟩

theorem openWith_ok {inner : Scope} {params : List Expr} {hash : Hash} {hasInverse : Bool}
    (h : openWith scope params hash hasInverse = .ok inner) :
    ∃ target, (pathArgument params "with" >>= scope.resolve) = .ok target ∧
      inner = scope.dive target [] := by
  unfold openWith at h
  cases hasInverse with
  | true => cases h
  | false =>
    rcases Results.bind_eq_ok.1 h with ⟨_, _, h⟩
    rcases Results.bind_eq_ok.1 h with ⟨target, hargument, h⟩
    cases h
    exact ⟨target, hargument, rfl⟩

/-! ## Statements -/

/-- An includer whose outcomes follow the rules, while the partials in `opened` are lowered. -/
def Includer.Lowers (include_ : Includer) (opened : List String) : Prop :=
  ∀ (st : State) (root : Nat) (scope : Scope) (name : String) (params : List Expr) (hash : Hash),
    st.Valid → root < st.store.size →
      Lower.Lowers opened st (fun _ _ => True) (include_ root scope name params hash st)

/-- Lowering a program leads from valid states to valid states. -/
theorem Derivation.reaches {include_ : Includer} (hinclude : include_.Lowers opened)
    {program : Program} {outputs : List CodeOutput} {st' : State}
    (h : Derivation include_ root scope program st outputs st') (hst : st.Valid)
    (hroot : root < st.store.size) :
    st'.Valid ∧ root < st'.store.size ∧ st.Evolves opened st' := by
  induction h with
  | nil => exact ⟨hst, hroot, .refl opened _⟩
  | content _ ih | comment _ ih | constant _ ih => exact ih hst hroot
  | interpolation hatom _ ih =>
    obtain ⟨⟨hst₁, hroot₁, hev₁⟩, _⟩ :=
      (interpolation_lowers hst hroot _ _ _).reaches opened hroot hatom
    obtain ⟨hst', hroot', hev⟩ := ih hst₁ hroot₁
    exact ⟨hst', hroot', hev₁.trans hev⟩
  | inclusion hatom _ ih =>
    obtain ⟨⟨hst₁, hroot₁, hev₁⟩, _⟩ :=
      (hinclude _ root _ _ _ _ hst hroot).reaches opened hroot hatom
    obtain ⟨hst', hroot', hev⟩ := ih hst₁ hroot₁
    exact ⟨hst', hroot', hev₁.trans hev⟩
  | each _ hloop _ _ ihbody ih =>
    obtain ⟨⟨hst₁, hroot₁, hev₁⟩, _⟩ :=
      (openLoop_lowers hst hroot _ _ _ _).reaches opened hroot hloop
    obtain ⟨hst₂, hroot₂, hev₂⟩ := ihbody hst₁ hroot₁
    obtain ⟨hst', hroot', hev⟩ := ih hst₂ hroot₂
    exact ⟨hst', hroot', (hev₁.trans hev₂).trans hev⟩
  | dive _ _ _ _ ihbody ih =>
    obtain ⟨hst₁, hroot₁, hev₁⟩ := ihbody hst hroot
    obtain ⟨hst', hroot', hev⟩ := ih hst₁ hroot₁
    exact ⟨hst', hroot', hev₁.trans hev⟩
  | conditional _ hpath _ _ _ ihbody ihinverse ih =>
    obtain ⟨⟨hst₁, hroot₁, hev₁⟩, _⟩ :=
      (openCondition_lowers hst hroot _ _ _).reaches opened hroot hpath
    obtain ⟨hst₂, hroot₂, hev₂⟩ := ihbody hst₁ hroot₁
    obtain ⟨hst₃, hroot₃, hev₃⟩ := ihinverse hst₂ hroot₂
    obtain ⟨hst', hroot', hev⟩ := ih hst₃ hroot₃
    exact ⟨hst', hroot', ((hev₁.trans hev₂).trans hev₃).trans hev⟩

/-- The body of a function is what a derivation for its program gives. -/
theorem lowerBody_lowers {include_ : Includer} (hinclude : include_.Lowers opened) (hst : st.Valid)
    (hroot : root < st.store.size) (program : Program) :
    Lowers opened st
      (fun code st' => ∃ outputs, Derivation include_ root {} program st outputs st' ∧
        code = closeAppends Stmt.append outputs)
      (lowerBody include_ root program st) := by
  refine .of_ok fun code st' h => ?_
  unfold lowerBody at h
  obtain ⟨outputs, st₁, houtputs, h⟩ := Results.run_bind_eq_ok.1 h
  cases h
  have hderivation := lowerStatements_eq_ok.1 houtputs
  obtain ⟨hst', _, hev⟩ := hderivation.reaches hinclude hst hroot
  exact ⟨hst', hev, outputs, hderivation, rfl⟩

/-! ## Partials -/

/-- A partial with one more call, if it has the given name. -/
def LoweredPartial.called (p : LoweredPartial) (name : String) (site : CallSite) : LoweredPartial :=
  if p.name == name then { p with callSites := p.callSites ++ [site] } else p

theorem LoweredPartial.extends_called (p : LoweredPartial) (name : String) (site : CallSite) :
    p.Extends (p.called name site) := by
  unfold called
  split
  · exact ⟨rfl, rfl, rfl, rfl, List.prefix_append _ _⟩
  · exact .refl p

theorem LoweredPartial.mem_called {p : LoweredPartial} {name : String} {site x : CallSite}
    (h : x ∈ (p.called name site).callSites) : x ∈ p.callSites ∨ x = site := by
  unfold called at h
  split at h
  · simpa using h
  · exact .inl h

theorem addCallSite_lowers (hst : st.Valid) (name : String) (site : CallSite)
    (hsite : site.node < st.store.size) :
    Lowers opened st
      (fun _ st' => st' = { st with partials := st.partials.map (·.called name site) })
      (addCallSite name site st) := by
  change Lowers opened st _
    (.ok () { st with partials := st.partials.map (·.called name site) })
  refine ⟨⟨hst.forest, hst.nonempty, hst.rooted, ?_, ?_, ?_⟩,
    ⟨.refl _, .map (fun p => p.extends_called name site) _, List.prefix_rfl, ?_⟩, rfl⟩
  · intro q hq x hx
    rcases List.mem_map.1 hq with ⟨p, hp, rfl⟩
    rcases LoweredPartial.mem_called hx with hx | rfl
    · exact hst.site_lt p hp x hx
    · exact hsite
  · intro q hq
    rcases List.mem_map.1 hq with ⟨p, hp, rfl⟩
    have hext := p.extends_called name site
    rcases hst.first p hp with ⟨x, hx, heq⟩
    exact ⟨x, hext.callSites.subset hx, heq.trans hext.input.symm⟩
  · have hnames : (st.partials.map (·.called name site)).map (·.name) =
        st.partials.map (·.name) := by
      rw [List.map_map]
      exact List.map_congr_left fun p _ => (p.extends_called name site).name
    simp only [hnames]
    exact hst.names_nodup
  · intro other _ habsent q hq
    rcases List.mem_map.1 hq with ⟨p, hp, rfl⟩
    rw [(p.extends_called name site).name]
    exact habsent p hp

/-- What a call of a partial that has been lowered leaves behind. -/
structure CalledAgain (st st' : State) (known : LoweredPartial) (root : NodeId)
    (group : Option String) (context : AccessPath) : Prop where
  group_eq : known.group = group
  input : context.origin = .input
  site : ∃ node, st'.store.follow root (context.accessors.map Accessor.step) = some node ∧
    st'.partials = st.partials.map (·.called known.name ⟨node, context⟩)

theorem callAgain_lowers (hst : st.Valid) (hroot : root < st.store.size) {known : LoweredPartial}
    (hknown : known ∈ st.partials) (group : Option String) (context : AccessPath) :
    Lowers opened st (fun _ st' => CalledAgain st st' known root group context)
      (callAgain known root group context st) := by
  unfold callAgain
  by_cases hgroup : known.group = group
  · simp only [hgroup, bne_self_eq_false, Bool.false_eq_true, if_false]
    refine .bind (.infer hst (resolveNode_advances hst.forest hroot context)) ?_
    rintro node st₁ hst₁ hev₁ ⟨⟨hinput, hnode⟩, heq₁⟩
    have hroot₁ := Nat.lt_of_lt_of_le hroot hev₁.grows.size_le
    -- both nodes are in the store that `unify` starts from
    have hnode_lt := hst₁.forest.follow_lt hroot₁ hnode
    have hinput_lt := Nat.lt_of_lt_of_le (hst.input_lt hknown) hev₁.grows.size_le
    refine .bind (.infer hst₁ (unify_advances context.text hst₁.forest hnode_lt hinput_lt)) ?_
    rintro _ st₂ hst₂ hev₂ ⟨_, heq₂⟩
    have hnode_lt₂ := Nat.lt_of_lt_of_le hnode_lt hev₂.grows.size_le
    refine (addCallSite_lowers hst₂ known.name ⟨node, context⟩ hnode_lt₂).mono ?_
    rintro _ st₃ _ _ rfl
    -- `unify` only makes the store grow, so the context is still found where it was
    refine ⟨hgroup, hinput, node, hev₂.grows.follow hnode, ?_⟩
    rw [heq₂, heq₁]
  · have hbne : (known.group != group) = true := by
      simp [hgroup]
    simp only [hbne, if_true]
    exact trivial

theorem inNewFunction_eq (m : Lowering α) (st : State) :
    Lowering.inNewFunction m st =
      match m { st with locals := {} } with
      | .ok a st' => .ok a { st' with locals := st.locals }
      | .error e st' => .error e st' := by
  change (EStateM.bind m _ { st with locals := {} }) = _
  unfold EStateM.bind
  cases m { st with locals := {} } <;> rfl

/-- The partial that a first call adds. -/
def newPartial (name : String) (node : NodeId) (code : List Stmt) (group : Option String)
    (context : AccessPath) : LoweredPartial :=
  { name, input := node, code, group, callSites := [⟨node, context⟩] }

/-- What the first call of a partial leaves behind: the states before and after its body. -/
structure CalledFirst (include_ : Includer) (st st' : State) (root : NodeId) (name : String)
    (group : Option String) (context : AccessPath) (program : Program) (node : NodeId)
    (code : List Stmt) (before after : State) : Prop where
  input : context.origin = .input
  node_eq : before.store.follow root (context.accessors.map Accessor.step) = some node
  valid : before.Valid
  grows : st.store.Grows before.store
  before_eq : before = { st with store := before.store, locals := {} }
  body : lowerBody include_ node program before = .ok code after
  after_eq : st' = { after with
    locals := st.locals
    partials := after.partials ++ [newPartial name node code group context] }

theorem callFirst_lowers {include_ : Includer} {name : String}
    (hinclude : include_.Lowers (name :: opened)) (hst : st.Valid) (hroot : root < st.store.size)
    (hopened : name ∉ opened) (hnew : ∀ p ∈ st.partials, p.name ≠ name) (group : Option String)
    (context : AccessPath) (program : Program) :
    Lowers opened st
      (fun _ st' => ∃ node code before after,
        CalledFirst include_ st st' root name group context program node code before after)
      (callFirst include_ root name group context program st) := by
  unfold callFirst
  refine .bind (.infer hst (resolveNode_advances hst.forest hroot context)) ?_
  rintro node st₁ hst₁ hev₁ ⟨⟨hinput, hnode⟩, heq₁⟩
  have hroot₁ := Nat.lt_of_lt_of_le hroot hev₁.grows.size_le
  have hnode_lt := hst₁.forest.follow_lt hroot₁ hnode
  -- the body runs with no locals and the old ones are put back, so it is run by hand here:
  -- `Lowers.bind` would ask the locals to evolve
  change Lowers opened st₁ _ (EStateM.bind (Lowering.inNewFunction _) _ st₁)
  unfold EStateM.bind
  rw [inNewFunction_eq]
  have hbody := lowerBody_lowers hinclude (hst₁.with_locals {}) hnode_lt program
  cases hrun : lowerBody include_ node program { st₁ with locals := {} } with
  | error e st₂ => exact trivial
  | ok code st₂ =>
    rw [hrun] at hbody
    rcases hbody with ⟨hst₂, hev₂, _⟩
    have hnode_lt₂ : node < st₂.store.size := Nat.lt_of_lt_of_le hnode_lt hev₂.grows.size_le
    -- the name is open while the body is lowered, so the body cannot have added it
    have habsent : ∀ p ∈ st₂.partials, p.name ≠ name := by
      refine hev₂.absent name List.mem_cons_self ?_
      intro p hp
      rw [heq₁] at hp
      exact hnew p hp
    change Lowers opened st₁ _ (.ok () { st₂ with
      locals := st₁.locals
      partials := st₂.partials ++ [newPartial name node code group context] })
    refine ⟨⟨hst₂.forest, hst₂.nonempty, hst₂.rooted, ?_, ?_, ?_⟩,
      ⟨hev₂.grows, hev₂.partials.trans (.append _ _), List.prefix_rfl, ?_⟩, ?_⟩
    · intro p hp site hsite
      rcases List.mem_append.1 hp with hp | hp
      · exact hst₂.site_lt p hp site hsite
      · have hp' := List.mem_singleton.1 hp
        subst hp'
        have hsite' := List.mem_singleton.1 hsite
        subst hsite'
        exact hnode_lt₂
    · intro p hp
      rcases List.mem_append.1 hp with hp | hp
      · exact hst₂.first p hp
      · have hp' := List.mem_singleton.1 hp
        subst hp'
        exact ⟨⟨node, context⟩, List.mem_singleton.2 rfl, rfl⟩
    · -- the new name is absent from what the body leaves
      rw [List.map_append, List.nodup_append]
      refine ⟨hst₂.names_nodup, List.nodup_singleton _, ?_⟩
      intro x hx y hy
      rcases List.mem_map.1 hx with ⟨p, hp, rfl⟩
      have hy' := List.mem_singleton.1 hy
      subst hy'
      exact habsent p hp
    · intro other hother habsent' p hp
      rcases List.mem_append.1 hp with hp | hp
      · exact hev₂.absent other (List.mem_cons_of_mem _ hother) habsent' p hp
      · have hp' := List.mem_singleton.1 hp
        subst hp'
        -- the added name is open now, but it was not before
        rintro rfl
        exact hopened hother
    · refine ⟨node, code, { st₁ with locals := {} }, st₂, ?_⟩
      refine ⟨hinput, hnode, hst₁.with_locals {}, hev₁.grows, ?_, hrun, ?_⟩
      · rw [heq₁]
      · rw [heq₁]

/-- The call that an inclusion becomes, by whether its partial has been lowered before. -/
inductive Included (programs : List (String × Program)) (level : Nat) (opened : List String)
    (st st' : State) (root : NodeId) (scope : Scope) (name : String) (params : List Expr)
    (hash : Hash) : Atom → Prop where
  | again {program : Program} {group : Option String} {context : AccessPath}
      {known : LoweredPartial} (found : programs.lookup name = some program)
      (library : groupArgument hash = .ok group)
      (argument : inclusionContext scope name params = .ok context)
      (mem : known ∈ st.partials) (name_eq : known.name = name)
      (called : CalledAgain st st' known root group context) :
      Included programs level opened st st' root scope name params hash (.call group name context)
  | first {below : Nat} {program : Program} {group : Option String} {context : AccessPath}
      {node : NodeId} {code : List Stmt} {before after : State} (level_eq : level = below + 1)
      (found : programs.lookup name = some program)
      (library : groupArgument hash = .ok group)
      (argument : inclusionContext scope name params = .ok context)
      (called : CalledFirst (includePartial programs below (name :: opened)) st st' root name group
        context program node code before after) :
      Included programs level opened st st' root scope name params hash (.call group name context)

theorem includePartial_spec (programs : List (String × Program)) {level : Nat}
    (hbelow : ∀ below name, level = below + 1 → name ∉ opened →
      (includePartial programs below (name :: opened)).Lowers (name :: opened))
    (hst : st.Valid) (hroot : root < st.store.size) (name : String) (params : List Expr)
    (hash : Hash) :
    Lowers opened st
      (fun a st' => Included programs level opened st st' root scope name params hash a)
      (includePartial programs level opened root scope name params hash st) := by
  unfold includePartial
  cases hname : Name.isIdentifier name with
  | false => exact trivial
  | true =>
    simp only [Bool.not_true, Bool.false_eq_true, if_false]
    cases hfound : programs.lookup name with
    | none => exact trivial
    | some program =>
      refine .bind (.lift hst _) ?_
      rintro _ _ _ _ ⟨_, rfl⟩
      refine .bind (.lift hst _) ?_
      rintro group _ _ _ ⟨hgroup, rfl⟩
      refine .bind (.lift hst _) ?_
      rintro context _ _ _ ⟨hcontext, rfl⟩
      refine .bind (.get hst) ?_
      rintro _ st _ _ ⟨rfl, rfl⟩
      cases hknown : st.partials.find? (·.name == name) with
      | some known =>
        have hmem := List.mem_of_find?_eq_some hknown
        have heq : known.name = name := by
          simpa using List.find?_some hknown
        refine .bind (callAgain_lowers hst hroot hmem group context) ?_
        intro _ st' hst' _ hcalled
        exact .pure hst' (.again hfound hgroup hcontext hmem heq hcalled)
      | none =>
        have hnew : ∀ p ∈ st.partials, p.name ≠ name := by
          intro p hp
          simpa using List.find?_eq_none.1 hknown p hp
        by_cases hopened : name ∈ opened
        · simp only [List.contains_iff_mem.2 hopened, if_true]
          exact trivial
        · have hcontains : opened.contains name = false := by
            simpa using hopened
          simp only [hcontains, Bool.false_eq_true, if_false]
          -- without a level left, the call is refused like one of a partial that is open
          cases level with
          | zero => exact trivial
          | succ below =>
            refine .bind (callFirst_lowers (hbelow below name rfl hopened) hst hroot hopened hnew
              group context program) ?_
            rintro _ st' hst' _ ⟨node, code, before, after, hcalled⟩
            exact .pure hst' (.first rfl hfound hgroup hcontext hcalled)

/-- Inclusions of a level make use of those of the level below, inside one more partial. -/
theorem level_induction {motive : Nat → List String → Prop}
    (step : ∀ level opened, (∀ below name, level = below + 1 → motive below (name :: opened)) →
      motive level opened) (level : Nat) (opened : List String) : motive level opened := by
  induction level generalizing opened with
  | zero =>
    refine step 0 opened ?_
    -- at level 0 no body is lowered
    rintro below name ⟨⟩
  | succ level ih =>
    refine step (level + 1) opened ?_
    rintro below name ⟨⟩
    exact ih (name :: opened)

theorem includePartial_lowers (programs : List (String × Program)) (level : Nat)
    (opened : List String) : (includePartial programs level opened).Lowers opened := by
  induction level, opened using level_induction with
  | step level opened hbelow =>
    intro st root scope name params hash hst hroot
    refine (includePartial_spec programs ?_ hst hroot name params hash).mono fun _ _ _ _ _ => trivial
    exact fun below other hlevel _ => hbelow below other hlevel

theorem lowerProgram_lowers (programs : List (String × Program)) (hst : st.Valid)
    (hroot : root < st.store.size) (program : Program) :
    Lowers [] st (fun _ _ => True) (lowerProgram programs root program st) :=
  (lowerBody_lowers (includePartial_lowers programs _ []) hst hroot program).mono
    fun _ _ _ _ _ => trivial

/-- The state that lowering starts in. -/
def State.initial : State := { store := (Store.newRoot {}).2 }

theorem State.get_initial {id : Nat} (h : id < State.initial.store.size) :
    State.initial.store.get id = .struct [] := by
  have hid : id = 0 := Nat.lt_one_iff.1 h
  subst hid
  rfl

theorem State.child?_initial (id : Nat) (σ : Step) :
    (State.initial.store.get id).child? σ = none := by
  by_cases h : id < State.initial.store.size
  · rw [get_initial h]
    cases σ <;> rfl
  · rw [Store.get_of_size_le (Nat.le_of_not_lt h)]
    exact Types.Node.child?_unknown σ

theorem State.valid_initial : State.initial.Valid where
  forest := by
    refine ⟨?_, ?_, ?_, ?_⟩
    · intro id c σ hc
      rw [child?_initial] at hc
      cases hc
    · intro id c σ hc
      rw [child?_initial] at hc
      cases hc
    · intro i j c σ τ hc
      rw [child?_initial] at hc
      cases hc
    · intro id members hm
      by_cases h : id < State.initial.store.size
      · rw [get_initial h] at hm
        cases hm
        exact List.nodup_nil
      · rw [Store.get_of_size_le (Nat.le_of_not_lt h)] at hm
        cases hm
  nonempty := Nat.zero_lt_one
  rooted := by
    intro i hi
    have hzero : i = 0 := Nat.lt_one_iff.1 hi
    exact ⟨[], by rw [hzero]; rfl⟩
  site_lt := by
    intro p hp
    cases hp
  first := by
    intro p hp
    cases hp
  names_nodup := List.nodup_nil

end Lower
end Stencil
