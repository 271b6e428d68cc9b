import Stencil.Proofs.Lower.Rounds
import Stencil.Proofs.Lower.Typing
import Stencil.Proofs.Meaning.Simulation

/-!
# Lowered templates have types

The types that lowering ends with are a typing of the template. While statements are lowered, types
still grow and partials are still added, so that what a statement needs is said about the types `s`
and the partials `ps` in the end.

* `signatures s ps`   : what the types in the end say about the partials;
* `PartialsFit`       : the partials lowered first have types;
* `Checks`            : what lowering a program has to establish.

The main result is `lower_typing`.
-/

namespace Stencil
namespace Lower

open Meaning (Before Finished partials_length_le)
open Template (Expr Hash PathExpr Program Span Statement)
open Stencil.Types (Kind NodeId Shape Store)

/-! ## Demands -/

section

variable {opened : List String} {st : State} {root : Nat}

/-- What was asked of some data is met by its type in the end. -/
theorem Narrowed.metBy {d : Demand} {s t : Store}
    (h : Narrowed t root d.target d.kind d.length) (hs : s.Forest) (hgrows : t.Grows s) :
    d.MetBy (s.shape root) := by
  intro horigin
  obtain ⟨j, hj, hkind, hlength⟩ := h horigin
  refine ⟨s.shape j, ?_, ?_⟩
  · rw [Store.follow_shape hs, hgrows.follow hj]
    rfl
  · rw [Store.label_shape hs]
    refine ⟨?_, ?_⟩
    · intro kind hk
      cases hk
      exact hgrows.kind? hkind
    · intro n hn
      -- a length of zero asks for nothing, so that a length that is asked for is reached
      have hlabel : d.length = some n ∧ n ≠ 0 := by
        unfold Demand.label at hn
        split at hn
        · next m hm =>
          cases hn
          exact ⟨hm, Nat.succ_ne_zero m⟩
        · cases hn
      obtain ⟨m, rfl⟩ := Nat.exists_eq_succ_of_ne_zero hlabel.2
      obtain ⟨known, hknown, hle⟩ := hlength m hlabel.1
      obtain ⟨final, hfinal, hle'⟩ := (hgrows.label_le j).2 known hknown
      exact ⟨final, hfinal, Nat.le_trans hle hle'⟩

theorem Demand.narrow_lowers (hst : st.Valid) (hroot : root < st.store.size) (d : Demand) :
    Lowers opened st
      (fun _ st' => (∀ s : Store, s.Forest → st'.store.Grows s → d.MetBy (s.shape root)) ∧
        st' = { st with store := st'.store })
      (d.narrow root st) := by
  refine (Lower.narrow_lowers hst hroot d.target d.kind d.length).mono ?_
  rintro _ st' _ _ ⟨hnarrowed, heq⟩
  exact ⟨fun s hs hgrows => hnarrowed.metBy hs hgrows, heq⟩

end

/-! ## Partials -/

section

variable (s : Store) (ps : List LoweredPartial) (programs : List (String × Program))

/-- What types say about a partial. -/
def LoweredPartial.signature (p : LoweredPartial) : Signature :=
  { name := p.name, group := p.group, input := s.shape p.input }

def signatures : List Signature := ps.map (·.signature s)

/-- The first `n` partials have types, each with those before it. -/
def PartialsFit (n : Nat) : Prop :=
  ∀ (i : Nat) (σ : Signature), i < n → (signatures s ps)[i]? = some σ →
    σ.Typed programs ((signatures s ps).take i)

/-- What lowering a program from `st` to `st'` has to do, where it goes on to `s` and `ps`: loops take
their names one after the other, the partials that it adds have types, and its statements fit,
whatever the indices of loops around them are called. -/
structure Checks (st : State) (root : NodeId) (scope : Scope) (P : Program) (st' : State) :
    Prop where
  loops : ∀ k, Variables.after k = some st.locals →
    Variables.after (k + programLoops P) = some st'.locals
  fits : Before s ps st' → PartialsFit s ps programs st.partials.length →
    PartialsFit s ps programs st'.partials.length ∧
      ∀ other, scope.Parallel other → ∀ x ∈ P,
        Fits programs ((signatures s ps).take st'.partials.length) (s.shape root) other x

/-- An includer that does so for inclusions. -/
def Includer.Checks (include_ : Includer) (opened : List String) : Prop :=
  ∀ (st : State) (root : Nat) (scope : Scope) (name : String) (params : List Expr) (hash : Hash)
    (span : Span), st.Valid → root < st.store.size →
      Lower.Lowers opened st
        (fun _ st' =>
          Lower.Checks s ps programs st root scope [.inclusion name params hash span] st')
        (include_ root scope name params hash st)

end

section

variable {s : Store} {ps : List LoweredPartial} {programs : List (String × Program)}
  {opened : List String} {include_ : Includer} {root : Nat} {scope : Scope}

/-- The signature of a partial is where the partial is. -/
theorem getElem?_signatures {st : State} (h : Before s ps st) {i : Nat} {p : LoweredPartial}
    (hp : st.partials[i]? = some p) :
    (signatures s ps)[i]? = some (p.signature s) := by
  obtain ⟨q, hq, hextends⟩ := h.partials i p hp
  have hsignature : q.signature s = p.signature s := by
    unfold LoweredPartial.signature
    rw [hextends.name, hextends.group, hextends.input]
  rw [signatures, List.getElem?_map, hq, ← hsignature]
  rfl

namespace Checks

theorem nil {st : State} : Checks s ps programs st root scope [] st where
  loops := fun k hk => hk
  fits := by
    intro _ hpartials
    refine ⟨hpartials, ?_⟩
    intro other _ x hx
    cases hx

/-- One statement, and then the others. -/
theorem cons {st st₁ st₂ : State} {x : Statement} {rest : Program}
    (h : Checks s ps programs st root scope [x] st₁)
    (h' : Checks s ps programs st₁ root scope rest st₂) (hev : st₁.Evolves opened st₂) :
    Checks s ps programs st root scope (x :: rest) st₂ where
  loops := by
    intro k hk
    have hrest := h'.loops _ (h.loops k hk)
    simpa [programLoops, Nat.add_assoc] using hrest
  fits := by
    intro hbefore hpartials
    obtain ⟨hpartials₁, hfirst⟩ := h.fits (hbefore.of_evolves hev) hpartials
    obtain ⟨hpartials₂, hrest⟩ := h'.fits hbefore hpartials₁
    refine ⟨hpartials₂, ?_⟩
    intro other hother y hy
    obtain rfl | hy := List.mem_cons.1 hy
    · -- the partials that the first statement needs are still there
      have hsub := List.take_subset_take_left (signatures s ps) (partials_length_le hev.partials)
      exact (hfirst other hother y List.mem_cons_self).mono hsub
    · exact hrest other hother y hy

/-- A statement without loops and inclusions. -/
theorem plain {st st' : State} {x : Statement} (hpartials : st'.partials = st.partials)
    (hlocals : st'.locals = st.locals) (hloops : statementLoops x = 0)
    (h : Before s ps st' → ∀ other, scope.Parallel other → ∀ Γ,
      Fits programs Γ (s.shape root) other x) : Checks s ps programs st root scope [x] st' where
  loops := by
    intro k hk
    simpa [programLoops, hloops, hlocals] using hk
  fits := by
    intro hbefore hfit
    rw [hpartials]
    refine ⟨hfit, ?_⟩
    intro other hother y hy
    cases List.mem_singleton.1 hy
    exact h hbefore other hother _

end Checks

/-! ## Statements -/

section

variable {st st₁ st₂ st₃ : State} {head : PathExpr} {params : List Expr} {hash : Hash}
  {binders : List String} {body : Program} {inverse : Option Program} {span : Span}

theorem interpolation_checks (hs : s.Forest) (hst : st.Valid) (hroot : root < st.store.size)
    (head : Expr) (escaped : Bool) :
    Lowers opened st
      (fun _ st' => Checks s ps programs st root scope
        [.interpolation head params hash escaped span] st')
      (interpolation root scope head params hash st) := by
  rw [interpolation_eq]
  apply Lowers.bind (.lift hst _)
  rintro ⟨atom, demand⟩ st _ _ ⟨hplan, rfl⟩
  cases demand with
  | none =>
    -- the index of a loop, of which nothing is asked
    refine .pure hst (.plain rfl rfl rfl ?_)
    intro _ other hother Γ
    obtain ⟨plan', hplan', hmet⟩ := interpolationPlan_parallel hother hplan
    refine .interpolation hplan' (hmet _ ?_)
    intro d hd
    cases hd
  | some d =>
    apply Lowers.bind (d.narrow_lowers hst hroot)
    rintro _ st' hst' _ ⟨hmet, heq⟩
    refine .pure hst' (.plain (by rw [heq]) (by rw [heq]) rfl ?_)
    intro hbefore other hother Γ
    obtain ⟨plan', hplan', hmet'⟩ := interpolationPlan_parallel hother hplan
    refine .interpolation hplan' (hmet' _ ?_)
    intro d' hd'
    cases hd'
    exact hmet s hs hbefore.grows

/-- What opening a loop leaves behind: its demand is met, and one more name is taken. -/
theorem openLoop_checks (hst : st.Valid) (hroot : root < st.store.size) (hasInverse : Bool) :
    Lowers opened st
      (fun loop st' => ∃ d, loopPlan scope params hash hasInverse = .ok d ∧
        loop.scope = loopScope scope binders d.target loop.index ∧
        (∀ s : Store, s.Forest → st'.store.Grows s → d.MetBy (s.shape root)) ∧
        st'.partials = st.partials ∧
        st.locals.allocate indexBase = some (loop.index, st'.locals))
      (openLoop root scope params hash binders hasInverse st) := by
  rw [openLoop_eq]
  apply Lowers.bind (.lift hst _)
  rintro d st _ _ ⟨hplan, rfl⟩
  apply Lowers.bind (d.narrow_lowers hst hroot)
  rintro _ st₁ hst₁ _ ⟨hmet, heq₁⟩
  apply Lowers.bind (allocate_takes hst₁ indexBase)
  rintro index st₂ hst₂ _ ⟨hindex, heq₂⟩
  refine .pure hst₂ ⟨d, hplan, rfl, ?_, ?_, ?_⟩
  · intro s hs hgrows
    rw [heq₂] at hgrows
    exact hmet s hs hgrows
  · rw [heq₂, heq₁]
  · rw [heq₁] at hindex
    exact hindex

theorem Checks.each (hs : s.Forest) (hst : st.Valid) (hroot : root < st.store.size)
    (hkind : blockKind head params = .ok .each) {loop : OpenLoop}
    (hloop : openLoop root scope params hash binders false st = .ok loop st₁)
    (h : Checks s ps programs st₁ root loop.scope body st₂) (hev : st₁.Evolves opened st₂) :
    Checks s ps programs st root scope [.block head params hash binders body none span] st₂ := by
  obtain ⟨_, d, hplan, hscope, hmet, hpartials, hindex⟩ :=
    (openLoop_checks hst hroot false).reaches opened hroot hloop
  refine ⟨?_, ?_⟩
  · intro k hk
    have hnext : Variables.after (k + 1) = some st₁.locals := by
      rw [Variables.after, hk, Option.bind_some, hindex]
      rfl
    have hloops := h.loops (k + 1) hnext
    simpa [programLoops, statementLoops_each hkind, Nat.add_assoc] using hloops
  · intro hbefore hfit
    rw [← hpartials] at hfit
    obtain ⟨hfit₂, hinner⟩ := h.fits hbefore hfit
    refine ⟨hfit₂, ?_⟩
    intro other hother x hx
    cases List.mem_singleton.1 hx
    obtain ⟨e, he, hparallel⟩ := loopPlan_parallel hother hplan
    have hmet' : e.MetBy (s.shape root) :=
      hparallel.metBy (hmet s hs (hev.grows.trans hbefore.grows))
    refine .each hkind he hmet' (hinner _ ?_)
    rw [hscope]
    exact loopScope_parallel hother hparallel.1 binders loop.index indexBase

theorem Checks.dive {inner : Scope} (hkind : blockKind head params = .ok .dive)
    (hopen : openWith scope params hash false = .ok inner)
    (h : Checks s ps programs st root inner body st₁) :
    Checks s ps programs st root scope [.block head params hash binders body none span] st₁ := by
  refine ⟨?_, ?_⟩
  · intro k hk
    have hloops := h.loops k hk
    simpa [programLoops, statementLoops_dive hkind] using hloops
  · intro hbefore hfit
    obtain ⟨hfit₁, hfits⟩ := h.fits hbefore hfit
    refine ⟨hfit₁, ?_⟩
    intro other hother x hx
    cases List.mem_singleton.1 hx
    obtain ⟨inner', hinner', hparallel⟩ := openWith_parallel hother hopen
    exact .dive hkind hinner' (hfits inner' hparallel)

theorem openCondition_checks (hst : st.Valid) (hroot : root < st.store.size) :
    Lowers opened st
      (fun _ st' => ∃ d, conditionPlan scope head params hash = .ok d ∧
        (∀ s : Store, s.Forest → st'.store.Grows s → d.MetBy (s.shape root)) ∧
        st' = { st with store := st'.store })
      (openCondition root scope head params hash st) := by
  rw [openCondition_eq]
  apply Lowers.bind (.lift hst _)
  rintro d st _ _ ⟨hplan, rfl⟩
  apply Lowers.bind (d.narrow_lowers hst hroot)
  rintro _ st' hst' _ ⟨hmet, heq⟩
  exact .pure hst' ⟨d, hplan, hmet, heq⟩

theorem Checks.conditional {negated : Bool} {path : AccessPath} (hs : s.Forest) (hst : st.Valid)
    (hroot : root < st.store.size) (hkind : blockKind head params = .ok (.conditional negated))
    (hpath : openCondition root scope head params hash st = .ok path st₁)
    (h : Checks s ps programs st₁ root scope body st₂) (hev₂ : st₁.Evolves opened st₂)
    (h' : Checks s ps programs st₂ root scope (inverse.getD []) st₃)
    (hev₃ : st₂.Evolves opened st₃) :
    Checks s ps programs st root scope [.block head params hash binders body inverse span]
      st₃ := by
  obtain ⟨_, d, hplan, hmet, heq⟩ := (openCondition_checks hst hroot).reaches opened hroot hpath
  have hpartials := congrArg State.partials heq
  have hlocals := congrArg State.locals heq
  refine ⟨?_, ?_⟩
  · intro k hk
    have hloops := h'.loops _ (h.loops k (hk.trans (congrArg some hlocals.symm)))
    simpa [programLoops, statementLoops_conditional hkind, Nat.add_assoc] using hloops
  · intro hbefore hfit
    have hbefore₂ := hbefore.of_evolves hev₃
    obtain ⟨hfit₂, hfirst⟩ := h.fits hbefore₂ (hpartials ▸ hfit)
    obtain ⟨hfit₃, hsecond⟩ := h'.fits hbefore hfit₂
    refine ⟨hfit₃, ?_⟩
    intro other hother x hx
    cases List.mem_singleton.1 hx
    obtain ⟨e, he, hparallel⟩ := conditionPlan_parallel hother hplan
    -- the flag is still met when all is lowered, and so is what the first branch needs
    have hmet' : e.MetBy (s.shape root) :=
      hparallel.metBy (hmet s hs (hev₂.grows.trans hbefore₂.grows))
    have hsub := List.take_subset_take_left (signatures s ps) (partials_length_le hev₃.partials)
    refine .conditional hkind he hmet' (fun y hy => (hfirst other hother y hy).mono hsub) ?_
    rintro otherwise rfl
    exact hsecond other hother

end

theorem Includer.Checks.lowers (hinclude : include_.Checks s ps programs opened) :
    include_.Lowers opened :=
  fun st root scope name params hash hst hroot =>
    (hinclude st root scope name params hash {} hst hroot).mono fun _ _ _ _ _ => trivial

theorem Derivation.checks (hs : s.Forest) (hinclude : include_.Checks s ps programs opened)
    {P : Program} {st st' : State} {outputs : List CodeOutput}
    (h : Derivation include_ root scope P st outputs st') (hst : st.Valid)
    (hroot : root < st.store.size) : Checks s ps programs st root scope P st' := by
  induction h with
  | nil => exact .nil
  | content hrest ih =>
    have hev := (hrest.reaches hinclude.lowers hst hroot).2.2
    exact .cons (.plain rfl rfl rfl fun _ _ _ _ => .content) (ih hst hroot) hev
  | comment hrest ih =>
    have hev := (hrest.reaches hinclude.lowers hst hroot).2.2
    exact .cons (.plain rfl rfl rfl fun _ _ _ _ => .comment) (ih hst hroot) hev
  | constant hrest ih =>
    have hev := (hrest.reaches hinclude.lowers hst hroot).2.2
    exact .cons (.plain rfl rfl rfl fun _ _ _ _ => .constant) (ih hst hroot) hev
  | interpolation hatom hrest ih =>
    obtain ⟨⟨hst₁, hroot₁, _⟩, hchecks⟩ :=
      (interpolation_checks hs hst hroot _ _).reaches opened hroot hatom
    exact hchecks.cons (ih hst₁ hroot₁) (hrest.reaches hinclude.lowers hst₁ hroot₁).2.2
  | inclusion hatom hrest ih =>
    obtain ⟨⟨hst₁, hroot₁, _⟩, hchecks⟩ :=
      (hinclude _ root _ _ _ _ _ hst hroot).reaches opened hroot hatom
    exact hchecks.cons (ih hst₁ hroot₁) (hrest.reaches hinclude.lowers hst₁ hroot₁).2.2
  | each hkind hloop hbody hrest ihbody ih =>
    obtain ⟨⟨hst₁, hroot₁, _⟩, _⟩ :=
      (openLoop_lowers hst hroot _ _ _ _).reaches opened hroot hloop
    obtain ⟨hst₂, hroot₂, hev₂⟩ := hbody.reaches hinclude.lowers hst₁ hroot₁
    have hev := (hrest.reaches hinclude.lowers hst₂ hroot₂).2.2
    refine .cons ?_ (ih hst₂ hroot₂) hev
    exact .each hs hst hroot hkind hloop (ihbody hst₁ hroot₁) hev₂
  | dive hkind hopen hbody hrest ihbody ih =>
    obtain ⟨hst₁, hroot₁, _⟩ := hbody.reaches hinclude.lowers hst hroot
    have hev := (hrest.reaches hinclude.lowers hst₁ hroot₁).2.2
    exact .cons (.dive hkind hopen (ihbody hst hroot)) (ih hst₁ hroot₁) hev
  | conditional hkind hpath hbody hinverse hrest ihbody ihinverse ih =>
    obtain ⟨⟨hst₁, hroot₁, _⟩, _⟩ :=
      (openCondition_lowers hst hroot _ _ _).reaches opened hroot hpath
    obtain ⟨hst₂, hroot₂, hev₂⟩ := hbody.reaches hinclude.lowers hst₁ hroot₁
    obtain ⟨hst₃, hroot₃, hev₃⟩ := hinverse.reaches hinclude.lowers hst₂ hroot₂
    have hev := (hrest.reaches hinclude.lowers hst₃ hroot₃).2.2
    refine .cons ?_ (ih hst₃ hroot₃) hev
    exact .conditional hs hst hroot hkind hpath (ihbody hst₁ hroot₁) hev₂ (ihinverse hst₂ hroot₂)
      hev₃

theorem lowerBody_checks (hs : s.Forest) (hinclude : include_.Checks s ps programs opened)
    {st : State} (hst : st.Valid) (hroot : root < st.store.size) (P : Program) :
    Lowers opened st (fun _ st' => Checks s ps programs st root {} P st')
      (lowerBody include_ root P st) := by
  refine (lowerBody_lowers hinclude.lowers hst hroot P).mono ?_
  rintro _ st' _ _ ⟨outputs, hderivation, rfl⟩
  exact hderivation.checks hs hinclude hst hroot

/-! ## Inclusions -/

section

variable {st st' : State} {name : String} {params : List Expr} {hash : Hash} {span : Span}
  {i : Inclusion}

/-- An inclusion fits if its context was recorded as a call of the partial. -/
theorem inclusion_fits (hfin : Finished s ps) (hbefore : Before s ps st')
    (hplan : inclusionPlan programs scope name params hash = .ok i)
    (horigin : i.context.origin = .input) {p : LoweredPartial} (hp : p ∈ st'.partials)
    (hname : p.name = name) (hgroup : p.group = i.group) {site : CallSite}
    (hsite : site ∈ p.callSites)
    (hnode : st'.store.follow root (i.context.accessors.map Accessor.step) = some site.node)
    {other : Scope} (hother : scope.Parallel other) :
    Fits programs ((signatures s ps).take st'.partials.length) (s.shape root) other
      (.inclusion name params hash span) := by
  obtain ⟨j, hj⟩ := List.mem_iff_getElem?.1 hp
  obtain ⟨hlt, _⟩ := List.getElem?_eq_some_iff.1 hj
  have hσ : p.signature s ∈ (signatures s ps).take st'.partials.length := by
    apply List.mem_of_getElem? (i := j)
    rw [List.getElem?_take_of_lt hlt]
    exact getElem?_signatures hbefore hj
  -- the context has the type of the input, as all contexts of the partial have in the end
  have hsame : (s.shape site.node).Same (s.shape p.input) := by
    obtain ⟨q, hq, hextends⟩ := hbefore.partials j p hj
    rw [← hextends.input]
    exact hfin.same q (List.mem_of_getElem? hq) site (hextends.callSites.subset hsite)
  obtain ⟨i', hplan', _, hgroup', houtline⟩ := inclusionPlan_parallel hother hplan
  refine .inclusion hplan' (AccessPath.origin_eq_of_outline houtline horigin) hσ hname
    (hgroup.trans hgroup') ?_ hsame
  rw [← AccessPath.steps_eq_of_outline houtline, Store.follow_shape hfin.forest,
    hbefore.grows.follow hnode]
  rfl

/-- The call of a partial that has been lowered before. -/
theorem calledAgain_checks (hfin : Finished s ps)
    (hplan : inclusionPlan programs scope name params hash = .ok i)
    (hlocals : st'.locals = st.locals) {known : LoweredPartial} (hknown : known ∈ st.partials)
    (hname : known.name = name) (hcalled : CalledAgain st st' known root i.group i.context) :
    Checks s ps programs st root scope [.inclusion name params hash span] st' where
  loops := by
    intro k hk
    rw [hlocals]
    exact hk
  fits := by
    obtain ⟨node, hnode, hpartials⟩ := hcalled.site
    intro hbefore hfit
    have hlength : st'.partials.length = st.partials.length := by
      rw [hpartials, List.length_map]
    refine ⟨?_, ?_⟩
    · rw [hlength]
      exact hfit
    · intro other hother x hx
      cases List.mem_singleton.1 hx
      have hextends := known.extends_called known.name ⟨node, i.context⟩
      have hmem : known.called known.name ⟨node, i.context⟩ ∈ st'.partials := by
        rw [hpartials]
        exact List.mem_map_of_mem hknown
      have hsite : ⟨node, i.context⟩ ∈
          (known.called known.name ⟨node, i.context⟩).callSites := by
        simp [LoweredPartial.called]
      exact inclusion_fits hfin hbefore hplan hcalled.input hmem (hextends.name.trans hname)
        (hextends.group.trans hcalled.group_eq) hsite hnode hother

/-- The first call of a partial, whose body is lowered for it. -/
theorem calledFirst_checks (hfin : Finished s ps)
    (hinclude : include_.Checks s ps programs (name :: opened))
    (hplan : inclusionPlan programs scope name params hash = .ok i)
    (hroot : root < st.store.size) {node : NodeId} {code : List Code.Stmt} {before after : State}
    (hcalled : CalledFirst include_ st st' root name i.group i.context i.program node code before
      after) :
    Checks s ps programs st root scope [.inclusion name params hash span] st' := by
  have hroot₁ := Nat.lt_of_lt_of_le hroot hcalled.grows.size_le
  have hnode := hcalled.valid.forest.follow_lt hroot₁ hcalled.node_eq
  have hbody := lowerBody_checks hfin.forest hinclude hcalled.valid hnode i.program
  rw [hcalled.body] at hbody
  obtain ⟨_, hev, hchecks⟩ := hbody
  have hpartials : st'.partials =
      after.partials ++ [newPartial name node code i.group i.context] := by
    rw [hcalled.after_eq]
  refine ⟨?_, ?_⟩
  · intro k hk
    rw [hcalled.after_eq]
    exact hk
  · intro hbefore hfit
    -- the body was lowered before its partial was added
    have hbefore₂ : Before s ps after := by
      refine ⟨?_, ?_⟩
      · have hgrows := hbefore.grows
        rw [hcalled.after_eq] at hgrows
        exact hgrows
      · have hle := hbefore.partials
        rw [hpartials] at hle
        exact PartialsLe.trans (.append _ _) hle
    have hfit₁ : PartialsFit s ps programs before.partials.length := by
      rw [hcalled.before_eq]
      exact hfit
    obtain ⟨hfit₂, hfits⟩ := hchecks.fits hbefore₂ hfit₁
    have hlast : st'.partials[after.partials.length]? =
        some (newPartial name node code i.group i.context) := by
      rw [hpartials]
      exact List.getElem?_concat_length
    refine ⟨?_, ?_⟩
    · intro j σ hj hσ
      rw [hpartials, List.length_append, List.length_singleton] at hj
      obtain hlt | rfl := Nat.lt_succ_iff_lt_or_eq.1 hj
      · exact hfit₂ j σ hlt hσ
      · -- the new partial: its body was lowered for the node of its first call
        rw [getElem?_signatures hbefore hlast] at hσ
        cases hσ
        obtain ⟨_, hprogram, _⟩ := inclusionPlan_eq_ok.1 hplan
        have hstart : Variables.after 0 = some before.locals := by
          rw [hcalled.before_eq]
          rfl
        have hloops := hchecks.loops 0 hstart
        rw [Nat.zero_add] at hloops
        exact ⟨i.program, hprogram, by rw [hloops]; rfl, hfits {} (.refl _)⟩
    · intro other hother x hx
      cases List.mem_singleton.1 hx
      have hmem := List.mem_of_getElem? hlast
      have hfollow : st'.store.follow root (i.context.accessors.map Accessor.step) = some node := by
        rw [hcalled.after_eq]
        exact hev.grows.follow hcalled.node_eq
      exact inclusion_fits hfin hbefore hplan hcalled.input hmem rfl rfl
        (List.mem_singleton.2 rfl) hfollow hother

theorem included_checks (hfin : Finished s ps) {level : Nat}
    (hbelow : ∀ below name, level = below + 1 →
      (includePartial programs below (name :: opened)).Checks s ps programs (name :: opened))
    (hplan : inclusionPlan programs scope name params hash = .ok i)
    (hlocals : st'.locals = st.locals) (hroot : root < st.store.size) {a : Code.Atom}
    (h : Included programs level opened st st' root scope name params hash a) :
    Checks s ps programs st root scope [.inclusion name params hash span] st' := by
  obtain ⟨_, hprogram, _, hgroup, hcontext⟩ := inclusionPlan_eq_ok.1 hplan
  cases h with
  | again _ library argument mem name_eq called =>
    -- the group and the context of the call are those of the plan
    rw [hgroup] at library
    cases library
    rw [hcontext] at argument
    cases argument
    exact calledAgain_checks hfin hplan hlocals mem name_eq called
  | first level_eq found library argument called =>
    rw [hprogram] at found
    cases found
    rw [hgroup] at library
    cases library
    rw [hcontext] at argument
    cases argument
    exact calledFirst_checks hfin (hbelow _ name level_eq) hplan hroot called

end

theorem includePartial_checks (hfin : Finished s ps) (level : Nat) (opened : List String) :
    (includePartial programs level opened).Checks s ps programs opened := by
  induction level, opened using level_induction with
  | step level opened hbelow =>
    intro st root scope name params hash span hst hroot
    have hspec : Lowers opened st
        (fun a st' => Included programs level opened st st' root scope name params hash a)
        (includePartial programs level opened root scope name params hash st) :=
      includePartial_spec programs
        (fun below other _ _ => includePartial_lowers programs below (other :: opened)) hst hroot
        name params hash
    cases hrun : includePartial programs level opened root scope name params hash st with
    | error e st' => exact trivial
    | ok a st' =>
      rw [hrun] at hspec
      obtain ⟨hst', hev, hincluded⟩ := hspec
      obtain ⟨i, hplan, hcall⟩ := plan_of_includePartial hrun
      have hlocals := i.call_keepsLocals programs level opened root name st () st' hcall
      exact ⟨hst', hev, included_checks hfin hbelow hplan hlocals hroot hincluded⟩

end

/-! ## Lowered templates -/

/-- The types of a lowered template are a typing of it. -/
theorem lower_typing {programs : List (String × Program)} {P : Program} {l : Lowered}
    (h : lower programs P = .ok l) :
    Typing programs P (signatures l.store l.partials) (l.store.shape 0) := by
  obtain ⟨st, st', hlower, hfinish, hpartials, hstore, _⟩ := lower_ok.1 h
  have hst := valid_of_lowerProgram hlower
  obtain ⟨hst', hgrows, hpartials', hsettled⟩ :=
    settleTypes_correct hst ((finish_ok_iff hst).1 hfinish)
  have hfin : Finished l.store l.partials := by
    rw [hstore, hpartials]
    exact ⟨hst'.forest, hsettled⟩
  -- the rounds after lowering make the types grow and leave the partials alone
  have hbefore : Before l.store l.partials st := by
    rw [hstore, hpartials, hpartials']
    exact ⟨hgrows, .refl _⟩
  have hinclude : (includePartial programs programs.length []).Checks l.store l.partials
      programs [] :=
    includePartial_checks hfin programs.length []
  have hbody := lowerBody_checks hfin.forest hinclude State.valid_initial
    State.valid_initial.nonempty P
  change Lowers _ _ _ (lowerProgram programs 0 P State.initial) at hbody
  rw [hlower] at hbody
  obtain ⟨_, hev, hchecks⟩ := hbody
  have hempty : PartialsFit l.store l.partials programs State.initial.partials.length := by
    intro i σ hi
    cases hi
  obtain ⟨hfit, hfits⟩ := hchecks.fits hbefore hempty
  have hlength : (signatures l.store l.partials).length = st.partials.length := by
    rw [signatures, List.length_map, hpartials, hpartials']
  refine ⟨?_, ?_, ?_, ?_, ?_⟩
  · -- the input is a struct from the start
    rw [Store.label_shape hfin.forest]
    exact (hev.grows.trans hbefore.grows).kind? (k := .struct) rfl
  · have hnames : (signatures l.store l.partials).map (·.name) = st'.partials.map (·.name) := by
      rw [signatures, List.map_map, hpartials]
      rfl
    rw [hnames]
    exact hst'.names_nodup
  · intro i σ hσ
    refine hfit i σ ?_ hσ
    rw [← hlength]
    exact (List.getElem?_eq_some_iff.1 hσ).1
  · have hloops := hchecks.loops 0 rfl
    rw [Nat.zero_add] at hloops
    rw [hloops]
    rfl
  · have hall : (signatures l.store l.partials).take st.partials.length =
        signatures l.store l.partials := by
      rw [← hlength, List.take_length]
    rw [hall] at hfits
    exact hfits {} (.refl _)

end Lower
end Stencil
