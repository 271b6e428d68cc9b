import Stencil.Proofs.Meaning.Agreement
import Stencil.Proofs.Meaning.Paths
import Stencil.Proofs.Results

/-!
# Lowering keeps the text

Every statement becomes code that appends the text of the statement. Code is written while types
are still being inferred and functions are still being added, so this is said about the types `s`
and the functions `ps` that all lowering ends with, which a state is on the way to (`Before`).

* `Renders`         : code that appends a text, in every environment that fits its scope;
* `PartialsRender`  : the functions of a state render the programs of their partials;
* `Correct`         : what lowering a statement has to establish.

The code of a function calls only functions that were completed before it, so agreement of calls
is assumed for these only (`CallsAgree`).
-/

namespace Stencil
namespace Meaning

open Code (Atom Fragment Output Stmt closeAppends)
open Lower
open Template (Expr Hash PathExpr Program Statement)
open Stencil.Types (NodeId Store)

/-! ## Final types and functions -/

/-- Types and functions in which all contexts of a partial have the type of its input. -/
structure Finished (s : Store) (ps : List LoweredPartial) : Prop where
  forest : s.Forest
  same : ∀ p ∈ ps, ∀ site ∈ p.callSites, (s.shape site.node).Same (s.shape p.input)

/-- A state from which lowering goes on to the given types and functions. -/
structure Before (s : Store) (ps : List LoweredPartial) (st : State) : Prop where
  grows : st.store.Grows s
  partials : PartialsLe st.partials ps

theorem Before.of_evolves {s : Store} {ps : List LoweredPartial} {opened : List String}
    {st st' : State} (h : Before s ps st') (hev : st.Evolves opened st') : Before s ps st :=
  ⟨hev.grows.trans h.grows, hev.partials.trans h.partials⟩

theorem partials_length_le {ps qs : List LoweredPartial} (h : PartialsLe ps qs) :
    ps.length ≤ qs.length := by
  by_contra hlt
  have hin : qs.length < ps.length := Nat.lt_of_not_le hlt
  -- the function at the position behind the last one would need a counterpart
  rcases h qs.length _ (List.getElem?_eq_getElem hin) with ⟨q, hq, _⟩
  simp at hq

/-! ## Rendering -/

section

variable (set : Setting) (s : Store) (ps : List LoweredPartial)

/-- Calls of the first `n` functions give the texts of their partials. -/
def CallsAgree (n : Nat) (text : String → Value → Outcome Bytes)
    (code : Option String → String → Value → Outcome Bytes) : Prop :=
  ∀ (i : Nat) (p : LoweredPartial), i < n → ps[i]? = some p → ∀ v, (s.shape p.input).Holds v →
    Agrees (text p.name v) (code p.group p.name v)

/-- Code that appends a text in every environment that fits its scope, once the calls of the first
`n` functions agree. -/
def Renders (n : Nat) (root : NodeId) (scope : Scope) (names : List String)
    (text : (String → Value → Outcome Bytes) → View (Outcome Value) → Outcome Bytes)
    (code : List Stmt) : Prop :=
  ∀ callText callCode env, CallsAgree s ps n callText callCode →
    (s.shape root).Holds env.input → Fits names scope env →
      Yields (text callText (scope.view.map (AccessPath.eval env)))
        (runStmts set callCode env code)

/-- Each function renders the program of its partial, with calls of earlier functions only. -/
def PartialsRender (programs : List (String × Program)) (qs : List LoweredPartial) : Prop :=
  ∀ (i : Nat) (q : LoweredPartial), qs[i]? = some q → ∃ program,
    programs.lookup q.name = some program ∧
      Renders set s ps i q.input {} [] (fun call view => textsOf set call view program) q.code

/-- What lowering from `st` to `st'` has to establish for the code that it gives. -/
def Correct (programs : List (String × Program)) (st : State) (root : NodeId) (scope : Scope)
    (text : (String → Value → Outcome Bytes) → View (Outcome Value) → Outcome Bytes)
    (outputs : List CodeOutput) (st' : State) : Prop :=
  Before s ps st' → PartialsRender set s ps programs st.partials →
    PartialsRender set s ps programs st'.partials ∧
      Renders set s ps st'.partials.length root scope st.locals.names text (outputCode outputs)

end

section

variable {set : Setting} {s : Store} {ps : List LoweredPartial} {n : Nat} {root : NodeId}
  {scope : Scope} {names : List String}
  {text : (String → Value → Outcome Bytes) → View (Outcome Value) → Outcome Bytes}
  {code : List Stmt}

theorem CallsAgree.mono {m : Nat} {callText : String → Value → Outcome Bytes}
    {callCode : Option String → String → Value → Outcome Bytes}
    (h : CallsAgree s ps n callText callCode) (hle : m ≤ n) :
    CallsAgree s ps m callText callCode :=
  fun i p hi => h i p (Nat.lt_of_lt_of_le hi hle)

theorem Renders.mono {m : Nat} {names' : List String}
    (h : Renders set s ps n root scope names text code) (hle : n ≤ m) (hsub : names' ⊆ names) :
    Renders set s ps m root scope names' text code := by
  intro callText callCode env hcalls hinput hfits
  exact h callText callCode env (hcalls.mono hle) hinput (hfits.mono hsub)

theorem Renders.nil : Renders set s ps n root scope names (fun _ _ => .ok []) [] := by
  intro callText callCode env _ _ _
  exact Yields.nil

/-- One after the other. -/
theorem Renders.seq
    {text' : (String → Value → Outcome Bytes) → View (Outcome Value) → Outcome Bytes}
    {code' : List Stmt} (h : Renders set s ps n root scope names text code)
    (h' : Renders set s ps n root scope names text' code') :
    Renders set s ps n root scope names
      (fun call view => do let first ← text call view; return first ++ (← text' call view))
      (code ++ code') := by
  intro callText callCode env hcalls hinput hfits
  have hfirst := h callText callCode env hcalls hinput hfits
  have hsecond := h' callText callCode env hcalls hinput hfits
  intro result
  rw [runStmts_append]
  exact hfirst.seq hsecond result

/-- The code of a branch does what its outputs do. -/
theorem Renders.branch {body : Program} {outputs : List CodeOutput}
    (h : Renders set s ps n root scope names text (outputCode outputs)) :
    Renders set s ps n root scope names text (Branch.of body outputs).code := by
  intro callText callCode env hcalls hinput hfits
  rw [code_of]
  exact h callText callCode env hcalls hinput hfits

/-- An expression that is appended by itself. -/
theorem Renders.atom {a : Atom}
    (h : ∀ callText callCode env, CallsAgree s ps n callText callCode →
      (s.shape root).Holds env.input → Fits names scope env →
        Agrees (text callText (scope.view.map (AccessPath.eval env))) (runAtom set callCode env a)) :
    Renders set s ps n root scope names text (outputCode (appendAtom a)) := by
  intro callText callCode env hcalls hinput hfits
  exact yields_append (h callText callCode env hcalls hinput hfits)

end

/-! ## References -/

section

variable {scope : Scope} {params : List Expr} {target : AccessPath} {env : Env}
  {names : List String}

theorem found_look {p : PathExpr} (h : scope.view.look AccessPath.segment p = some target)
    (env : Env) :
    found ((scope.view.map (AccessPath.eval env)).look within p) = target.eval env := by
  rw [View.look_map (AccessPath.eval_segment env), h]
  rfl

theorem found_argument (h : argument? AccessPath.segment scope.view params = some target)
    (env : Env) :
    found (argument? within (scope.view.map (AccessPath.eval env)) params) = target.eval env := by
  rw [argument?_map (AccessPath.eval_segment env), h]
  rfl

theorem found_context (h : context? AccessPath.segment scope.view params = some target)
    (env : Env) :
    found (context? within (scope.view.map (AccessPath.eval env)) params) = target.eval env := by
  rw [context?_map (AccessPath.eval_segment env), h]
  rfl

theorem found_condition {head : PathExpr}
    (h : condition? AccessPath.segment scope.view head params = some target) (env : Env) :
    found (condition? within (scope.view.map (AccessPath.eval env)) head params) =
      target.eval env := by
  rw [condition?_map (AccessPath.eval_segment env), h]
  rfl

/-- Whether the references of a scope lead to data or to loop indices. -/
abbrev reachView (scope : Scope) : View Reach := scope.view.map AccessPath.reach

theorem reach_look {p : PathExpr} (h : scope.view.look AccessPath.segment p = some target) :
    (reachView scope).look Reach.segment p = some target.reach := by
  rw [View.look_map AccessPath.reach_segment, h]
  rfl

theorem reach_argument (h : argument? AccessPath.segment scope.view params = some target) :
    argument? Reach.segment (reachView scope) params = some target.reach := by
  rw [argument?_map AccessPath.reach_segment, h]
  rfl

theorem reach_condition {head : PathExpr}
    (h : condition? AccessPath.segment scope.view head params = some target) :
    condition? Reach.segment (reachView scope) head params = some target.reach := by
  rw [condition?_map AccessPath.reach_segment, h]
  rfl

theorem ne_beyond_of_isNear {r : Option Reach} {reach : Reach} (hr : r = some reach)
    (hnear : Reach.isNear r = true) : reach ≠ .beyond := by
  rintro rfl
  rw [hr] at hnear
  cases hnear

end

/-! ## Expressions -/

section

variable {set : Setting} {s : Store} {ps : List LoweredPartial} {n : Nat} {root : Nat}
  {scope : Scope} {names : List String}

theorem content_renders (value : String) :
    Renders set s ps n root scope names (fun _ _ => .ok (utf8 value))
      (outputCode (if value.isEmpty then [] else appendAtom (.literal value))) := by
  split
  · next hempty =>
    have hnil : utf8 value = [] := by
      rw [String.isEmpty_iff.1 hempty]
      rfl
    rw [hnil]
    exact .nil
  · refine .atom ?_
    intro _ _ _ _ _ _
    simp only [runAtom, readLiteral_literal]
    exact .ok _

/-- A helper for integers is given data, or a loop index if its numbers are unsigned. -/
theorem number_of_plain {p : PathExpr} {params : List Expr} {signed : Bool} {width : Option Nat}
    {target : AccessPath} (hhelper : headHelper? p = .ok (some (.integer signed width)))
    (hargument : argument? AccessPath.segment scope.view params = some target)
    (hplain : plainInterpolation (reachView scope) (.path p) params = true) :
    target.origin = .input ∨ target.isVariable = true := by
  cases signed with
  | true =>
    refine .inl (AccessPath.origin_of_reach ?_)
    simpa [plainInterpolation, hhelper, Reach.isData, reach_argument hargument] using hplain
  | false =>
    have hnear : target.reach ≠ .beyond := by
      refine ne_beyond_of_isNear (reach_argument hargument) ?_
      simpa [plainInterpolation, hhelper] using hplain
    cases hindex : target.isVariable with
    | true => exact .inr rfl
    | false => exact .inl (AccessPath.origin_of_near hnear hindex)

/-- What a helper for integers is given can be read as a number, unless an element is missing. -/
theorem integer_reads {t : Store} (hfin : Finished s ps) (hgrows : t.Grows s) {signed : Bool}
    {width : Option Nat} {target : AccessPath} {env : Env}
    (hnarrowed : Narrowed t root target (if signed then .int else .uint) width)
    (hinput : (s.shape root).Holds env.input) (hbound : target.Bound env)
    (hleads : target.origin = .input ∨ target.isVariable = true) :
    Agrees (target.eval env >>= Value.asNumber) (target.eval env >>= Value.asNumber) := by
  rcases hleads with horigin | hindex
  · have hnumber : ∀ v : Value, v.Of (if signed then .int else .uint) →
        ∃ k, v.asNumber = .ok k := by
      intro v hv
      cases signed <;> (rcases hv with ⟨k, rfl⟩; exact ⟨k, rfl⟩)
    exact .of_read (Gives.read
      (Types.eval_narrowed hfin.forest hgrows hnarrowed hinput hbound horigin) hnumber)
  · rcases AccessPath.eval_index hbound hindex with ⟨k, heval⟩
    rw [heval]
    exact .ok (k : Int)

/-- An interpolation becomes an expression with its text. -/
theorem interpolation_renders {t : Store} (hfin : Finished s ps) (hgrows : t.Grows s)
    {p : PathExpr} {params : List Expr} {hash : Hash} {a : Atom}
    (h : Interpolated t root scope p params hash a)
    (hplain : plainInterpolation (reachView scope) (.path p) params = true) :
    Renders set s ps n root scope names
      (fun _ view => interpolated set view (.path p) params hash) (outputCode (appendAtom a)) := by
  refine .atom ?_
  intro callText callCode env _ hinput hfits
  cases h with
  | @integer signed width decimals target helper keyword argument narrowed =>
    have hargument := argument?_of_pathArgument argument
    have hbound := argument?_all (fun _ part => .segment part) hfits.bound hargument
    have hnumber :
        Agrees (target.eval env >>= Value.asNumber) (target.eval env >>= Value.asNumber) :=
      integer_reads hfin hgrows narrowed hinput hbound (number_of_plain helper hargument hplain)
    simp only [interpolated, helper, found_argument hargument, runAtom, decimalsOf_eq keyword]
    exact hnumber.bind fun k => .ok _
  | @bytes width target helper argument narrowed =>
    have hargument := argument?_of_pathArgument argument
    have hbound := argument?_all (fun _ part => .segment part) hfits.bound hargument
    have horigin : target.origin = .input := by
      refine AccessPath.origin_of_reach ?_
      simpa [plainInterpolation, helper, Reach.isData, reach_argument hargument] using hplain
    have htext : ∀ v : Value, v.Of .string → ∃ bytes, v.asText = .ok bytes := by
      rintro _ ⟨bytes, rfl⟩
      exact ⟨bytes, rfl⟩
    have hgives := Types.eval_narrowed hfin.forest hgrows narrowed hinput hbound horigin
    simp only [interpolated, helper, found_argument hargument, runAtom]
    exact .of_read (hgives.read htext)
  | @index target helper resolved loopIndex =>
    have hlook := Scope.look_of_resolve resolved
    have hbound := hfits.bound.look (fun _ part _ => .segment part) hlook
    rcases AccessPath.eval_index hbound loopIndex with ⟨k, heval⟩
    simp only [interpolated, helper, found_look hlook, runAtom, heval]
    exact .ok _
  | @text target helper resolved data narrowed =>
    have hlook := Scope.look_of_resolve resolved
    have hbound := hfits.bound.look (fun _ part _ => .segment part) hlook
    have horigin : target.origin = .input := by
      refine AccessPath.origin_of_near ?_ data
      refine ne_beyond_of_isNear (reach_look hlook) ?_
      simpa [plainInterpolation, helper] using hplain
    simp only [interpolated, helper, found_look hlook, runAtom]
    rcases Types.eval_narrowed hfin.forest hgrows narrowed hinput hbound horigin with
      ⟨_, heval, bytes, rfl⟩ | hmissing
    · rw [heval]
      exact .ok bytes
    · rw [hmissing]
      exact .missing

/-! ## Blocks -/

theorem reachView_loop {items : AccessPath} (hitems : items.origin = .input)
    (binders : List String) (index : String) :
    reachView (scope.dive (items.push (.index index))
        (loopAliases binders index (items.push (.index index)))) =
      (reachView scope).enter .data (loopNames binders .data .index) := by
  have hitem : (items.push (.index index)).reach = .data := by
    simp [AccessPath.reach, AccessPath.push, hitems]
  have hposition : (⟨.variable index, []⟩ : AccessPath).reach = .index := rfl
  rw [reachView, Scope.view_dive, reverse_loopAliases, View.map_enter, loopNames_map, hitem,
    hposition]

/-- A loop appends the texts of its body for all elements. -/
theorem each_renders (hfin : Finished s ps) {st st₁ : State} {params : List Expr} {hash : Hash}
    {binders : List String} {loop : OpenLoop} {body : Program} {outputs : List CodeOutput}
    (hopened : LoopOpened st st₁ root scope params hash binders loop)
    (hlocals : st.locals.names ⊆ st₁.locals.names) (hgrows : st₁.store.Grows s)
    (horigin : loop.items.origin = .input)
    (hbody : Renders set s ps n root loop.scope st₁.locals.names
      (fun call view => textsOf set call view body) (outputCode outputs)) :
    Renders set s ps n root scope st.locals.names
      (fun call view => do
        let items ← found (argument? within view params) >>= Value.asArray
        forEach
          (fun k x => textsOf set call
            (view.enter (.ok x) (loopNames binders (.ok x) (.ok (.number k)))) body)
          0 items)
      [.loop loop.index loop.items (closeAppends Stmt.append outputs)] := by
  intro callText callCode env hcalls hinput hfits
  have hargument := argument?_of_pathArgument hopened.argument
  have hbound := argument?_all (fun _ part => .segment part) hfits.bound hargument
  -- the index is no number, so that the environment is asked for it
  have hindex := decimal?_index hopened.index_head
  have hgives := Types.eval_narrowed hfin.forest hgrows hopened.narrowed hinput hbound horigin
  simp only [found_argument hargument]
  rcases hgives with ⟨_, heval, xs, rfl⟩ | hmissing
  · have hloop : Yields
        (forEach (fun k x => textsOf set callText ((scope.view.map (AccessPath.eval env)).enter
          (.ok x) (loopNames binders (.ok x) (.ok (.number k)))) body) 0 xs)
        (runLoop (fun k => runStmts set callCode (env.bind loop.index k)
          (closeAppends Stmt.append outputs)) 0 xs.length) := by
      refine .loop ?_
      intro k x hx
      rw [Nat.zero_add, runStmts_closeAppends]
      -- the body runs in the environment of the loop, which shows it the element
      have hfits' :=
        hfits.loop hbound hopened.index_free hindex hlocals hopened.index_taken binders k
      have hview := view_loop hfits hbound hopened.index_free hindex binders heval hx
      rw [← hopened.scope_eq] at hfits' hview
      rw [← hview]
      exact hbody callText callCode (env.bind loop.index k) hcalls hinput hfits'
    intro result
    simp only [heval, runStmts, runStmt]
    change Agrees _ (runLoop _ 0 xs.length result >>= pure)
    rw [bind_pure]
    exact hloop result
  · intro result
    simp only [hmissing, runStmts, runStmt]
    exact .missing

theorem outputCode_statements (code : List Stmt) :
    outputCode (code.map Output.statement) = code := by
  simp [outputCode, Output.close, Function.comp_def]

/-- A block that looks from another place appends the text of its body there. -/
theorem dive_renders {params : List Expr} {target : AccessPath} {body : Program}
    {outputs : List CodeOutput}
    (hargument : argument? AccessPath.segment scope.view params = some target)
    (hbody : Renders set s ps n root (scope.dive target []) names
      (fun call view => textsOf set call view body) (outputCode outputs)) :
    Renders set s ps n root scope names
      (fun call view => textsOf set call (view.enter (found (argument? within view params)) []) body)
      (outputCode ((closeAppends Stmt.append outputs).map .statement)) := by
  intro callText callCode env hcalls hinput hfits
  have hbound := argument?_all (fun _ part => .segment part) hfits.bound hargument
  simp only [outputCode_statements, runStmts_closeAppends, found_argument hargument]
  exact hbody callText callCode env hcalls hinput (hfits.dive hbound)

/-- A condition appends the text of the branch that its flag chooses. -/
theorem conditional_renders (hfin : Finished s ps) {t : Store} (hgrows : t.Grows s)
    {head : PathExpr} {params : List Expr} {path : AccessPath} {negated : Bool}
    {first second : Branch}
    {text text' : (String → Value → Outcome Bytes) → View (Outcome Value) → Outcome Bytes}
    (hcondition : condition? AccessPath.segment scope.view head params = some path)
    (hnarrowed : Narrowed t root path .bool none) (horigin : path.origin = .input)
    (hfirst : Renders set s ps n root scope names text first.code)
    (hsecond : Renders set s ps n root scope names text' second.code) :
    Renders set s ps n root scope names
      (fun call view => do
        let flag ← found (condition? within view head params) >>= Value.asFlag
        if flag != negated then text call view else text' call view)
      (outputCode (conditional negated path first second)) := by
  intro callText callCode env hcalls hinput hfits
  have hbound := condition?_all (fun _ part => .segment part) hfits.bound hcondition
  have hgives := Types.eval_narrowed hfin.forest hgrows hnarrowed hinput hbound horigin
  have hread : ∀ v : Value, v.Of .bool → ∃ b, v.asFlag = .ok b := by
    rintro _ ⟨b, rfl⟩
    exact ⟨b, rfl⟩
  simp only [found_condition hcondition]
  exact .conditional (hgives.read hread) negated (hfirst callText callCode env hcalls hinput hfits)
    (hsecond callText callCode env hcalls hinput hfits)

end

/-! ## Statements -/

section

variable {set : Setting} {s : Store} {ps : List LoweredPartial}
  {programs : List (String × Program)} {opened : List String} {include_ : Includer}

variable (set s ps programs) in
/-- An includer that gives calls with the texts of the partials on their contexts. -/
def IncluderCorrect (include_ : Includer) (opened : List String) : Prop :=
  ∀ (st : State) (root : Nat) (scope : Scope) (name : String) (params : List Expr) (hash : Hash),
    st.Valid → root < st.store.size →
      Lowers opened st
        (fun a st' => Correct set s ps programs st root scope
          (fun call view => found (context? within view params) >>= call name) (appendAtom a) st')
        (include_ root scope name params hash st)

theorem Correct.nil {st : State} {root : NodeId} {scope : Scope} :
    Correct set s ps programs st root scope (fun _ _ => .ok []) [] st :=
  fun _ hpartials => ⟨hpartials, .nil⟩

/-- One statement, and then the others: later statements may have added functions, and earlier ones
may have taken names. -/
theorem Correct.cons {st st₁ st₂ : State} {root : NodeId} {scope : Scope}
    {text text' : (String → Value → Outcome Bytes) → View (Outcome Value) → Outcome Bytes}
    {first others : List CodeOutput} (h : Correct set s ps programs st root scope text first st₁)
    (h' : Correct set s ps programs st₁ root scope text' others st₂)
    (hev₁ : st.Evolves opened st₁) (hev₂ : st₁.Evolves opened st₂) :
    Correct set s ps programs st root scope
      (fun call view => do let first ← text call view; return first ++ (← text' call view))
      (first ++ others) st₂ := by
  intro hbefore hpartials
  obtain ⟨hpartials₁, hfirst⟩ := h (hbefore.of_evolves hev₂) hpartials
  obtain ⟨hpartials₂, hothers⟩ := h' hbefore hpartials₁
  have hcode : outputCode (first ++ others) = outputCode first ++ outputCode others :=
    List.map_append
  refine ⟨hpartials₂, ?_⟩
  rw [hcode]
  exact (hfirst.mono (partials_length_le hev₂.partials) fun _ h => h).seq
    (hothers.mono (Nat.le_refl _) hev₁.locals.subset)

section

variable {root : Nat} {scope : Scope} {st st₁ st₂ st₃ : State} {head : PathExpr}
  {params : List Expr} {hash : Hash} {binders : List String} {body : Program}
  {inverse : Option Program} {span : Template.Span}

theorem Correct.each (hfin : Finished s ps) {loop : OpenLoop} {outputs : List CodeOutput}
    (hkind : blockKind head params = .ok .each)
    (hplain : plainStatement (reachView scope)
      (.block head params hash binders body inverse span) = true)
    (hopened : LoopOpened st st₁ root scope params hash binders loop)
    (hev₁ : st.Evolves opened st₁) (hev₂ : st₁.Evolves opened st₂)
    (h : plainStatements (reachView loop.scope) body = true →
      Correct set s ps programs st₁ root loop.scope (fun call view => textsOf set call view body)
        outputs st₂) :
    Correct set s ps programs st root scope
      (fun call view => textOf set call view (.block head params hash binders body inverse span))
      [.statement (.loop loop.index loop.items (closeAppends Stmt.append outputs))] st₂ := by
  rw [plainStatement_each hkind] at hplain
  simp only [textOf_each hkind]
  have hargument := argument?_of_pathArgument hopened.argument
  have hnear := ne_beyond_of_isNear (reach_argument hargument) hplain.1
  have horigin := AccessPath.origin_of_near hnear hopened.data
  -- what is allowed in the body was checked with the names of the loop in view
  have hplain₁ : plainStatements (reachView loop.scope) body = true := by
    rw [hopened.scope_eq, reachView_loop horigin]
    exact hplain.2
  intro hbefore hpartials
  -- opening the loop has added no function
  rw [← hopened.partials_eq] at hpartials
  obtain ⟨hpartials₂, hrenders⟩ := h hplain₁ hbefore hpartials
  have hgrows₁ : st₁.store.Grows s := hev₂.grows.trans hbefore.grows
  exact ⟨hpartials₂, each_renders hfin hopened hev₁.locals.subset hgrows₁ horigin hrenders⟩

theorem Correct.dive {inner : Scope} {outputs : List CodeOutput}
    (hkind : blockKind head params = .ok .dive)
    (hplain : plainStatement (reachView scope)
      (.block head params hash binders body inverse span) = true)
    (hopen : openWith scope params hash false = .ok inner)
    (h : plainStatements (reachView inner) body = true →
      Correct set s ps programs st root inner (fun call view => textsOf set call view body) outputs
        st₁) :
    Correct set s ps programs st root scope
      (fun call view => textOf set call view (.block head params hash binders body inverse span))
      ((closeAppends Stmt.append outputs).map .statement) st₁ := by
  rw [plainStatement_dive hkind] at hplain
  simp only [textOf_dive hkind]
  obtain ⟨target, hpath, rfl⟩ := openWith_ok hopen
  have hargument := argument?_of_pathArgument hpath
  -- the body looks from where the argument leads, be that data or an index
  have hplain' : plainStatements (reachView (scope.dive target [])) body = true := by
    rw [reachView, Scope.view_dive, View.map_enter]
    simpa [reach_argument hargument] using hplain.2
  intro hbefore hpartials
  obtain ⟨hpartials₁, hrenders⟩ := h hplain' hbefore hpartials
  exact ⟨hpartials₁, dive_renders hargument hrenders⟩

theorem Correct.conditional (hfin : Finished s ps) {negated : Bool} {path : AccessPath}
    {first second : List CodeOutput} (hst : st.Valid) (hroot : root < st.store.size)
    (hkind : blockKind head params = .ok (.conditional negated))
    (hplain : plainStatement (reachView scope)
      (.block head params hash binders body inverse span) = true)
    (hpath : openCondition root scope head params hash st = .ok path st₁)
    (hev₂ : st₁.Evolves opened st₂) (hev₃ : st₂.Evolves opened st₃)
    (h : plainStatements (reachView scope) body = true →
      Correct set s ps programs st₁ root scope (fun call view => textsOf set call view body) first
        st₂)
    (h' : plainStatements (reachView scope) (inverse.getD []) = true →
      Correct set s ps programs st₂ root scope
        (fun call view => textsOf set call view (inverse.getD [])) second st₃) :
    Correct set s ps programs st root scope
      (fun call view => textOf set call view (.block head params hash binders body inverse span))
      (conditional negated path (Branch.of body first) (Branch.of (inverse.getD []) second))
      st₃ := by
  rw [plainStatement_conditional hkind] at hplain
  simp only [textOf_conditional hkind]
  obtain ⟨_, ⟨hresolve, hdata, hnarrowed⟩, heq⟩ :=
    (openCondition_lowers hst hroot head params hash).reaches opened hroot hpath
  have hcondition := condition?_of_conditionPath hresolve
  have hnear := ne_beyond_of_isNear (reach_condition hcondition) hplain.1
  have horigin := AccessPath.origin_of_near hnear hdata
  have hpartials₁ := congrArg State.partials heq
  have hlocals₁ := congrArg State.locals heq
  intro hbefore hpartials
  obtain ⟨hpartials₂, hrenders₁⟩ :=
    h hplain.2.1 (hbefore.of_evolves hev₃) (hpartials₁ ▸ hpartials)
  obtain ⟨hpartials₃, hrenders₂⟩ := h' hplain.2.2 hbefore hpartials₂
  have hgrows₁ : st₁.store.Grows s := hev₂.grows.trans (hev₃.grows.trans hbefore.grows)
  -- both branches are rendered with the functions and names that there are in the end
  have hfirst := hrenders₁.mono (partials_length_le hev₃.partials) fun _ h => h
  have hsecond := hrenders₂.mono (Nat.le_refl _) hev₂.locals.subset
  refine ⟨hpartials₃, ?_⟩
  rw [← hlocals₁]
  exact conditional_renders hfin hgrows₁ hcondition hnarrowed horigin hfirst.branch hsecond.branch

end

theorem IncluderCorrect.lowers (hinclude : IncluderCorrect set s ps programs include_ opened) :
    include_.Lowers opened :=
  fun st root scope name params hash hst hroot =>
    (hinclude st root scope name params hash hst hroot).mono fun _ _ _ _ _ => trivial

theorem correct_of_derivation (hfin : Finished s ps)
    (hinclude : IncluderCorrect set s ps programs include_ opened) {root : Nat} {scope : Scope}
    {P : Program} {st st' : State} {outputs : List CodeOutput}
    (h : Derivation include_ root scope P st outputs st') (hst : st.Valid)
    (hroot : root < st.store.size) (hplain : plainStatements (reachView scope) P = true) :
    Correct set s ps programs st root scope (fun call view => textsOf set call view P) outputs
      st' := by
  induction h with
  | nil => exact .nil
  | content hrest ih =>
    simp only [plainStatements, Bool.and_eq_true] at hplain
    have hev := (hrest.reaches hinclude.lowers hst hroot).2.2
    refine .cons ?_ (ih hst hroot hplain.2) (.refl opened _) hev
    exact fun _ hpartials => ⟨hpartials, content_renders _⟩
  | comment hrest ih =>
    simp only [plainStatements, Bool.and_eq_true] at hplain
    have hev := (hrest.reaches hinclude.lowers hst hroot).2.2
    exact Correct.nil.cons (ih hst hroot hplain.2) (.refl opened _) hev
  | constant hrest ih =>
    simp only [plainStatements, Bool.and_eq_true] at hplain
    have hev := (hrest.reaches hinclude.lowers hst hroot).2.2
    refine .cons ?_ (ih hst hroot hplain.2) (.refl opened _) hev
    refine fun _ hpartials => ⟨hpartials, .atom ?_⟩
    intro _ _ _ _ _ _
    exact .ok _
  | interpolation hatom hrest ih =>
    simp only [plainStatements, Bool.and_eq_true] at hplain
    obtain ⟨⟨hst₁, hroot₁, hev₁⟩, ⟨p, rfl, hinterpolated⟩, heq⟩ :=
      (interpolation_lowers hst hroot _ _ _).reaches opened hroot hatom
    have hev := (hrest.reaches hinclude.lowers hst₁ hroot₁).2.2
    refine .cons ?_ (ih hst₁ hroot₁ hplain.2) hev₁ hev
    have hpartials₁ := congrArg State.partials heq
    exact fun hbefore hpartials => ⟨hpartials₁ ▸ hpartials,
      interpolation_renders hfin hbefore.grows hinterpolated hplain.1⟩
  | inclusion hatom hrest ih =>
    simp only [plainStatements, Bool.and_eq_true] at hplain
    obtain ⟨⟨hst₁, hroot₁, hev₁⟩, hcorrect⟩ :=
      (hinclude _ root _ _ _ _ hst hroot).reaches opened hroot hatom
    have hev := (hrest.reaches hinclude.lowers hst₁ hroot₁).2.2
    exact hcorrect.cons (ih hst₁ hroot₁ hplain.2) hev₁ hev
  | each hkind hloop hbody hrest ihbody ih =>
    -- the rules for blocks need to know how the states inside and behind them have evolved
    simp only [plainStatements, Bool.and_eq_true] at hplain
    obtain ⟨⟨hst₁, hroot₁, hev₁⟩, _, hopened⟩ :=
      (openLoop_lowers hst hroot _ _ _ _).reaches opened hroot hloop
    obtain ⟨hst₂, hroot₂, hev₂⟩ := hbody.reaches hinclude.lowers hst₁ hroot₁
    have hev := (hrest.reaches hinclude.lowers hst₂ hroot₂).2.2
    refine .cons ?_ (ih hst₂ hroot₂ hplain.2) (hev₁.trans hev₂) hev
    exact .each hfin hkind hplain.1 hopened hev₁ hev₂ (ihbody hst₁ hroot₁)
  | dive hkind hopen hbody hrest ihbody ih =>
    simp only [plainStatements, Bool.and_eq_true] at hplain
    obtain ⟨hst₁, hroot₁, hev₁⟩ := hbody.reaches hinclude.lowers hst hroot
    have hev := (hrest.reaches hinclude.lowers hst₁ hroot₁).2.2
    refine .cons ?_ (ih hst₁ hroot₁ hplain.2) hev₁ hev
    exact .dive hkind hplain.1 hopen (ihbody hst hroot)
  | conditional hkind hpath hbody hinverse hrest ihbody ihinverse ih =>
    simp only [plainStatements, Bool.and_eq_true] at hplain
    obtain ⟨⟨hst₁, hroot₁, hev₁⟩, _⟩ :=
      (openCondition_lowers hst hroot _ _ _).reaches opened hroot hpath
    obtain ⟨hst₂, hroot₂, hev₂⟩ := hbody.reaches hinclude.lowers hst₁ hroot₁
    obtain ⟨hst₃, hroot₃, hev₃⟩ := hinverse.reaches hinclude.lowers hst₂ hroot₂
    have hev := (hrest.reaches hinclude.lowers hst₃ hroot₃).2.2
    refine .cons ?_ (ih hst₃ hroot₃ hplain.2) ((hev₁.trans hev₂).trans hev₃) hev
    exact .conditional hfin hst hroot hkind hplain.1 hpath hev₂ hev₃ (ihbody hst₁ hroot₁)
      (ihinverse hst₂ hroot₂)

end

end Meaning
end Stencil
