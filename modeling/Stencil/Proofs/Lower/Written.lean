import Stencil.Proofs.Code.Parts
import Stencil.Proofs.Lower.Plans
import Stencil.Proofs.Lower.Rounds

/-!
# What lowering writes

The parts of the code that a program becomes are determined by its syntax: by the plans of its tags
in their scopes, and by the names that are free for the indices of its loops. The types of the input
play no part in it. This file defines:

* `Written`        : the parts that are written for a program, and the names taken afterwards;
* `Writes`         : the same for the body of a function;
* `Entered`        : how the calls in code change the partials that have been lowered.

The main result is `lowerProgram_writes`: what has been lowered is written in this way, and its
partials are those that its calls enter.
-/

namespace Stencil
namespace Lower

open Code (Atom Call Part Placed Stmt calls closeAppends outputParts)
open Template (Expr Hash PathExpr Program Span Statement)
open Stencil.Types (NodeId)
open Lowering (infer lift)
open Results (run_bind_eq_ok)

/-! ## Programs and their code -/

/-- The parts that are written for a program in a scope, inside the loops of the indices `around`.
The local variables are those before and after it. -/
inductive Written (programs : List (String × Program)) :
    Scope → List String → Variables → Program → List Placed → Variables → Prop where
  | nil {scope : Scope} {around : List String} {v : Variables} :
      Written programs scope around v [] [] v
  | content {scope : Scope} {around : List String} {v v' : Variables} {value : String}
      {span : Span} {rest : Program} {parts : List Placed} :
      Written programs scope around v rest parts v' →
        Written programs scope around v (.content value span :: rest)
          ((if value.isEmpty then [] else [(around, .atom (.literal value))]) ++ parts) v'
  | comment {scope : Scope} {around : List String} {v v' : Variables} {value : String}
      {span : Span} {rest : Program} {parts : List Placed} :
      Written programs scope around v rest parts v' →
        Written programs scope around v (.comment value span :: rest) parts v'
  | constant {scope : Scope} {around : List String} {v v' : Variables} {name : String}
      {span : Span} {rest : Program} {parts : List Placed} :
      Written programs scope around v rest parts v' →
        Written programs scope around v (.constant name span :: rest)
          ((around, .atom (.constant name)) :: parts) v'
  | interpolation {scope : Scope} {around : List String} {v v' : Variables} {head : Expr}
      {params : List Expr} {hash : Hash} {escaped : Bool} {span : Span} {rest : Program}
      {parts : List Placed} {plan : Atom × Option Demand} :
      interpolationPlan scope head params hash = .ok plan →
        Written programs scope around v rest parts v' →
        Written programs scope around v (.interpolation head params hash escaped span :: rest)
          ((around, .atom plan.1) :: parts) v'
  | inclusion {scope : Scope} {around : List String} {v v' : Variables} {name : String}
      {params : List Expr} {hash : Hash} {span : Span} {rest : Program} {parts : List Placed}
      {i : Inclusion} :
      inclusionPlan programs scope name params hash = .ok i →
        Written programs scope around v rest parts v' →
        Written programs scope around v (.inclusion name params hash span :: rest)
          ((around, .atom (.call i.group name i.context)) :: parts) v'
  | each {scope : Scope} {around : List String} {v v₁ v₂ v₃ : Variables} {head : PathExpr}
      {params : List Expr} {hash : Hash} {binders : List String} {body : Program} {span : Span}
      {rest : Program} {inside parts : List Placed} {d : Demand} {index : String} :
      blockKind head params = .ok .each → loopPlan scope params hash false = .ok d →
        v.allocate indexBase = some (index, v₁) →
        Written programs (loopScope scope binders d.target index) (index :: around) v₁ body inside
          v₂ →
        Written programs scope around v₂ rest parts v₃ →
        Written programs scope around v (.block head params hash binders body none span :: rest)
          ((around, .loop index d.target) :: (inside ++ parts)) v₃
  | dive {scope inner : Scope} {around : List String} {v v₁ v₂ : Variables} {head : PathExpr}
      {params : List Expr} {hash : Hash} {binders : List String} {body : Program} {span : Span}
      {rest : Program} {inside parts : List Placed} :
      blockKind head params = .ok .dive → openWith scope params hash false = .ok inner →
        Written programs inner around v body inside v₁ →
        Written programs scope around v₁ rest parts v₂ →
        Written programs scope around v (.block head params hash binders body none span :: rest)
          (inside ++ parts) v₂
  /-- The flag is not written where both branches are empty. -/
  | conditional {scope : Scope} {around : List String} {v v₁ v₂ v₃ : Variables} {head : PathExpr}
      {params : List Expr} {hash : Hash} {binders : List String} {body : Program}
      {inverse : Option Program} {span : Span} {rest : Program}
      {test first second parts : List Placed} {negated : Bool} {d : Demand} :
      blockKind head params = .ok (.conditional negated) →
        conditionPlan scope head params hash = .ok d →
        (test = [] ∨ test = [(around, .condition d.target)]) →
        Written programs scope around v body first v₁ →
        Written programs scope around v₁ (inverse.getD []) second v₂ →
        Written programs scope around v₂ rest parts v₃ →
        Written programs scope around v (.block head params hash binders body inverse span :: rest)
          (test ++ (first ++ (second ++ parts))) v₃

/-- The code of a function that is written for a program. -/
def Writes (programs : List (String × Program)) (program : Program) (code : List Stmt) : Prop :=
  ∃ v, Written programs {} [] {} program (Stmt.allParts [] code) v

variable {programs : List (String × Program)} {scope : Scope} {around : List String}
  {v v' v'' : Variables} {P Q : Program} {parts parts' : List Placed}

/-! ## Tags -/

theorem infer_eq_ok {α : Type} {m : Types.Inference α} {a : α} {st st' : State}
    (h : infer m st = .ok a st') : st'.locals = st.locals ∧ st'.partials = st.partials := by
  unfold Lowering.infer at h
  cases hrun : m st.store with
  | error e store =>
    rw [hrun] at h
    cases h
  | ok b store =>
    rw [hrun] at h
    cases h
    exact ⟨rfl, rfl⟩

variable {root : NodeId} {params : List Expr} {hash : Hash} {st st' : State}

theorem interpolation_eq_ok {head : Expr} {a : Atom}
    (h : interpolation root scope head params hash st = .ok a st') :
    (∃ plan, interpolationPlan scope head params hash = .ok plan ∧ a = plan.1) ∧
      st'.locals = st.locals ∧ st'.partials = st.partials := by
  rw [interpolation_eq] at h
  obtain ⟨plan, hplan, h⟩ := lift_bind_eq_ok.1 h
  obtain ⟨_, st₁, hnarrow, h⟩ := run_bind_eq_ok.1 h
  cases h
  refine ⟨⟨plan, hplan, rfl⟩, ?_⟩
  obtain ⟨atom, demand⟩ := plan
  cases demand with
  | none =>
    cases hnarrow
    exact ⟨rfl, rfl⟩
  | some d => exact infer_eq_ok hnarrow

theorem openLoop_eq_ok {binders : List String} {hasInverse : Bool} {loop : OpenLoop}
    (h : openLoop root scope params hash binders hasInverse st = .ok loop st') :
    (∃ d, loopPlan scope params hash hasInverse = .ok d ∧ loop.items = d.target ∧
      loop.scope = loopScope scope binders d.target loop.index) ∧
      st.locals.allocate indexBase = some (loop.index, st'.locals) ∧
      st'.partials = st.partials := by
  rw [openLoop_eq] at h
  obtain ⟨d, hplan, h⟩ := lift_bind_eq_ok.1 h
  obtain ⟨_, st₁, hnarrow, h⟩ := run_bind_eq_ok.1 h
  obtain ⟨index, st₂, hindex, h⟩ := run_bind_eq_ok.1 h
  obtain ⟨hlocals, hpartials⟩ := infer_eq_ok hnarrow
  cases h
  refine ⟨⟨d, hplan, rfl, rfl⟩, ?_⟩
  rw [allocate_eq, hlocals] at hindex
  cases hallocate : st.locals.allocate indexBase with
  | none =>
    rw [hallocate] at hindex
    cases hindex
  | some taken =>
    rw [hallocate] at hindex
    cases hindex
    exact ⟨rfl, hpartials⟩

theorem openCondition_eq_ok {head : PathExpr} {path : AccessPath}
    (h : openCondition root scope head params hash st = .ok path st') :
    (∃ d, conditionPlan scope head params hash = .ok d ∧ path = d.target) ∧
      st'.locals = st.locals ∧ st'.partials = st.partials := by
  rw [openCondition_eq] at h
  obtain ⟨d, hplan, h⟩ := lift_bind_eq_ok.1 h
  obtain ⟨_, st₁, hnarrow, h⟩ := run_bind_eq_ok.1 h
  cases h
  exact ⟨⟨d, hplan, rfl⟩, infer_eq_ok hnarrow⟩

/-! ## Where plans lead -/

section

theorem mem_of_pathArgument {context : String} {p : PathExpr}
    (h : pathArgument params context = .ok p) : .path p ∈ params := by
  unfold pathArgument at h
  split at h
  · cases h
    exact List.mem_singleton.2 rfl
  all_goals cases h

theorem resolves_of_argument {context : String} {path : AccessPath}
    (h : (pathArgument params context >>= scope.resolve) = .ok path) :
    ∃ p, .path p ∈ params ∧ scope.resolve p = .ok path := by
  obtain ⟨p, hp, hpath⟩ := Results.bind_eq_ok.1 h
  exact ⟨p, mem_of_pathArgument hp, hpath⟩

/-- An interpolation is the data or the number at a reference of its tag. -/
theorem interpolationPlan_resolves {head : Expr} {plan : Atom × Option Demand}
    (h : interpolationPlan scope head params hash = .ok plan) :
    ∃ p path, (head = .path p ∨ .path p ∈ params) ∧ scope.resolve p = .ok path ∧
      (plan.1 = .value path ∨ ∃ signed decimals, plan.1 = .number signed path decimals) := by
  unfold interpolationPlan at h
  cases head with
  | path p =>
    obtain ⟨helper, _, h⟩ := Results.bind_eq_ok.1 h
    cases helper with
    | some helper =>
      cases helper with
      | integer signed width =>
        obtain ⟨_, _, h⟩ := Results.bind_eq_ok.1 h
        obtain ⟨decimals, _, h⟩ := Results.bind_eq_ok.1 h
        obtain ⟨path, hpath, h⟩ := Results.bind_eq_ok.1 h
        cases h
        obtain ⟨q, hq, hresolve⟩ := resolves_of_argument hpath
        exact ⟨q, path, .inr hq, hresolve, .inr ⟨_, _, rfl⟩⟩
      | bytes width =>
        obtain ⟨_, _, h⟩ := Results.bind_eq_ok.1 h
        obtain ⟨path, hpath, h⟩ := Results.bind_eq_ok.1 h
        cases h
        obtain ⟨q, hq, hresolve⟩ := resolves_of_argument hpath
        exact ⟨q, path, .inr hq, hresolve, .inl rfl⟩
    | none =>
      dsimp only at h
      split at h
      · cases h
      · obtain ⟨path, hresolve, h⟩ := Results.bind_eq_ok.1 h
        refine ⟨p, path, .inl rfl, hresolve, ?_⟩
        split at h
        · cases h
          exact .inr ⟨_, _, rfl⟩
        · cases h
          exact .inl rfl
  | _ => cases h

theorem loopPlan_resolves {hasInverse : Bool} {d : Demand}
    (h : loopPlan scope params hash hasInverse = .ok d) :
    ∃ p, .path p ∈ params ∧ scope.resolve p = .ok d.target := by
  unfold loopPlan at h
  cases hasInverse with
  | true => cases h
  | false =>
    obtain ⟨_, _, h⟩ := Results.bind_eq_ok.1 h
    obtain ⟨length, _, h⟩ := Results.bind_eq_ok.1 h
    obtain ⟨items, hitems, h⟩ := Results.bind_eq_ok.1 h
    split at h
    · cases h
    · cases h
      exact resolves_of_argument hitems

theorem conditionPlan_resolves {head : PathExpr} {d : Demand}
    (h : conditionPlan scope head params hash = .ok d) :
    ∃ p, (p = head ∨ .path p ∈ params) ∧ scope.resolve p = .ok d.target := by
  unfold conditionPlan at h
  obtain ⟨_, _, h⟩ := Results.bind_eq_ok.1 h
  obtain ⟨target, htarget, h⟩ := Results.bind_eq_ok.1 h
  obtain ⟨p, hp, hresolve⟩ := Results.bind_eq_ok.1 htarget
  split at h
  · cases h
  · cases h
    refine ⟨p, ?_, hresolve⟩
    unfold conditionPath at hp
    dsimp only at hp
    split at hp
    · cases hp
      exact .inl rfl
    · exact .inr (mem_of_pathArgument hp)

theorem inclusionContext_resolves {name : String} {path : AccessPath}
    (h : inclusionContext scope name params = .ok path) :
    path = scope.inner.path ∨ ∃ p, .path p ∈ params ∧ scope.resolve p = .ok path := by
  unfold inclusionContext at h
  split at h
  · cases h
    exact .inl rfl
  · exact .inr (resolves_of_argument h)

end

/-! ## Partials -/

/-- The partial of a name, if it has been lowered. -/
def known? (partials : List LoweredPartial) (name : String) : Option LoweredPartial :=
  partials.find? (·.name == name)

/-- How calls, in their order, change the partials that have been lowered, inside those that are
being lowered. A partial is lowered at its first call; it is complete when the calls in its body
have been entered. -/
inductive Entered (programs : List (String × Program)) :
    List String → List LoweredPartial → List Call → List LoweredPartial → Prop where
  | nil {opened : List String} {partials : List LoweredPartial} :
      Entered programs opened partials [] partials
  | again {opened : List String} {partials done : List LoweredPartial} {known : LoweredPartial}
      {node : NodeId} {call : Call} {rest : List Call} :
      known? partials call.name = some known → known.group = call.group →
        Entered programs opened (partials.map (·.called call.name ⟨node, call.context⟩)) rest
          done →
        Entered programs opened partials (call :: rest) done
  | first {opened : List String} {partials inner done : List LoweredPartial} {node : NodeId}
      {call : Call} {rest : List Call} {body : Program} {code : List Stmt} :
      call.name ∉ partials.map (·.name) → call.name ∉ opened →
        programs.lookup call.name = some body → Writes programs body code →
        Entered programs (call.name :: opened) partials (calls (Stmt.allParts [] code)) inner →
        Entered programs opened
          (inner ++ [newPartial call.name node code call.group call.context]) rest done →
        Entered programs opened partials (call :: rest) done

/-- The code of all partials is what their programs become. -/
def AllWritten (programs : List (String × Program)) (partials : List LoweredPartial) : Prop :=
  ∀ p ∈ partials, ∃ body, programs.lookup p.name = some body ∧ Writes programs body p.code

namespace Entered

variable {opened : List String} {partials inner done : List LoweredPartial} {first rest : List Call}

theorem append (h : Entered programs opened partials first inner)
    (h' : Entered programs opened inner rest done) :
    Entered programs opened partials (first ++ rest) done := by
  induction h with
  | nil => exact h'
  | again hknown hgroup _ ih => exact .again hknown hgroup (ih h')
  | first hnew hopened hbody hwrites hinner _ _ ih =>
    exact .first hnew hopened hbody hwrites hinner (ih h')

theorem allWritten (h : Entered programs opened partials rest done)
    (hall : AllWritten programs partials) : AllWritten programs done := by
  induction h with
  | nil => exact hall
  | @again _ partials _ _ node call _ _ _ _ ih =>
    refine ih ?_
    intro q hq
    obtain ⟨p, hp, rfl⟩ := List.mem_map.1 hq
    have hextends := p.extends_called call.name ⟨node, call.context⟩
    obtain ⟨body, hbody, hwrites⟩ := hall p hp
    exact ⟨body, hextends.name ▸ hbody, hextends.code ▸ hwrites⟩
  | first _ _ hbody hwrites _ _ ihinner ih =>
    refine ih ?_
    intro p hp
    obtain hp | hp := List.mem_append.1 hp
    · exact ihinner hall p hp
    · cases List.mem_singleton.1 hp
      exact ⟨_, hbody, hwrites⟩

end Entered

/-! ## Statements -/

/-- What lowering from `st` to `st'` has to do with the parts that it writes for a program. -/
def Recorded (programs : List (String × Program)) (opened : List String) (scope : Scope)
    (around : List String) (st : State) (P : Program) (parts : List Placed) (st' : State) : Prop :=
  Written programs scope around st.locals P parts st'.locals ∧
    Entered programs opened st.partials (calls parts) st'.partials

/-- An includer that writes the call of a plan, and enters it. -/
def Includer.Writes (programs : List (String × Program)) (opened : List String)
    (include_ : Includer) : Prop :=
  ∀ {root : NodeId} {scope : Scope} {name : String} {params : List Expr} {hash : Hash}
    {st st' : State} {a : Atom}, include_ root scope name params hash st = .ok a st' →
      ∃ i, inclusionPlan programs scope name params hash = .ok i ∧
        a = .call i.group name i.context ∧ st'.locals = st.locals ∧
        Entered programs opened st.partials [⟨i.group, name, i.context⟩] st'.partials

/-- The flag of a condition calls nothing. -/
theorem calls_test {path : AccessPath} {test : List Placed}
    (h : test = [] ∨ test = [(around, .condition path)]) : calls test = [] := by
  obtain rfl | rfl := h
  · rfl
  · rfl

theorem calls_testParts {path : AccessPath} {test first second : List Placed}
    (h : test = [] ∨ test = [(around, .condition path)]) :
    calls (test ++ (first ++ second)) = calls first ++ calls second := by
  rw [Code.calls_append, Code.calls_append, calls_test h, List.nil_append]

theorem outputParts_content (around : List String) (value : String) :
    outputParts around (contentOutputs value) =
      if value.isEmpty then [] else [(around, .atom (.literal value))] := by
  unfold contentOutputs
  cases value.isEmpty with
  | true => rfl
  | false => exact Code.outputParts_appendAtom around (.literal value)

section

variable {include_ : Includer} {opened : List String}

theorem Derivation.recorded (hinclude : include_.Writes programs opened) {outputs : List CodeOutput}
    (h : Derivation include_ root scope P st outputs st') (around : List String) :
    Recorded programs opened scope around st P (outputParts around outputs) st' := by
  induction h generalizing around with
  | nil => exact ⟨.nil, .nil⟩
  | @content _ value _ _ _ _ _ _ ih =>
    obtain ⟨hwritten, hentered⟩ := ih around
    rw [Code.outputParts_append, outputParts_content]
    refine ⟨.content hwritten, ?_⟩
    cases value.isEmpty <;> exact hentered
  | comment _ ih =>
    obtain ⟨hwritten, hentered⟩ := ih around
    exact ⟨.comment hwritten, hentered⟩
  | constant _ ih =>
    obtain ⟨hwritten, hentered⟩ := ih around
    rw [Code.outputParts_append, Code.outputParts_appendAtom]
    exact ⟨.constant hwritten, hentered⟩
  | interpolation hatom _ ih =>
    obtain ⟨⟨plan, hplan, rfl⟩, hlocals, hpartials⟩ := interpolation_eq_ok hatom
    obtain ⟨hwritten, hentered⟩ := ih around
    rw [hlocals] at hwritten
    rw [hpartials] at hentered
    rw [Code.outputParts_append, Code.outputParts_appendAtom]
    refine ⟨.interpolation hplan hwritten, ?_⟩
    -- an interpolation calls nothing
    obtain ⟨_, _, _, _, hvalue | ⟨_, _, hvalue⟩⟩ := interpolationPlan_resolves hplan
    · rw [hvalue]
      exact hentered
    · rw [hvalue]
      exact hentered
  | inclusion hatom _ ih =>
    obtain ⟨i, hplan, rfl, hlocals, hcall⟩ := hinclude hatom
    obtain ⟨hwritten, hentered⟩ := ih around
    rw [hlocals] at hwritten
    rw [Code.outputParts_append, Code.outputParts_appendAtom]
    exact ⟨.inclusion hplan hwritten, hcall.append hentered⟩
  | each hkind hloop _ _ ihbody ih =>
    obtain ⟨⟨d, hplan, hitems, hscope⟩, hindex, hpartials⟩ := openLoop_eq_ok hloop
    obtain ⟨hbody, hinside⟩ := ihbody (_ :: around)
    obtain ⟨hwritten, hentered⟩ := ih around
    rw [hscope] at hbody
    rw [hpartials] at hinside
    rw [Code.outputParts_append, Code.outputParts_loop, Code.allParts_closeAppends, hitems]
    refine ⟨.each hkind hplan hindex hbody hwritten, ?_⟩
    rw [Code.calls_append]
    exact hinside.append hentered
  | dive hkind hopen _ _ ihbody ih =>
    obtain ⟨hbody, hinside⟩ := ihbody around
    obtain ⟨hwritten, hentered⟩ := ih around
    rw [Code.outputParts_append, Code.outputParts_statements, Code.allParts_closeAppends]
    refine ⟨.dive hkind hopen hbody hwritten, ?_⟩
    rw [Code.calls_append]
    exact hinside.append hentered
  | conditional hkind hpath _ _ _ ihbody ihinverse ih =>
    obtain ⟨⟨d, hplan, rfl⟩, hlocals, hpartials⟩ := openCondition_eq_ok hpath
    obtain ⟨hbody, hfirst⟩ := ihbody around
    obtain ⟨hinverse, hsecond⟩ := ihinverse around
    obtain ⟨hwritten, hentered⟩ := ih around
    rw [hlocals] at hbody
    rw [hpartials] at hfirst
    obtain ⟨test, htest, hparts⟩ := outputParts_conditional around _ d.target
      (Branch.of _ _) (Branch.of _ _)
    rw [Code.outputParts_append, hparts, Branch.allParts_of, Branch.allParts_of]
    refine ⟨?_, ?_⟩
    · simp only [List.append_assoc]
      exact .conditional hkind hplan htest hbody hinverse hwritten
    · rw [Code.calls_append, calls_testParts htest]
      exact (hfirst.append hsecond).append hentered

theorem lowerBody_writes (hinclude : include_.Writes programs opened) {code : List Stmt}
    (hlocals : st.locals = {}) (h : lowerBody include_ root P st = .ok code st') :
    Writes programs P code ∧
      Entered programs opened st.partials (calls (Stmt.allParts [] code)) st'.partials := by
  unfold lowerBody at h
  obtain ⟨outputs, st₁, houtputs, h⟩ := run_bind_eq_ok.1 h
  cases h
  obtain ⟨hwritten, hentered⟩ := (lowerStatements_eq_ok.1 houtputs).recorded hinclude []
  rw [hlocals] at hwritten
  rw [Writes, Code.allParts_closeAppends]
  exact ⟨⟨st'.locals, hwritten⟩, hentered⟩

/-! ## Inclusions -/

theorem callAgain_enters {name : String} {known : LoweredPartial}
    (hknown : known? st.partials name = some known) {group : Option String} {context : AccessPath}
    (h : callAgain known root group context st = .ok () st') :
    Entered programs opened st.partials [⟨group, name, context⟩] st'.partials := by
  have hname : known.name = name := by simpa using List.find?_some hknown
  unfold callAgain at h
  split at h
  · cases h
  · next hgroup =>
    obtain ⟨node, st₁, hnode, h⟩ := run_bind_eq_ok.1 h
    obtain ⟨_, st₂, hunify, h⟩ := run_bind_eq_ok.1 h
    cases h
    have hpartials := (infer_eq_ok hunify).2.trans (infer_eq_ok hnode).2
    change Entered programs opened st.partials _
      (st₂.partials.map (·.called known.name ⟨node, context⟩))
    rw [hpartials, hname]
    exact .again hknown (by simpa using hgroup) .nil

theorem callFirst_enters {name : String} (hinclude : include_.Writes programs (name :: opened))
    (hnew : name ∉ st.partials.map (·.name)) (hopened : name ∉ opened) {program : Program}
    (hprogram : programs.lookup name = some program) {group : Option String}
    {context : AccessPath}
    (h : callFirst include_ root name group context program st = .ok () st') :
    Entered programs opened st.partials [⟨group, name, context⟩] st'.partials := by
  unfold callFirst at h
  obtain ⟨node, st₁, hnode, h⟩ := run_bind_eq_ok.1 h
  obtain ⟨code, st₂, hcode, h⟩ := run_bind_eq_ok.1 h
  cases h
  rw [inNewFunction_eq] at hcode
  cases hbody : lowerBody include_ node program { st₁ with locals := {} } with
  | error e st₃ =>
    rw [hbody] at hcode
    cases hcode
  | ok code' st₃ =>
    rw [hbody] at hcode
    cases hcode
    obtain ⟨hwrites, hentered⟩ := lowerBody_writes hinclude rfl hbody
    change Entered _ _ st₁.partials _ _ at hentered
    rw [(infer_eq_ok hnode).2] at hentered
    exact .first hnew hopened hprogram hwrites hentered .nil

end

/-- An inclusion of any level, given the one of the level below. -/
theorem includePartial_writes_of {level : Nat} {opened : List String} {name : String}
    (hbelow : ∀ below, level = below + 1 →
      (includePartial programs below (name :: opened)).Writes programs (name :: opened)) {a : Atom}
    (h : includePartial programs level opened root scope name params hash st = .ok a st') :
    ∃ i, inclusionPlan programs scope name params hash = .ok i ∧
      a = .call i.group name i.context ∧ st'.locals = st.locals ∧
      Entered programs opened st.partials [⟨i.group, name, i.context⟩] st'.partials := by
  rw [includePartial_eq] at h
  obtain ⟨i, hplan, h⟩ := lift_bind_eq_ok.1 h
  obtain ⟨_, st₁, hcall, h⟩ := run_bind_eq_ok.1 h
  cases h
  refine ⟨i, hplan, rfl, i.call_keepsLocals programs level opened root name st () st' hcall, ?_⟩
  have hprogram := (inclusionPlan_eq_ok.1 hplan).2.1
  unfold Inclusion.call at hcall
  obtain ⟨_, st₂, hget, hcall⟩ := run_bind_eq_ok.1 hcall
  cases hget
  cases hfind : st.partials.find? (·.name == name) with
  | some known =>
    simp only [hfind] at hcall
    exact callAgain_enters hfind hcall
  | none =>
    simp only [hfind] at hcall
    have hnew : name ∉ st.partials.map (·.name) := by simpa using hfind
    cases hopened : opened.contains name with
    | true =>
      rw [hopened] at hcall
      cases hcall
    | false =>
      rw [hopened] at hcall
      cases level with
      | zero => cases hcall
      | succ below =>
        exact callFirst_enters (hbelow below rfl) hnew (by simpa using hopened) hprogram hcall

theorem includePartial_writes (programs : List (String × Program)) (level : Nat)
    (opened : List String) : (includePartial programs level opened).Writes programs opened := by
  induction level, opened using level_induction with
  | step level opened hbelow =>
    intro root scope name params hash st st' a h
    exact includePartial_writes_of (fun below => hbelow below name) h

/-- The code of a lowered template is what its program becomes, and its partials are those that
the calls in its code enter. -/
theorem lowerProgram_writes {program : Program} {code : List Stmt}
    (h : lowerProgram programs root program State.initial = .ok code st) :
    Writes programs program code ∧
      Entered programs [] [] (calls (Stmt.allParts [] code)) st.partials :=
  lowerBody_writes (includePartial_writes programs _ []) rfl h

theorem lower_writes {program : Program} {l : Lowered} (h : lower programs program = .ok l) :
    Writes programs program l.code ∧
      Entered programs [] [] (calls (Stmt.allParts [] l.code)) l.partials := by
  obtain ⟨st, st', hlower, hfinish, hpartials, _, _⟩ := lower_ok.1 h
  have hst := valid_of_lowerProgram hlower
  obtain ⟨_, _, hpartials', _⟩ := settleTypes_correct hst ((finish_ok_iff hst).1 hfinish)
  rw [hpartials, hpartials']
  exact lowerProgram_writes hlower

/-- What calls enter is what the programs of partials become. -/
theorem Entered.writes {opened : List String} {rest : List Call} {partials : List LoweredPartial}
    (h : Entered programs opened [] rest partials) : AllWritten programs partials := by
  refine h.allWritten ?_
  intro p hp
  cases hp

end Lower
end Stencil
