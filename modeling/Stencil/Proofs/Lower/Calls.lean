import Stencil.Proofs.Code.Grouping
import Stencil.Proofs.Lower.Rounds

/-!
# Calls in lowered code

A call is written with the name of the partial and the group that its inclusion asks for. Both are
those of a partial that has been lowered, as every inclusion either lowers its partial or checks
the group that it was lowered for.

* `Stmt.allCalls`    : the calls in code, as a group and a name;
* `targets`          : what the lowered partials are called as;
* `Linked`           : what lowering has to do so that calls lead to lowered partials.

The main result is `lower_linked`.
-/

namespace Stencil
namespace Code

/-! ## Calls -/

/-- What an expression calls. -/
def Atom.calls : Atom → List (Option String × String)
  | .call group name _ => [(group, name)]
  | _ => []

def Fragment.calls : Fragment → List (Option String × String)
  | .atom a => a.calls
  | .select _ whenTrue none => whenTrue.calls
  | .select _ whenTrue (some whenFalse) => whenTrue.calls ++ whenFalse.calls

mutual

def Stmt.calls : Stmt → List (Option String × String)
  | .append items => items.flatMap Fragment.calls
  | .loop _ _ body => Stmt.allCalls body
  | .branch _ body => Stmt.allCalls body
  | .branchElse _ body otherwise => Stmt.allCalls body ++ Stmt.allCalls otherwise

/-- What statements call. -/
def Stmt.allCalls : List Stmt → List (Option String × String)
  | [] => []
  | s :: rest => s.calls ++ Stmt.allCalls rest

end

/-- What outputs call. -/
def outputCalls (outputs : List (Output Stmt Fragment)) : List (Option String × String) :=
  outputs.flatMap fun output => (output.close Stmt.append).calls

theorem outputCalls_append (first others : List (Output Stmt Fragment)) :
    outputCalls (first ++ others) = outputCalls first ++ outputCalls others :=
  List.flatMap_append

theorem outputCalls_statements (code : List Stmt) :
    outputCalls (code.map .statement) = Stmt.allCalls code := by
  induction code with
  | nil => rfl
  | cons s code ih =>
    rw [Stmt.allCalls, ← ih]
    rfl

theorem outputCalls_mergeAppends (outputs : List (Output Stmt Fragment)) :
    outputCalls (mergeAppends outputs) = outputCalls outputs := by
  apply mergeAppends_keeps outputCalls
  · intro output xs ys h
    exact congrArg ((output.close Stmt.append).calls ++ ·) h
  · intro items items' rest
    simp only [outputCalls, List.flatMap_cons, Output.close, Stmt.calls, List.flatMap_append,
      List.append_assoc]

/-- Joining adjacent appends keeps the calls. -/
theorem allCalls_closeAppends (outputs : List (Output Stmt Fragment)) :
    Stmt.allCalls (closeAppends Stmt.append outputs) = outputCalls outputs := by
  rw [← outputCalls_mergeAppends, ← outputCalls_statements, closeAppends, outputCalls,
    outputCalls, List.map_map, List.flatMap_map]
  rfl

end Code

namespace Lower

open Code (Atom Stmt closeAppends outputCalls)
open Template (Expr Hash PathExpr Program Statement)
open Stencil.Types (NodeId)

/-- What one side of a condition calls. -/
theorem Branch.allCalls_of (body : Program) (outputs : List CodeOutput) :
    Stmt.allCalls (Branch.of body outputs).code = outputCalls outputs := by
  unfold Branch.of
  split
  · rfl
  · split
    · exact Code.allCalls_closeAppends _
    · simp [Branch.code, Stmt.allCalls, Stmt.calls, Code.Fragment.calls, outputCalls,
        Code.Output.close]
  · exact Code.allCalls_closeAppends _

/-- A condition calls what its sides call, in whatever form it is written. -/
theorem outputCalls_conditional (negated : Bool) (path : AccessPath) (first second : Branch) :
    outputCalls (conditional negated path first second) =
      Stmt.allCalls first.code ++ Stmt.allCalls second.code := by
  cases first <;> cases second <;>
    simp [conditional, Branch.code, outputCalls, Code.Output.close, Stmt.allCalls, Stmt.calls,
      Code.Fragment.calls]

/-! ## Targets -/

/-- What partials are called as. -/
def targets (partials : List LoweredPartial) : List (Option String × String) :=
  partials.map fun p => (p.group, p.name)

theorem PartialsLe.targets_subset {ps qs : List LoweredPartial} (h : PartialsLe ps qs) :
    targets ps ⊆ targets qs := by
  intro target htarget
  obtain ⟨p, hp, rfl⟩ := List.mem_map.1 htarget
  obtain ⟨i, hi⟩ := List.mem_iff_getElem?.1 hp
  obtain ⟨q, hq, hextends⟩ := h i p hi
  refine List.mem_map.2 ⟨q, List.mem_of_getElem? hq, ?_⟩
  rw [hextends.group, hextends.name]

/-- The calls in partials lead to partials. -/
def Closed (partials : List LoweredPartial) : Prop :=
  ∀ p ∈ partials, Stmt.allCalls p.code ⊆ targets partials

/-- Further calls of partials do not change their code. -/
theorem Closed.called {partials : List LoweredPartial} (h : Closed partials) (name : String)
    (site : CallSite) : Closed (partials.map (·.called name site)) := by
  intro q hq
  obtain ⟨p, hp, rfl⟩ := List.mem_map.1 hq
  have hle : PartialsLe partials (partials.map (·.called name site)) :=
    .map (fun p => p.extends_called name site) _
  rw [(p.extends_called name site).code]
  exact List.Subset.trans (h p hp) hle.targets_subset

/-- A new partial whose calls lead to those before it. -/
theorem Closed.append {partials : List LoweredPartial} (h : Closed partials) {p : LoweredPartial}
    (hp : Stmt.allCalls p.code ⊆ targets partials) : Closed (partials ++ [p]) := by
  have hsubset : targets partials ⊆ targets (partials ++ [p]) :=
    (PartialsLe.append partials [p]).targets_subset
  intro q hq
  obtain hq | hq := List.mem_append.1 hq
  · exact List.Subset.trans (h q hq) hsubset
  · cases List.mem_singleton.1 hq
    exact List.Subset.trans hp hsubset

/-! ## Lowering -/

/-- What lowering from `st` to `st'` has to do for the calls that it writes. -/
def Linked (st : State) (calls : List (Option String × String)) (st' : State) : Prop :=
  Closed st.partials → Closed st'.partials ∧ calls ⊆ targets st'.partials

/-- Code without calls. -/
theorem Linked.of_nil {st st' : State} (h : st'.partials = st.partials) : Linked st [] st' := by
  intro hclosed
  rw [h]
  exact ⟨hclosed, List.nil_subset _⟩

/-- Code that starts after another state with the same partials. -/
theorem Linked.of_eq {st st₁ st' : State} {calls : List (Option String × String)}
    (heq : st₁.partials = st.partials) (h : Linked st₁ calls st') : Linked st calls st' := by
  intro hclosed
  apply h
  rw [heq]
  exact hclosed

/-- Code after other code: the partials that the first calls are still there. -/
theorem Linked.append {st st₁ st₂ : State} {first others : List (Option String × String)}
    {opened : List String} (h : Linked st first st₁) (h' : Linked st₁ others st₂)
    (hev : st₁.Evolves opened st₂) : Linked st (first ++ others) st₂ := by
  intro hclosed
  obtain ⟨hclosed₁, hfirst⟩ := h hclosed
  obtain ⟨hclosed₂, hothers⟩ := h' hclosed₁
  exact ⟨hclosed₂, List.append_subset.2
    ⟨List.Subset.trans hfirst hev.partials.targets_subset, hothers⟩⟩

/-- An includer whose calls lead to partials. -/
def Includer.Links (include_ : Includer) (opened : List String) : Prop :=
  ∀ (st : State) (root : Nat) (scope : Scope) (name : String) (params : List Expr) (hash : Hash),
    st.Valid → root < st.store.size →
      Lower.Lowers opened st (fun a st' => Linked st a.calls st')
        (include_ root scope name params hash st)

section

variable {opened : List String} {include_ : Includer} {root : Nat}

theorem outputCalls_appendAtom (a : Atom) : outputCalls (appendAtom a) = a.calls := by
  simp [outputCalls, appendAtom, Code.Output.close, Stmt.calls, Code.Fragment.calls]

/-- An interpolation calls no partial. -/
theorem Interpolated.calls_eq {s : Types.Store} {scope : Scope} {p : PathExpr} {params : List Expr}
    {hash : Hash} {a : Atom} (h : Interpolated s root scope p params hash a) : a.calls = [] := by
  cases h <;> rfl

theorem outputCalls_contentOutputs (value : String) : outputCalls (contentOutputs value) = [] := by
  unfold contentOutputs
  cases value.isEmpty with
  | true => rfl
  | false => exact outputCalls_appendAtom (.literal value)

theorem Includer.Links.lowers (hinclude : include_.Links opened) : include_.Lowers opened :=
  fun st root scope name params hash hst hroot =>
    (hinclude st root scope name params hash hst hroot).mono fun _ _ _ _ _ => trivial

theorem Derivation.linked (hinclude : include_.Links opened) {scope : Scope} {P : Program}
    {st st' : State} {outputs : List CodeOutput}
    (h : Derivation include_ root scope P st outputs st') (hst : st.Valid)
    (hroot : root < st.store.size) : Linked st (outputCalls outputs) st' := by
  induction h with
  | nil => exact .of_nil rfl
  | content _ ih =>
    rw [Code.outputCalls_append, outputCalls_contentOutputs]
    exact ih hst hroot
  | comment _ ih => exact ih hst hroot
  | constant _ ih =>
    rw [Code.outputCalls_append, outputCalls_appendAtom]
    exact ih hst hroot
  | interpolation hatom _ ih =>
    obtain ⟨⟨hst₁, hroot₁, _⟩, ⟨p, _, hinterpolated⟩, heq⟩ :=
      (interpolation_lowers hst hroot _ _ _).reaches opened hroot hatom
    -- an interpolation calls helpers only
    rw [Code.outputCalls_append, outputCalls_appendAtom, hinterpolated.calls_eq]
    apply Linked.of_eq (congrArg State.partials heq)
    exact ih hst₁ hroot₁
  | inclusion hatom hrest ih =>
    obtain ⟨⟨hst₁, hroot₁, _⟩, hlinked⟩ :=
      (hinclude _ root _ _ _ _ hst hroot).reaches opened hroot hatom
    obtain ⟨_, _, hev⟩ := hrest.reaches hinclude.lowers hst₁ hroot₁
    rw [Code.outputCalls_append, outputCalls_appendAtom]
    exact hlinked.append (ih hst₁ hroot₁) hev
  | each _ hloop hbody hrest ihbody ih =>
    obtain ⟨⟨hst₁, hroot₁, _⟩, _, hopened⟩ :=
      (openLoop_lowers hst hroot _ _ _ _).reaches opened hroot hloop
    obtain ⟨hst₂, hroot₂, _⟩ := hbody.reaches hinclude.lowers hst₁ hroot₁
    obtain ⟨_, _, hev⟩ := hrest.reaches hinclude.lowers hst₂ hroot₂
    rw [Code.outputCalls_append]
    refine Linked.append ?_ (ih hst₂ hroot₂) hev
    apply Linked.of_eq hopened.partials_eq
    simpa [outputCalls, Code.Output.close, Stmt.calls, Code.allCalls_closeAppends] using
      ihbody hst₁ hroot₁
  | dive _ _ hbody hrest ihbody ih =>
    obtain ⟨hst₁, hroot₁, _⟩ := hbody.reaches hinclude.lowers hst hroot
    obtain ⟨_, _, hev⟩ := hrest.reaches hinclude.lowers hst₁ hroot₁
    rw [Code.outputCalls_append, Code.outputCalls_statements, Code.allCalls_closeAppends]
    exact (ihbody hst hroot).append (ih hst₁ hroot₁) hev
  | conditional _ hpath hbody hinverse hrest ihbody ihinverse ih =>
    obtain ⟨⟨hst₁, hroot₁, _⟩, _, heq⟩ :=
      (openCondition_lowers hst hroot _ _ _).reaches opened hroot hpath
    obtain ⟨hst₂, hroot₂, _⟩ := hbody.reaches hinclude.lowers hst₁ hroot₁
    obtain ⟨hst₃, hroot₃, hev₃⟩ := hinverse.reaches hinclude.lowers hst₂ hroot₂
    obtain ⟨_, _, hev⟩ := hrest.reaches hinclude.lowers hst₃ hroot₃
    -- whichever form the condition takes, it calls what its branches call
    rw [Code.outputCalls_append, outputCalls_conditional, Branch.allCalls_of, Branch.allCalls_of]
    refine Linked.append ?_ (ih hst₃ hroot₃) hev
    apply Linked.of_eq (congrArg State.partials heq)
    exact (ihbody hst₁ hroot₁).append (ihinverse hst₂ hroot₂) hev₃

theorem lowerBody_linked (hinclude : include_.Links opened) {st : State} (hst : st.Valid)
    (hroot : root < st.store.size) (program : Program) :
    Lowers opened st (fun code st' => Linked st (Stmt.allCalls code) st')
      (lowerBody include_ root program st) := by
  refine (lowerBody_lowers hinclude.lowers hst hroot program).mono ?_
  rintro _ st' _ _ ⟨outputs, hderivation, rfl⟩
  rw [Code.allCalls_closeAppends]
  exact hderivation.linked hinclude hst hroot

/-! ## Inclusions -/

theorem included_linked {programs : List (String × Program)} {level : Nat}
    (hbelow : ∀ below name, level = below + 1 →
      (includePartial programs below (name :: opened)).Links (name :: opened))
    {st st' : State} (hroot : root < st.store.size) {scope : Scope} {name : String}
    {params : List Expr} {hash : Hash} {a : Atom}
    (h : Included programs level opened st st' root scope name params hash a) :
    Linked st a.calls st' := by
  intro hclosed
  cases h with
  | @again _ group context known _ _ _ mem name_eq called =>
    obtain ⟨node, _, hpartials⟩ := called.site
    have hle : PartialsLe st.partials st'.partials := by
      rw [hpartials]
      exact .map (fun p => p.extends_called _ _) _
    refine ⟨?_, ?_⟩
    · rw [hpartials]
      exact hclosed.called _ _
    · -- the group that is asked for is the one that the partial was lowered for
      have htarget : (group, name) ∈ targets st.partials :=
        List.mem_map.2 ⟨known, mem, by rw [called.group_eq, name_eq]⟩
      exact List.cons_subset.2 ⟨hle.targets_subset htarget, List.nil_subset _⟩
  | @first below program group context node code before after level_eq _ _ _ called =>
    have hroot₁ := Nat.lt_of_lt_of_le hroot called.grows.size_le
    have hnode := called.valid.forest.follow_lt hroot₁ called.node_eq
    have hbody := lowerBody_linked (hbelow below name level_eq) called.valid hnode program
    rw [called.body] at hbody
    obtain ⟨_, _, hlinked⟩ := hbody
    have hclosed₁ : Closed before.partials := by
      rw [called.before_eq]
      exact hclosed
    obtain ⟨hclosed₂, hcode⟩ := hlinked hclosed₁
    rw [called.after_eq]
    refine ⟨hclosed₂.append hcode, ?_⟩
    have htarget : (group, name) ∈
        targets (after.partials ++ [newPartial name node code group context]) :=
      List.mem_map.2 ⟨_, List.mem_append_right _ List.mem_cons_self, rfl⟩
    exact List.cons_subset.2 ⟨htarget, List.nil_subset _⟩

theorem includePartial_linked (programs : List (String × Program)) (level : Nat)
    (opened : List String) : (includePartial programs level opened).Links opened := by
  induction level, opened using level_induction with
  | step level opened hbelow =>
    intro st root scope name params hash hst hroot
    refine (includePartial_spec programs ?_ hst hroot name params hash).mono ?_
    · intro below other _ _
      exact includePartial_lowers programs below (other :: opened)
    · intro a st' _ _ hincluded
      exact included_linked hbelow hroot hincluded

end

/-- The calls in the code of a lowered template and of its partials are those of lowered partials,
in the groups that these were lowered for. -/
theorem lower_linked {programs : List (String × Program)} {program : Program} {l : Lowered}
    (h : lower programs program = .ok l) :
    Stmt.allCalls l.code ⊆ targets l.partials ∧ Closed l.partials := by
  obtain ⟨st, st', hlower, hfinish, hpartials, _, _⟩ := lower_ok.1 h
  have hst := valid_of_lowerProgram hlower
  obtain ⟨_, _, hpartials', _⟩ := settleTypes_correct hst ((finish_ok_iff hst).1 hfinish)
  have hbody := lowerBody_linked (includePartial_linked programs programs.length [])
    State.valid_initial State.valid_initial.nonempty program
  change Lowers _ _ _ (lowerProgram programs 0 program State.initial) at hbody
  rw [hlower] at hbody
  obtain ⟨_, _, hlinked⟩ := hbody
  have hempty : Closed State.initial.partials := by
    intro p hp
    cases hp
  rw [hpartials, hpartials']
  exact (hlinked hempty).symm

end Lower
end Stencil
