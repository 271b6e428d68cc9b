import Stencil.Proofs.Code.Grouping
import Stencil.Proofs.Lower.Members

/-!
# Appends in lowered code

A tag appends a single expression, and whatever a block holds is closed into statements. So every
append in lowered code is one that joining makes of single expressions: it has at least one of them,
and no more than fit into one call.

* `Stmt.allAppends` : the appends in code, by their items;
* `AppendsFit`      : all of them are calls;
* `OutputsFit`      : outputs that code with this property is made of.

The main result is `closeAppends_optimal`, about joining and about what lowering makes of it.
-/

namespace Stencil
namespace Code

/-! ## Appends in code -/

mutual

/-- What the appends of a statement have as items. -/
def Stmt.appends : Stmt → List (List Fragment)
  | .append items => [items]
  | .loop _ _ body | .branch _ body => Stmt.allAppends body
  | .branchElse _ body otherwise => Stmt.allAppends body ++ Stmt.allAppends otherwise

def Stmt.allAppends : List Stmt → List (List Fragment)
  | [] => []
  | s :: rest => s.appends ++ Stmt.allAppends rest

end

theorem Stmt.mem_allAppends {items : List Fragment} {code : List Stmt} :
    items ∈ Stmt.allAppends code ↔ ∃ s ∈ code, items ∈ s.appends := by
  induction code with
  | nil => simp [allAppends]
  | cons s code ih => simp [allAppends, ih]

/-- There is something to append, and it fits into one call. -/
def FitsCall (items : List Fragment) : Prop :=
  1 ≤ items.length ∧ items.length ≤ maxAppendArity

/-- All appends in code are calls. -/
def AppendsFit (code : List Stmt) : Prop := ∀ items ∈ Stmt.allAppends code, FitsCall items

theorem AppendsFit.nil : AppendsFit [] := by
  rintro items ⟨⟩

theorem fitsCall_of_single {items : List Fragment} (h : items.length = 1) : FitsCall items := by
  rw [FitsCall, h]
  decide

/-! ## Outputs -/

/-- An output appends a single item, or is a statement in which all appends are calls. -/
def Output.Fits : Output Stmt Fragment → Prop
  | .statement s => ∀ items ∈ s.appends, FitsCall items
  | .append items => items.length = 1

def OutputsFit (outputs : List (Output Stmt Fragment)) : Prop := ∀ output ∈ outputs, output.Fits

theorem OutputsFit.nil : OutputsFit [] := by
  rintro output ⟨⟩

theorem OutputsFit.append {outputs others : List (Output Stmt Fragment)} (h : OutputsFit outputs)
    (h' : OutputsFit others) : OutputsFit (outputs ++ others) :=
  List.forall_mem_append.2 ⟨h, h'⟩

theorem outputsFit_statement {s : Stmt} (h : ∀ items ∈ s.appends, FitsCall items) :
    OutputsFit [.statement s] :=
  List.forall_mem_singleton.2 h

/-- Code can be put among outputs as it is. -/
theorem AppendsFit.outputs {code : List Stmt} (h : AppendsFit code) :
    OutputsFit (code.map .statement) := by
  intro output houtput
  obtain ⟨s, hs, rfl⟩ := List.mem_map.1 houtput
  intro items hitems
  exact h items (Stmt.mem_allAppends.2 ⟨s, hs, hitems⟩)

theorem length_flatten_of_singles {appends : List (List Fragment)}
    (h : ∀ items ∈ appends, items.length = 1) : appends.flatten.length = appends.length := by
  induction appends with
  | nil => rfl
  | cons items appends ih =>
    obtain ⟨hitems, hrest⟩ := List.forall_mem_cons.1 h
    rw [List.flatten_cons, List.length_append, hitems, ih hrest, List.length_cons, Nat.add_comm]

/-- Joining makes calls of single items. -/
theorem Block.fits_joined {b : Block Stmt Fragment} (hfits : b.Fits) (h : OutputsFit b.outputs) :
    ∀ items ∈ (b.joined.close Stmt.append).appends, FitsCall items := by
  cases b with
  | statement s => exact h _ (List.mem_singleton.2 rfl)
  | group appends =>
    intro items hitems
    obtain rfl : items = appends.flatten := List.mem_singleton.1 hitems
    have hsingle : ∀ items ∈ appends, items.length = 1 := fun items hmem =>
      h (.append items) (List.mem_map_of_mem hmem)
    have hlength := length_flatten_of_singles hsingle
    obtain hone | ⟨hne, hsmall⟩ := hfits
    · exact fitsCall_of_single (hlength.trans hone)
    · refine ⟨?_, hsmall⟩
      rw [hlength]
      exact List.length_pos_iff.2 hne

theorem OutputsFit.closeAppends {outputs : List (Output Stmt Fragment)} (h : OutputsFit outputs) :
    AppendsFit (closeAppends Stmt.append outputs) := by
  obtain ⟨blocks, ⟨hcovers, hfits⟩, hclose, _⟩ := closeAppends_divides Stmt.append outputs
  rw [hclose]
  intro items hitems
  obtain ⟨s, hs, hitems⟩ := Stmt.mem_allAppends.1 hitems
  obtain ⟨b, hb, rfl⟩ := List.mem_map.1 hs
  refine b.fits_joined (hfits b hb) ?_ items hitems
  intro output houtput
  apply h
  rw [← hcovers]
  exact List.mem_flatMap.2 ⟨b, hb, houtput⟩

end Code

namespace Lower

open Code (AppendsFit Atom Divides Fragment Output OutputsFit StartsClosed Stmt closeAppends
  closeAppends_divides closeAppends_run fitsCall_of_single groupCount maxAppendArity
  outputsFit_statement)
open Template (Expr Hash PathExpr Program Statement)
open Stencil.Types (NodeId)
open Results (run_bind_eq_ok)

/-! ## Branches -/

theorem outputsFit_appendAtom (a : Atom) : OutputsFit (appendAtom a) :=
  List.forall_mem_singleton.2 rfl

theorem Branch.appendsFit_of (body : Program) {outputs : List CodeOutput} (h : OutputsFit outputs) :
    AppendsFit (Branch.of body outputs).code := by
  unfold Branch.of
  split
  · exact .nil
  · split
    · exact h.closeAppends
    · exact List.forall_mem_singleton.2 (fitsCall_of_single rfl)
  · exact h.closeAppends

/-- A condition is a choice to append, or a statement around its branches. -/
theorem outputsFit_conditional (negated : Bool) (path : AccessPath) {first second : Branch}
    (hfirst : AppendsFit first.code) (hsecond : AppendsFit second.code) :
    OutputsFit (conditional negated path first second) := by
  have hboth : ∀ items ∈ Stmt.allAppends first.code ++ Stmt.allAppends second.code,
      Code.FitsCall items := List.forall_mem_append.2 ⟨hfirst, hsecond⟩
  unfold conditional
  split
  · exact .nil
  · exact List.forall_mem_singleton.2 rfl
  · exact List.forall_mem_singleton.2 rfl
  · exact List.forall_mem_singleton.2 rfl
  · exact outputsFit_statement hsecond
  · exact outputsFit_statement hfirst
  · exact outputsFit_statement hboth

/-! ## Statements -/

/-- All appends in the code of partials are calls. -/
def State.PartialsFit (st : State) : Prop := ∀ p ∈ st.partials, AppendsFit p.code

theorem State.partialsFit_of_eq {st st' : State} (heq : st'.partials = st.partials)
    (h : st.PartialsFit) : st'.PartialsFit := by
  unfold PartialsFit
  rw [heq]
  exact h

/-- An includer that lowers partials to code whose appends are calls. -/
def Includer.KeepsFit (include_ : Includer) : Prop :=
  ∀ (root : NodeId) (scope : Scope) (name : String) (params : List Expr) (hash : Hash),
    Keeps State.PartialsFit (include_ root scope name params hash)

section

variable {include_ : Includer} {root : NodeId}

theorem outputsFit_contentOutputs (value : String) : OutputsFit (contentOutputs value) := by
  unfold contentOutputs
  cases value.isEmpty with
  | true => exact .nil
  | false => exact outputsFit_appendAtom (.literal value)

theorem Derivation.fits (hinclude : include_.KeepsFit) {scope : Scope} {P : Program}
    {st st' : State} {outputs : List CodeOutput}
    (h : Derivation include_ root scope P st outputs st') :
    OutputsFit outputs ∧ (st.PartialsFit → st'.PartialsFit) := by
  induction h with
  | nil => exact ⟨.nil, id⟩
  | content _ ih => exact ⟨(outputsFit_contentOutputs _).append ih.1, ih.2⟩
  | comment _ ih => exact ih
  | constant _ ih => exact ⟨(outputsFit_appendAtom _).append ih.1, ih.2⟩
  | interpolation hatom _ ih =>
    have hkeeps := State.partialsFit_of_eq (interpolation_eq_ok hatom).2.2
    exact ⟨(outputsFit_appendAtom _).append ih.1, ih.2 ∘ hkeeps⟩
  | inclusion hatom _ ih =>
    have hkeeps := hinclude _ _ _ _ _ _ _ _ hatom
    exact ⟨(outputsFit_appendAtom _).append ih.1, ih.2 ∘ hkeeps⟩
  | each _ hloop _ _ ihbody ih =>
    have hopen := State.partialsFit_of_eq (openLoop_eq_ok hloop).2.2
    refine ⟨OutputsFit.append ?_ ih.1, ih.2 ∘ ihbody.2 ∘ hopen⟩
    exact outputsFit_statement ihbody.1.closeAppends
  | dive _ _ _ _ ihbody ih =>
    exact ⟨ihbody.1.closeAppends.outputs.append ih.1, ih.2 ∘ ihbody.2⟩
  | conditional _ hpath _ _ _ ihbody ihinverse ih =>
    have hopen := State.partialsFit_of_eq (openCondition_eq_ok hpath).2.2
    refine ⟨OutputsFit.append ?_ ih.1, ih.2 ∘ ihinverse.2 ∘ ihbody.2 ∘ hopen⟩
    exact outputsFit_conditional _ _ (Branch.appendsFit_of _ ihbody.1)
      (Branch.appendsFit_of _ ihinverse.1)

theorem lowerBody_fits (hinclude : include_.KeepsFit) {P : Program} {st st' : State}
    {code : List Stmt} (h : lowerBody include_ root P st = .ok code st') :
    AppendsFit code ∧ (st.PartialsFit → st'.PartialsFit) := by
  unfold lowerBody at h
  obtain ⟨outputs, st₁, houtputs, h⟩ := run_bind_eq_ok.1 h
  cases h
  obtain ⟨hfits, hkeeps⟩ := (lowerStatements_eq_ok.1 houtputs).fits hinclude
  exact ⟨hfits.closeAppends, hkeeps⟩

end

/-! ## Partials -/

section

variable {root : NodeId} {context : AccessPath}

theorem infer_keepsFit {α : Type} (m : Types.Inference α) :
    Keeps State.PartialsFit (Lowering.infer m) :=
  fun _ _ _ h => State.partialsFit_of_eq (infer_eq_ok h).2

/-- A further call of a partial does not change its code. -/
theorem callAgain_keepsFit (known : LoweredPartial) (group : Option String) :
    Keeps State.PartialsFit (callAgain known root group context) := by
  unfold callAgain
  split
  · exact .throw _
  · refine .bind (infer_keepsFit _) fun node => .bind (infer_keepsFit _) fun _ => .modify ?_
    intro st hst
    change ∀ q ∈ st.partials.map (·.called known.name ⟨node, context⟩), AppendsFit q.code
    intro q hq
    obtain ⟨p, hp, rfl⟩ := List.mem_map.1 hq
    rw [(p.extends_called known.name ⟨node, context⟩).code]
    exact hst p hp

theorem callFirst_keepsFit {include_ : Includer} (hinclude : include_.KeepsFit) (name : String)
    (group : Option String) (program : Program) :
    Keeps State.PartialsFit (callFirst include_ root name group context program) := by
  intro st a st' h hst
  unfold callFirst at h
  obtain ⟨node, st₁, hnode, h⟩ := run_bind_eq_ok.1 h
  obtain ⟨code, st₂, hcode, h⟩ := run_bind_eq_ok.1 h
  cases h
  rw [inNewFunction_eq] at hcode
  split at hcode
  · next hbody =>
    cases hcode
    obtain ⟨hfits, hkeeps⟩ := lowerBody_fits hinclude hbody
    have hbefore := infer_keepsFit _ _ _ _ hnode hst
    exact List.forall_mem_append.2 ⟨hkeeps hbefore, List.forall_mem_singleton.2 hfits⟩
  · cases hcode

end

variable {programs : List (String × Program)}

theorem Inclusion.call_keepsFit {level : Nat} {opened : List String} {name : String}
    (hbelow : ∀ below, level = below + 1 →
      (includePartial programs below (name :: opened)).KeepsFit) (root : NodeId) (i : Inclusion) :
    Keeps State.PartialsFit (i.call programs level opened root name) := by
  unfold Inclusion.call
  refine .get_bind fun st _ => ?_
  split
  · next known _ => exact callAgain_keepsFit known i.group
  · cases opened.contains name with
    | true => exact .throw_bind _ _
    | false =>
      cases level with
      | zero => exact .throw _
      | succ below => exact callFirst_keepsFit (hbelow below rfl) name i.group i.program

theorem includePartial_keepsFit (level : Nat) (opened : List String) :
    (includePartial programs level opened).KeepsFit := by
  induction level, opened using level_induction with
  | step level opened hbelow =>
    intro root scope name params hash
    rw [includePartial_eq]
    refine keeps_lift_bind fun i _ => ?_
    exact .bind (i.call_keepsFit (fun below => hbelow below name) root) fun _ => .pure _

/-! ## Templates -/

/-- The appends in the code of a lowered template are calls. -/
theorem lower_appendsFit {program : Program} {l : Lowered} (h : lower programs program = .ok l) :
    AppendsFit l.code ∧ ∀ p ∈ l.partials, AppendsFit p.code := by
  obtain ⟨st, st', hlower, hfinish, hpartials, _, _⟩ := lower_ok.1 h
  have hst := valid_of_lowerProgram hlower
  obtain ⟨_, _, hpartials', _⟩ := settleTypes_correct hst ((finish_ok_iff hst).1 hfinish)
  obtain ⟨hcode, hkeeps⟩ := lowerBody_fits (includePartial_keepsFit programs.length []) hlower
  rw [hpartials, hpartials']
  refine ⟨hcode, hkeeps ?_⟩
  rintro p ⟨⟩

/-- Outputs become the statements of blocks that fit, and no other division has fewer groups. A run
of single items becomes as many statements as calls are needed for them. All appends that lowering
closes are calls, in any body, and so in the main function and in partials. -/
theorem closeAppends_optimal {σ φ : Type} (append : List φ → σ) :
    (∀ outputs : List (Output σ φ), ∃ blocks, Divides outputs blocks ∧
      closeAppends append outputs = blocks.map (fun b => b.joined.close append) ∧
      ∀ others, Divides outputs others → groupCount blocks ≤ groupCount others) ∧
    (∀ (before after : List (Output σ φ)) (items : List φ),
      (∀ last, before.getLast? ≠ some (.append last)) → StartsClosed after →
        ∃ groups : List (List φ), groups.flatten = items ∧
          groups.length = (items.length + (maxAppendArity - 1)) / maxAppendArity ∧
          closeAppends append (before ++ items.map (fun i => .append [i]) ++ after) =
            closeAppends append before ++ groups.map append ++ closeAppends append after) ∧
    (∀ (programs : List (String × Program)) (level : Nat) (opened : List String) (root : NodeId)
      (scope : Scope) (P : Program) (st st' : State) (outputs : List CodeOutput),
      lowerStatements (includePartial programs level opened) root scope P st = .ok outputs st' →
        AppendsFit (closeAppends Stmt.append outputs)) ∧
    ∀ (programs : List (String × Program)) (program : Program) (l : Lowered),
      lower programs program = .ok l →
        AppendsFit l.code ∧ ∀ p ∈ l.partials, AppendsFit p.code := by
  refine ⟨closeAppends_divides append, ?_, ?_, fun _ _ _ => lower_appendsFit⟩
  · intro before after items hbefore hafter
    exact closeAppends_run append hbefore hafter items
  · intro programs level opened root scope P st st' outputs h
    exact ((lowerStatements_eq_ok.1 h).fits (includePartial_keepsFit level opened)).1.closeAppends

/-- Twenty shared literals, one after the other. -/
def rosterItems : List Fragment := List.replicate 20 (.atom (.constant "A"))

def rosterOutputs : List CodeOutput := rosterItems.map fun i => .append [i]

def rosterLine : Program := List.replicate 20 (.constant "A" {})

/-- The line twice, the second time as a partial. -/
def rosterPage : Program := rosterLine ++ [.inclusion "line" [] [] {}]

/-- Sixteen of them and the rest. -/
def rosterBlocks : List (Code.Block Stmt Fragment) :=
  [.group ((rosterItems.take 16).map fun i => [i]), .group ((rosterItems.drop 16).map fun i => [i])]

/-- Twenty items take two calls, after a loop as well as in a function of their own. -/
theorem closeAppends_optimal_roster :
    (∃ blocks, Divides rosterOutputs blocks ∧ groupCount blocks ≤ 2) ∧
    (∃ groups : List (List Fragment), groups.length = 2 ∧
      closeAppends Stmt.append (.statement (.loop "__i" ⟨.input, []⟩ []) :: rosterOutputs) =
        .loop "__i" ⟨.input, []⟩ [] :: groups.map .append) ∧
    (∃ outputs st', lowerStatements (includePartial [] 0 []) 0 {} rosterLine State.initial =
      .ok outputs st' ∧ AppendsFit (closeAppends Stmt.append outputs)) ∧
    ∃ (l : Lowered) (p : LoweredPartial), lower [("line", rosterLine)] rosterPage = .ok l ∧
      AppendsFit l.code ∧ p ∈ l.partials ∧ AppendsFit p.code := by
  obtain ⟨hdivides, hrun, hstatements, hlower⟩ := closeAppends_optimal Stmt.append
  refine ⟨?_, ?_, ?_, ?_⟩
  · obtain ⟨blocks, hblocks, _, hfewest⟩ := hdivides rosterOutputs
    have htwo : Divides rosterOutputs rosterBlocks := by
      refine ⟨rfl, ?_⟩
      simp [rosterBlocks, rosterItems, Code.Block.Fits, maxAppendArity]
    exact ⟨blocks, hblocks, hfewest rosterBlocks htwo⟩
  · have hbefore : ∀ last : List Fragment,
        ([.statement (.loop "__i" ⟨.input, []⟩ [])] : List CodeOutput).getLast? ≠
          some (.append last) := by
      rintro last ⟨⟩
    have hafter : StartsClosed ([] : List CodeOutput) := by
      rintro items ⟨⟩
    obtain ⟨groups, _, hlength, hclose⟩ := hrun _ _ rosterItems hbefore hafter
    refine ⟨groups, hlength, ?_⟩
    simpa [rosterOutputs, closeAppends, Code.mergeAppends, Code.Output.close] using hclose
  · have hline : lowerStatements (includePartial [] 0 []) 0 {} rosterLine State.initial =
        .ok rosterOutputs State.initial := rfl
    exact ⟨_, _, hline, hstatements [] 0 [] 0 {} rosterLine _ _ _ hline⟩
  · have hends : endsWith (lowerProgram [("line", rosterLine)] 0 rosterPage State.initial)
        (fun st => settlesWith 1 st fun st' => st'.partials.any fun p => p.name == "line") =
          true := by
      decide +kernel
    obtain ⟨l, st', hl, hpartials, _, _, hcheck⟩ := exists_lower_of_endsWith hends
    obtain ⟨p, hp, _⟩ := List.any_eq_true.1 hcheck
    obtain ⟨hcode, hfits⟩ := hlower _ _ l hl
    rw [← hpartials] at hp
    exact ⟨l, p, hl, hcode, hp, hfits p hp⟩

end Lower
end Stencil
