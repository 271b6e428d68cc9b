import Mathlib.Data.List.Perm.Basic
import Stencil.Proofs.Factor.Tour
import Stencil.Proofs.Lower.Written

/-!
# The partials that are lowered

Which partials a template is lowered with, in which order, and what their calls are. This file
defines:

* `Traced`        : the order in which calls are recorded, for given bodies of partials;
* `ExactRegistry` : what holds of the partials of a lowered template.

Partials are recorded in the order in which the calls of code enter them (`Entered.traced`). The
main result is `Entered.exact`: the partials are those that the program reaches, each behind those
that it includes, with all calls of each.
-/

namespace Stencil
namespace Lower

open Code (Call Placed Stmt calls)
open Factor (Includes Reachable)
open Template (Program Statement)
open Stencil.Types (NodeId)

/-! ## The order of calls -/

/-- The order in which calls are recorded, where `done` are the partials that have been completed.
A partial is completed before its first call is recorded, and the calls in its body are recorded
meanwhile. -/
inductive Traced (bodies : String → List Call) :
    List String → List Call → List Call → List String → Prop where
  | nil {done : List String} : Traced bodies done [] [] done
  | again {done done' : List String} {call : Call} {rest trace : List Call} :
      call.name ∈ done → Traced bodies done rest trace done' →
        Traced bodies done (call :: rest) (call :: trace) done'
  | first {done done₁ done₂ : List String} {call : Call} {rest inner trace : List Call} :
      call.name ∉ done → Traced bodies done (bodies call.name) inner done₁ →
        call.name ∉ done₁ → Traced bodies (done₁ ++ [call.name]) rest trace done₂ →
        Traced bodies done (call :: rest) (inner ++ call :: trace) done₂

namespace Traced

variable {bodies : String → List Call} {done done' : List String} {rest trace : List Call}

theorem subset (h : Traced bodies done rest trace done') : done ⊆ done' := by
  induction h with
  | nil => exact List.Subset.refl _
  | again _ _ ih => exact ih
  | first _ _ _ _ ihinner ih =>
    exact List.Subset.trans ihinner (List.Subset.trans (List.subset_append_left _ _) ih)

/-- All partials that are called get completed. -/
theorem mem_of_call (h : Traced bodies done rest trace done') :
    ∀ call ∈ rest, call.name ∈ done' := by
  induction h with
  | nil =>
    intro call hcall
    cases hcall
  | again hdone hrest ih =>
    intro call hcall
    obtain rfl | hcall := List.mem_cons.1 hcall
    · exact hrest.subset hdone
    · exact ih call hcall
  | first _ _ _ hrest _ ih =>
    intro call hcall
    obtain rfl | hcall := List.mem_cons.1 hcall
    · exact hrest.subset (List.mem_append_right _ (List.mem_singleton.2 rfl))
    · exact ih call hcall

/-- The order depends on the bodies of completed partials only. -/
theorem congr {others : String → List Call} (h : Traced bodies done rest trace done')
    (heq : ∀ name ∈ done', bodies name = others name) : Traced others done rest trace done' := by
  induction h with
  | nil => exact .nil
  | again hdone _ ih => exact .again hdone (ih heq)
  | first hnew _ hopen hrest ihinner ih =>
    have hsubset := hrest.subset
    have hinner := ihinner fun name hname => heq name (hsubset (List.mem_append_left _ hname))
    rw [heq _ (hsubset (List.mem_append_right _ (List.mem_singleton.2 rfl)))] at hinner
    exact .first hnew hinner hopen (ih heq)

open scoped List in
/-- Each call is recorded once: those that are made, and those in the bodies of the partials that
get completed. -/
theorem perm (h : Traced bodies done rest trace done') :
    ∃ added, done' = done ++ added ∧ trace.Perm (rest ++ added.flatMap bodies) := by
  induction h with
  | nil => exact ⟨[], (List.append_nil _).symm, .refl _⟩
  | again _ _ ih =>
    obtain ⟨added, hdone, hperm⟩ := ih
    exact ⟨added, hdone, hperm.cons _⟩
  | @first done _ _ call rest inner trace _ _ _ _ ihinner ih =>
    obtain ⟨before, rfl, hbefore⟩ := ihinner
    obtain ⟨after, rfl, hafter⟩ := ih
    refine ⟨before ++ call.name :: after, by simp, ?_⟩
    calc
      inner ++ call :: trace ~ call :: (inner ++ trace) := List.perm_middle
      _ ~ call :: ((bodies call.name ++ before.flatMap bodies) ++
            (rest ++ after.flatMap bodies)) := (hbefore.append hafter).cons _
      _ ~ call :: (rest ++ ((before.flatMap bodies ++ bodies call.name) ++
            after.flatMap bodies)) := by
        refine List.Perm.cons _ ?_
        rw [← List.append_assoc, ← List.append_assoc]
        refine List.Perm.append_right _ ?_
        exact List.perm_append_comm.trans (List.perm_append_comm.append_left _)
      _ = call :: rest ++ (before ++ call.name :: after).flatMap bodies := by simp

/-- What the calls reach: a property that goes over from partials to those that they call. -/
theorem all_done (h : Traced bodies done rest trace done') {reached : String → Prop}
    (hdone : ∀ name ∈ done, reached name) (hrest : ∀ call ∈ rest, reached call.name)
    (hbodies : ∀ name, reached name → ∀ call ∈ bodies name, reached call.name) :
    ∀ name ∈ done', reached name := by
  induction h with
  | nil => exact hdone
  | again _ _ ih => exact ih hdone fun call hcall => hrest call (List.mem_cons_of_mem _ hcall)
  | first _ _ _ _ ihinner ih =>
    have hcall := hrest _ List.mem_cons_self
    have hinner := ihinner hdone (hbodies _ hcall)
    refine ih ?_ fun call hcall => hrest call (List.mem_cons_of_mem _ hcall)
    intro name hname
    obtain hname | hname := List.mem_append.1 hname
    · exact hinner name hname
    · cases List.mem_singleton.1 hname
      exact hcall

theorem nodup (h : Traced bodies done rest trace done') (hdone : done.Nodup) : done'.Nodup := by
  induction h with
  | nil => exact hdone
  | again _ _ ih => exact ih hdone
  | first _ _ hopen _ ihinner ih =>
    refine ih (List.nodup_append'.2 ⟨ihinner hdone, List.nodup_singleton _, ?_⟩)
    intro name hname hcall
    cases List.mem_singleton.1 hcall
    exact hopen hname

/-- Completed partials stand behind those that they call. -/
def Ordered (bodies : String → List Call) (done : List String) : Prop :=
  ∀ i name, done[i]? = some name → ∀ call ∈ bodies name, call.name ∈ done.take i

theorem ordered (h : Traced bodies done rest trace done') (hdone : Ordered bodies done) :
    Ordered bodies done' := by
  induction h with
  | nil => exact hdone
  | again _ _ ih => exact ih hdone
  | @first _ done₁ _ call _ _ _ _ hinner _ _ ihinner ih =>
    refine ih ?_
    intro i name hname other hother
    obtain hlt | hge := Nat.lt_or_ge i done₁.length
    · rw [List.getElem?_append_left hlt] at hname
      rw [List.take_append_of_le_length (Nat.le_of_lt hlt)]
      exact ihinner hdone i name hname other hother
    · -- the partial that has just been completed: its calls have been traced
      rw [List.getElem?_append_right hge] at hname
      obtain ⟨hi, hname⟩ := List.getElem?_eq_some_iff.1 hname
      rw [List.length_singleton] at hi
      obtain rfl : i = done₁.length := by omega
      rw [List.getElem_singleton] at hname
      rw [← hname] at hother
      rw [List.take_left]
      exact hinner.mem_of_call other hother

end Traced

/-! ## Registries -/

/-- The calls in the body of a partial. -/
def bodyCalls (partials : List LoweredPartial) (name : String) : List Call :=
  ((known? partials name).map fun p => calls (Stmt.allParts [] p.code)).getD []

/-- The contexts that have been recorded for a partial. -/
def contexts (partials : List LoweredPartial) (name : String) : List AccessPath :=
  ((known? partials name).map fun p => p.callSites.map (·.context)).getD []

section

variable {partials : List LoweredPartial} {name : String}

theorem known?_eq_none : known? partials name = none ↔ name ∉ partials.map (·.name) := by
  simp [known?]

theorem name_of_known? {p : LoweredPartial} (h : known? partials name = some p) :
    p ∈ partials ∧ p.name = name :=
  ⟨List.mem_of_find?_eq_some h, by simpa using List.find?_some h⟩

theorem name_mem_of_known? {p : LoweredPartial} (h : known? partials name = some p) :
    name ∈ partials.map (·.name) := by
  obtain ⟨hp, rfl⟩ := name_of_known? h
  exact List.mem_map_of_mem hp

theorem exists_known? (h : name ∈ partials.map (·.name)) : ∃ p, known? partials name = some p := by
  rw [← Option.isSome_iff_exists, Option.isSome_iff_ne_none, Ne, known?_eq_none, not_not]
  exact h

theorem known?_of_mem (hnodup : (partials.map (·.name)).Nodup) {p : LoweredPartial}
    (hp : p ∈ partials) : known? partials p.name = some p := by
  obtain ⟨q, hq⟩ := exists_known? (List.mem_map_of_mem hp)
  obtain ⟨hmem, hname⟩ := name_of_known? hq
  rw [hq, List.inj_on_of_nodup_map hnodup hmem hp hname]

theorem known?_map_called (other : String) (site : CallSite) :
    known? (partials.map (·.called other site)) name =
      (known? partials name).map (·.called other site) := by
  unfold known?
  rw [List.find?_map]
  congr 2
  funext p
  change ((p.called other site).name == name) = _
  rw [(p.extends_called other site).name]

theorem known?_append_of_some {p : LoweredPartial} (h : known? partials name = some p)
    (others : List LoweredPartial) : known? (partials ++ others) name = some p := by
  unfold known? at h ⊢
  rw [List.find?_append, h]
  rfl

theorem known?_append_new (hnew : name ∉ partials.map (·.name)) (p : LoweredPartial)
    (hp : p.name = name) : known? (partials ++ [p]) name = some p := by
  unfold known?
  rw [List.find?_append]
  have hnone := known?_eq_none.2 hnew
  unfold known? at hnone
  simp [hnone, hp]

theorem known?_append_of_ne {other : LoweredPartial} (h : other.name ≠ name) :
    known? (partials ++ [other]) name = known? partials name := by
  unfold known?
  rw [List.find?_append]
  simp [h]

theorem names_map_called (partials : List LoweredPartial) (other : String) (site : CallSite) :
    (partials.map (·.called other site)).map (·.name) = partials.map (·.name) := by
  rw [List.map_map]
  exact List.map_congr_left fun p _ => (p.extends_called other site).name

/-- The contexts of calls to a partial. -/
def contextsTo (name : String) (trace : List Call) : List AccessPath :=
  (trace.filter (·.name == name)).map (·.context)

theorem contextsTo_append (first others : List Call) :
    contextsTo name (first ++ others) = contextsTo name first ++ contextsTo name others := by
  unfold contextsTo
  rw [List.filter_append, List.map_append]

theorem contexts_map_called {call : Call} (hcall : call.name ∈ partials.map (·.name))
    (node : NodeId) :
    contexts (partials.map (·.called call.name ⟨node, call.context⟩)) name =
      contexts partials name ++ contextsTo name [call] := by
  unfold contexts contextsTo
  rw [known?_map_called]
  cases hentry : known? partials name with
  | none =>
    have hne : call.name ≠ name := by
      rintro rfl
      exact known?_eq_none.1 hentry hcall
    simp [hne]
  | some p =>
    obtain ⟨_, rfl⟩ := name_of_known? hentry
    by_cases hname : call.name = p.name
    · simp [LoweredPartial.called, hname]
    · simp [LoweredPartial.called, hname, Ne.symm hname]

theorem contexts_append_new {call : Call} (hnew : call.name ∉ partials.map (·.name))
    (node : NodeId) (code : List Stmt) :
    contexts (partials ++ [newPartial call.name node code call.group call.context]) name =
      contexts partials name ++ contextsTo name [call] := by
  unfold contexts contextsTo
  by_cases hname : call.name = name
  · rw [← hname, known?_append_new hnew _ rfl, known?_eq_none.2 hnew]
    simp [newPartial]
  · rw [known?_append_of_ne hname]
    simp [hname]

end

/-! ## Entering calls -/

namespace Entered

variable {programs : List (String × Program)} {opened : List String}
  {partials done : List LoweredPartial} {rest : List Call}

/-- Partials that have been lowered stay, with further calls. -/
theorem known? (h : Entered programs opened partials rest done) {name : String}
    {p : LoweredPartial} (hp : Lower.known? partials name = some p) :
    ∃ q, Lower.known? done name = some q ∧ p.Extends q := by
  induction h generalizing p with
  | nil => exact ⟨p, hp, .refl p⟩
  | @again _ partials _ _ node call _ _ _ _ ih =>
    have hcalled : Lower.known? (partials.map (·.called call.name ⟨node, call.context⟩)) name =
        some (p.called call.name ⟨node, call.context⟩) := by
      rw [known?_map_called, hp]
      rfl
    obtain ⟨q, hq, hextends⟩ := ih hcalled
    exact ⟨q, hq, (p.extends_called _ _).trans hextends⟩
  | first _ _ _ _ _ _ ihinner ih =>
    obtain ⟨q, hq, hextends⟩ := ihinner hp
    obtain ⟨r, hr, hextends'⟩ := ih (known?_append_of_some hq _)
    exact ⟨r, hr, hextends.trans hextends'⟩

theorem bodyCalls_eq (h : Entered programs opened partials rest done) {name : String}
    (hname : name ∈ partials.map (·.name)) : bodyCalls done name = bodyCalls partials name := by
  obtain ⟨p, hp⟩ := exists_known? hname
  obtain ⟨q, hq, hextends⟩ := h.known? hp
  unfold bodyCalls
  rw [hp, hq, Option.map_some, Option.map_some, hextends.code]

/-- A partial is not completed while it is being lowered. -/
theorem absent (h : Entered programs opened partials rest done) {name : String}
    (hname : name ∈ opened) (habsent : name ∉ partials.map (·.name)) :
    name ∉ done.map (·.name) := by
  induction h with
  | nil => exact habsent
  | again _ _ _ ih =>
    refine ih hname ?_
    rw [names_map_called]
    exact habsent
  | first _ hopened _ _ _ _ ihinner ih =>
    refine ih hname ?_
    rw [List.map_append, List.mem_append]
    rintro (hinner | hnew)
    · exact ihinner (List.mem_cons_of_mem _ hname) habsent hinner
    · cases List.mem_singleton.1 hnew
      exact hopened hname

/-- Calls are recorded in their order, at the partials that they call. -/
theorem traced (h : Entered programs opened partials rest done) :
    ∃ trace, Traced (bodyCalls done) (partials.map (·.name)) rest trace (done.map (·.name)) ∧
      ∀ name, contexts done name = contexts partials name ++ contextsTo name trace := by
  induction h with
  | nil => exact ⟨[], .nil, fun name => (List.append_nil _).symm⟩
  | @again _ partials _ known node call _ hknown _ _ ih =>
    obtain ⟨trace, htraced, hcontexts⟩ := ih
    rw [names_map_called] at htraced
    have hcall := name_mem_of_known? hknown
    refine ⟨[call] ++ trace, .again hcall htraced, ?_⟩
    intro name
    rw [hcontexts, contexts_map_called hcall, contextsTo_append, List.append_assoc]
  | @first _ _ inner done node call _ _ code hnew _ _ _ hinner hrest ihinner ih =>
    obtain ⟨before, htraced, hcontexts⟩ := ihinner
    obtain ⟨after, htraced', hcontexts'⟩ := ih
    have hopen := hinner.absent List.mem_cons_self hnew
    have hnames : (inner ++ [newPartial call.name node code call.group call.context]).map (·.name) =
        inner.map (·.name) ++ [call.name] := List.map_append
    have hentry := known?_append_new hopen
      (newPartial call.name node code call.group call.context) rfl
    -- the bodies that have been lowered so far stay as they are
    have hbodies : ∀ name ∈ inner.map (·.name), bodyCalls inner name = bodyCalls done name := by
      intro name hname
      have hne : call.name ≠ name := fun heq => hopen (heq ▸ hname)
      rw [hrest.bodyCalls_eq (hnames ▸ List.mem_append_left _ hname), bodyCalls, bodyCalls,
        known?_append_of_ne hne]
    have hbody : bodyCalls done call.name = calls (Stmt.allParts [] code) := by
      rw [hrest.bodyCalls_eq (hnames ▸ List.mem_append_right _ (List.mem_singleton.2 rfl)),
        bodyCalls, hentry]
      rfl
    have htraced := htraced.congr hbodies
    rw [← hbody] at htraced
    rw [hnames] at htraced'
    refine ⟨before ++ ([call] ++ after), .first hnew htraced hopen htraced', ?_⟩
    intro name
    rw [hcontexts', contexts_append_new hopen, hcontexts, contextsTo_append, contextsTo_append]
    simp only [List.append_assoc]

end Entered

/-- A call is that of a partial, in the group that this was lowered for. -/
def Grouped (partials : List LoweredPartial) (call : Call) : Prop :=
  ∃ p, known? partials call.name = some p ∧ p.group = call.group

section

variable {programs : List (String × Program)} {opened : List String}
  {partials done : List LoweredPartial} {rest : List Call}

theorem Grouped.mono {call : Call} (hcall : Grouped partials call)
    (h : Entered programs opened partials rest done) : Grouped done call := by
  obtain ⟨p, hp, hgroup⟩ := hcall
  obtain ⟨q, hq, hextends⟩ := h.known? hp
  exact ⟨q, hq, hextends.group.trans hgroup⟩

theorem Grouped.append {call : Call} (hcall : Grouped partials call)
    (others : List LoweredPartial) : Grouped (partials ++ others) call := by
  obtain ⟨p, hp, hgroup⟩ := hcall
  exact ⟨p, known?_append_of_some hp others, hgroup⟩

/-- All calls are in the groups of their partials. -/
def AllGrouped (partials : List LoweredPartial) : Prop :=
  ∀ p ∈ partials, ∀ call ∈ calls (Stmt.allParts [] p.code), Grouped partials call

/-- Where all calls have been in the groups of their partials, they still are. -/
theorem Entered.grouped (h : Entered programs opened partials rest done)
    (hall : AllGrouped partials) : (∀ call ∈ rest, Grouped done call) ∧ AllGrouped done := by
  induction h with
  | nil => exact ⟨by simp, hall⟩
  | @again opened partials _ known node call _ hknown hgroup hrest ih =>
    have hstep : Entered programs opened partials [call]
        (partials.map (·.called call.name ⟨node, call.context⟩)) := .again hknown hgroup .nil
    have hcalled : AllGrouped (partials.map (·.called call.name ⟨node, call.context⟩)) := by
      intro q hq other hother
      obtain ⟨p, hp, rfl⟩ := List.mem_map.1 hq
      rw [(p.extends_called _ _).code] at hother
      exact (hall p hp other hother).mono hstep
    have hcall : Grouped partials call := ⟨known, hknown, hgroup⟩
    obtain ⟨hothers, hdone⟩ := ih hcalled
    exact ⟨List.forall_mem_cons.2 ⟨(hcall.mono hstep).mono hrest, hothers⟩, hdone⟩
  | @first _ _ inner _ node call _ _ code hnew _ _ _ hinner hrest ihinner ih =>
    obtain ⟨hbody, hcomplete⟩ := ihinner hall
    have hopen := hinner.absent List.mem_cons_self hnew
    have hadded :
        AllGrouped (inner ++ [newPartial call.name node code call.group call.context]) := by
      intro p hp other hother
      obtain hp | hp := List.mem_append.1 hp
      · exact (hcomplete p hp other hother).append _
      · cases List.mem_singleton.1 hp
        exact (hbody other hother).append _
    have hcall : Grouped (inner ++ [newPartial call.name node code call.group call.context]) call :=
      ⟨_, known?_append_new hopen _ rfl, rfl⟩
    obtain ⟨hothers, hdone⟩ := ih hadded
    exact ⟨List.forall_mem_cons.2 ⟨hcall.mono hrest, hothers⟩, hdone⟩

end

/-! ## Calls and inclusions -/

mutual

/-- The inclusions of a statement. -/
def statementInclusions : Statement → List Statement
  | .inclusion name params hash span => [.inclusion name params hash span]
  | .block _ _ _ _ body none _ => inclusions body
  | .block _ _ _ _ body (some otherwise) _ => inclusions body ++ inclusions otherwise
  | _ => []

/-- The inclusions of a program at all depths, in their order. -/
def inclusions : Program → List Statement
  | [] => []
  | s :: rest => statementInclusions s ++ inclusions rest

end

theorem inclusions_block (head : Template.PathExpr) (params : List Template.Expr)
    (hash : Template.Hash) (binders : List String) (body : Program) (inverse : Option Program)
    (span : Template.Span) (rest : Program) :
    inclusions (.block head params hash binders body inverse span :: rest) =
      inclusions body ++ (inclusions (inverse.getD []) ++ inclusions rest) := by
  cases inverse with
  | none => simp [statementInclusions, inclusions]
  | some otherwise => simp [statementInclusions, inclusions]

theorem mem_inclusions {P : Program} {name : String} {params : List Template.Expr}
    {hash : Template.Hash} {span : Template.Span}
    (h : Factor.Within P (.inclusion name params hash span)) :
    .inclusion name params hash span ∈ inclusions P := by
  generalize hs : Statement.inclusion name params hash span = s at h ⊢
  induction h with
  | here =>
    subst hs
    simp [inclusions, statementInclusions]
  | later _ ih =>
    unfold inclusions
    exact List.mem_append_right _ (ih hs)
  | body _ ih =>
    rw [inclusions_block]
    exact List.mem_append_left _ (ih hs)
  | inverse _ ih =>
    rw [inclusions_block]
    exact List.mem_append_right _ (List.mem_append_left _ (ih hs))

mutual

theorem within_of_statement : (s : Statement) → {t : Statement} → t ∈ statementInclusions s →
    ∀ rest, Factor.Within (s :: rest) t
  | .inclusion name params hash span, t, h, rest => by
    unfold statementInclusions at h
    cases List.mem_singleton.1 h
    exact .here
  | .block _ _ _ _ body none _, t, h, rest => by
    unfold statementInclusions at h
    exact .body (within_of_mem body h)
  | .block _ _ _ _ body (some otherwise) _, t, h, rest => by
    unfold statementInclusions at h
    obtain h | h := List.mem_append.1 h
    · exact .body (within_of_mem body h)
    · exact .inverse (within_of_mem otherwise h)
  | .content _ _, t, h, rest => by simp [statementInclusions] at h
  | .comment _ _, t, h, rest => by simp [statementInclusions] at h
  | .constant _ _, t, h, rest => by simp [statementInclusions] at h
  | .interpolation _ _ _ _ _, t, h, rest => by simp [statementInclusions] at h

theorem within_of_mem : (P : Program) → {t : Statement} → t ∈ inclusions P → Factor.Within P t
  | [], t, h => by simp [inclusions] at h
  | s :: rest, t, h => by
    unfold inclusions at h
    obtain h | h := List.mem_append.1 h
    · exact within_of_statement s h rest
    · exact .later (within_of_mem rest h)

end

/-- A call is that of an inclusion. -/
def Calls (s : Statement) (call : Call) : Prop :=
  ∃ params hash span, s = .inclusion call.name params hash span ∧
    groupArgument hash = .ok call.group

section

variable {programs : List (String × Program)}

/-- Code calls what its program includes, in the same order. -/
theorem Written.calls_inclusions {scope : Scope} {around : List String} {v v' : Variables}
    {P : Program} {parts : List Placed} (h : Written programs scope around v P parts v') :
    List.Forall₂ Calls (inclusions P) (calls parts) := by
  induction h with
  | nil => exact .nil
  | content _ ih =>
    split
    · exact ih
    · exact ih
  | comment _ ih => exact ih
  | constant _ ih => exact ih
  | interpolation hplan _ ih =>
    obtain ⟨_, _, _, _, hatom | ⟨_, _, hatom⟩⟩ := interpolationPlan_resolves hplan
    · rw [hatom]
      exact ih
    · rw [hatom]
      exact ih
  | inclusion hplan _ ih =>
    have hgroup := (inclusionPlan_eq_ok.1 hplan).2.2.2.1
    exact .cons ⟨_, _, _, rfl, hgroup⟩ ih
  | @each _ _ _ _ _ _ _ _ _ _ _ _ _ inside parts _ _ _ _ _ _ _ ihbody ihrest =>
    rw [inclusions_block]
    change List.Forall₂ Calls _ (calls (inside ++ parts))
    rw [Code.calls_append]
    exact List.rel_append ihbody ihrest
  | dive _ _ _ _ ihbody ihrest =>
    rw [inclusions_block, Code.calls_append]
    exact List.rel_append ihbody ihrest
  | conditional _ _ htest _ _ _ ihbody ihinverse ihrest =>
    rw [inclusions_block, Code.calls_append, calls_test htest, Code.calls_append,
      Code.calls_append]
    exact List.rel_append ihbody (List.rel_append ihinverse ihrest)

theorem Writes.call_of_includes {P : Program} {code : List Stmt} (h : Writes programs P code)
    {name : String} {params : List Template.Expr} {hash : Template.Hash} {span : Template.Span}
    (hname : Factor.Within P (.inclusion name params hash span)) :
    ∃ call ∈ calls (Stmt.allParts [] code), call.name = name ∧
      groupArgument hash = .ok call.group := by
  obtain ⟨v, hwritten⟩ := h
  obtain ⟨call, hcall, params', hash', span', heq, hgroup⟩ :=
    Results.forall₂_mem_left hwritten.calls_inclusions (mem_inclusions hname)
  cases heq
  exact ⟨call, hcall, rfl, hgroup⟩

theorem Writes.includes_of_call {P : Program} {code : List Stmt} (h : Writes programs P code)
    {call : Call} (hcall : call ∈ calls (Stmt.allParts [] code)) : Includes P call.name := by
  obtain ⟨v, hwritten⟩ := h
  obtain ⟨s, hs, params, hash, span, rfl, _⟩ :=
    Results.forall₂_mem_left hwritten.calls_inclusions.flip hcall
  exact ⟨params, hash, span, within_of_mem P hs⟩

end

/-! ## Exact registries -/

/-- Each partial stands behind those that its program includes. -/
def IncludedBefore (programs : List (String × Program)) (partials : List LoweredPartial) : Prop :=
  ∀ (i : Nat) (p : LoweredPartial) (body : Program), partials[i]? = some p →
    programs.lookup p.name = some body → ∀ name, Includes body name →
      ∃ (j : Nat) (q : LoweredPartial), j < i ∧ partials[j]? = some q ∧ q.name = name

/-- What holds of the partials of a lowered template. -/
structure ExactRegistry (programs : List (String × Program)) (program : Program)
    (code : List Stmt) (partials : List LoweredPartial) : Prop where
  nodup : (partials.map (·.name)).Nodup
  /-- The partials are those that the template reaches. -/
  mem_iff : ∀ name, name ∈ partials.map (·.name) ↔ Reachable (programs.lookup ·) program name
  ordered : IncludedBefore programs partials
  /-- No partial that the template reaches leads back to itself. -/
  acyclic : ∀ name body, Reachable (programs.lookup ·) program name →
    programs.lookup name = some body → ¬ Reachable (programs.lookup ·) body name
  /-- All inclusions of a partial ask for its group. -/
  groups : ∀ P, (P = program ∨ ∃ p ∈ partials, programs.lookup p.name = some P) →
    ∀ name params hash span, Factor.Within P (.inclusion name params hash span) →
      ∃ p ∈ partials, p.name = name ∧ groupArgument hash = .ok p.group
  /-- The calls in code are the inclusions of its program, in the same order. -/
  written : Writes programs program code ∧
    ∀ p ∈ partials, ∃ body, programs.lookup p.name = some body ∧ Writes programs body p.code
  /-- Each partial is recorded with the contexts of all calls to it, in the order of lowering. -/
  sites : ∃ trace,
    Traced (bodyCalls partials) [] (calls (Stmt.allParts [] code)) trace (partials.map (·.name)) ∧
    trace.Perm (calls (Stmt.allParts [] code) ++
      partials.flatMap fun p => calls (Stmt.allParts [] p.code)) ∧
    ∀ p ∈ partials, p.callSites.map (·.context) = contextsTo p.name trace

section

variable {programs : List (String × Program)} {program : Program} {code : List Stmt}
  {partials : List LoweredPartial}

theorem bodyCalls_of_mem (hnodup : (partials.map (·.name)).Nodup) {p : LoweredPartial}
    (hp : p ∈ partials) : bodyCalls partials p.name = calls (Stmt.allParts [] p.code) := by
  unfold bodyCalls
  rw [known?_of_mem hnodup hp]
  rfl

/-- Partials stand behind all that their programs reach. -/
theorem IncludedBefore.of_reachable (h : IncludedBefore programs partials) {i : Nat}
    {p : LoweredPartial} {body : Program} (hp : partials[i]? = some p)
    (hbody : programs.lookup p.name = some body) {name : String}
    (hname : Reachable (programs.lookup ·) body name) :
    ∃ (j : Nat) (q : LoweredPartial), j < i ∧ partials[j]? = some q ∧ q.name = name := by
  induction hname with
  | direct hincludes => exact h i p body hp hbody _ hincludes
  | through _ hvia hincludes ih =>
    obtain ⟨j, q, hlt, hq, rfl⟩ := ih
    obtain ⟨k, r, hlt', hr, hname⟩ := h j q _ hq hvia _ hincludes
    exact ⟨k, r, Nat.lt_trans hlt' hlt, hr, hname⟩

theorem IncludedBefore.acyclic (h : IncludedBefore programs partials)
    (hnodup : (partials.map (·.name)).Nodup) {p : LoweredPartial} (hp : p ∈ partials)
    {body : Program} (hbody : programs.lookup p.name = some body) :
    ¬ Reachable (programs.lookup ·) body p.name := by
  intro hreachable
  obtain ⟨i, hi⟩ := List.mem_iff_getElem?.1 hp
  obtain ⟨j, q, hlt, hq, hname⟩ := h.of_reachable hi hbody hreachable
  have hqi : (partials.map (·.name))[i]? = (partials.map (·.name))[j]? := by
    rw [List.getElem?_map, List.getElem?_map, hi, hq, Option.map_some, Option.map_some, hname]
  have hlength : i < (partials.map (·.name)).length := by
    rw [List.length_map]
    exact (List.getElem?_eq_some_iff.1 hi).1
  exact Nat.ne_of_gt hlt ((List.getElem?_inj hlength hnodup).1 hqi)

theorem includedBefore_of_traced {rest trace : List Call}
    (h : Traced (bodyCalls partials) [] rest trace (partials.map (·.name)))
    (hwritten : AllWritten programs partials) : IncludedBefore programs partials := by
  intro i p body hp hbody name hincludes
  have hmem := List.mem_of_getElem? hp
  obtain ⟨_, hbody', hcode⟩ := hwritten p hmem
  cases hbody.symm.trans hbody'
  obtain ⟨params, hash, span, hwithin⟩ := hincludes
  obtain ⟨call, hcall, rfl, _⟩ := hcode.call_of_includes hwithin
  rw [← bodyCalls_of_mem (h.nodup List.nodup_nil) hmem] at hcall
  have hname : (partials.map (·.name))[i]? = some p.name := by
    rw [List.getElem?_map, hp, Option.map_some]
  have hempty : Traced.Ordered (bodyCalls partials) [] := by simp [Traced.Ordered]
  have hbelow := h.ordered hempty i p.name hname call hcall
  obtain ⟨j, hj⟩ := List.mem_iff_getElem?.1 hbelow
  rw [List.getElem?_take, List.getElem?_map] at hj
  split at hj
  · next hlt =>
    obtain ⟨q, hq, hcalled⟩ := Option.map_eq_some_iff.1 hj
    exact ⟨j, q, hlt, hq, hcalled⟩
  · cases hj

/-- The partials that calls enter are those that the program reaches. -/
theorem mem_iff_of_traced {trace : List Call} (hwrites : Writes programs program code)
    (h : Traced (bodyCalls partials) [] (calls (Stmt.allParts [] code)) trace
      (partials.map (·.name))) (hwritten : AllWritten programs partials) (name : String) :
    name ∈ partials.map (·.name) ↔ Reachable (programs.lookup ·) program name := by
  constructor
  · refine h.all_done (by simp) ?_ ?_ name
    · intro call hcall
      exact .direct (hwrites.includes_of_call hcall)
    · intro via hvia call hcall
      cases hentry : known? partials via with
      | none =>
        rw [bodyCalls, hentry] at hcall
        cases hcall
      | some p =>
        rw [bodyCalls, hentry] at hcall
        obtain ⟨hp, rfl⟩ := name_of_known? hentry
        obtain ⟨body, hbody, hcode⟩ := hwritten p hp
        exact .through hvia hbody (hcode.includes_of_call hcall)
  · intro hname
    induction hname with
    | direct hincludes =>
      obtain ⟨params, hash, span, hwithin⟩ := hincludes
      obtain ⟨call, hcall, rfl, _⟩ := hwrites.call_of_includes hwithin
      exact h.mem_of_call call hcall
    | through _ hvia hincludes ih =>
      obtain ⟨p, hp, rfl⟩ := List.mem_map.1 ih
      obtain ⟨i, hi⟩ := List.mem_iff_getElem?.1 hp
      obtain ⟨j, q, _, hq, rfl⟩ :=
        includedBefore_of_traced h hwritten i p _ hi hvia _ hincludes
      exact List.mem_map_of_mem (List.mem_of_getElem? hq)

/-- The partials of a lowered template are exact. -/
theorem Entered.exact (h : Entered programs [] [] (calls (Stmt.allParts [] code)) partials)
    (hwrites : Writes programs program code) : ExactRegistry programs program code partials := by
  obtain ⟨trace, htraced, hcontexts⟩ := h.traced
  have hnodup : (partials.map (·.name)).Nodup := htraced.nodup List.nodup_nil
  have hmem := mem_iff_of_traced hwrites htraced h.writes
  have hordered := includedBefore_of_traced htraced h.writes
  refine ⟨hnodup, hmem, hordered, ?_, ?_, ⟨hwrites, h.writes⟩, trace, htraced, ?_, ?_⟩
  · intro name body hname hbody
    obtain ⟨p, hp, rfl⟩ := List.mem_map.1 ((hmem name).2 hname)
    exact hordered.acyclic hnodup hp hbody
  · -- an inclusion is written as a call of its group, and calls are in the groups of their partials
    obtain ⟨hmain, hpartials⟩ := h.grouped (by simp [AllGrouped])
    rintro P hP name params hash span hwithin
    have hcall : ∃ call, Grouped partials call ∧ call.name = name ∧
        groupArgument hash = .ok call.group := by
      obtain rfl | ⟨p, hp, hbody⟩ := hP
      · obtain ⟨call, hcall, hname, hgroup⟩ := hwrites.call_of_includes hwithin
        exact ⟨call, hmain call hcall, hname, hgroup⟩
      · obtain ⟨_, hbody', hcode⟩ := h.writes p hp
        cases hbody.symm.trans hbody'
        obtain ⟨call, hcall, hname, hgroup⟩ := hcode.call_of_includes hwithin
        exact ⟨call, hpartials p hp call hcall, hname, hgroup⟩
    obtain ⟨call, ⟨p, hp, hpgroup⟩, rfl, hgroup⟩ := hcall
    obtain ⟨hpmem, hpname⟩ := name_of_known? hp
    exact ⟨p, hpmem, hpname, hpgroup ▸ hgroup⟩
  · obtain ⟨added, hadded, hperm⟩ := htraced.perm
    rw [← hadded.trans (List.nil_append _), List.flatMap_map] at hperm
    rwa [List.flatMap_congr fun p hp => bodyCalls_of_mem hnodup hp] at hperm
  · intro p hp
    have hsites := hcontexts p.name
    rw [contexts, known?_of_mem hnodup hp] at hsites
    exact hsites

end

end Lower
end Stencil
