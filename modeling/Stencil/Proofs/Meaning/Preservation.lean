import Stencil.Proofs.Lower.Rounds
import Stencil.Proofs.Meaning.Simulation
import Stencil.Proofs.Source.Functions

/-!
# The generated file renders the template

A partial is lowered where it is first included, and completed before the function that calls it.
So the functions of a lowered template render their programs one after the other, in the order in
which they were completed (`calls_agree`), and the main function comes last.

The main result is `lower_keeps_text`: the main function and the functions of all partials have the
texts of their templates as results, and the file consists of their code.
-/

namespace Stencil
namespace Meaning

open Code (Atom Stmt closeAppends)
open Lower
open Source (SourceFile)
open Template (Expr Hash PathExpr Program)
open Stencil.Types (NodeId Store)

/-! ## Inclusions -/

section

variable {set : Setting} {s : Store} {ps : List LoweredPartial}
  {programs : List (String × Program)} {opened : List String} {n : Nat} {root : Nat}
  {scope : Scope} {names : List String}

/-- A call of one of the first functions, on a context of the type of its input. -/
theorem call_renders (hfin : Finished s ps) {i : Nat} {q : LoweredPartial} (hi : i < n)
    (hq : ps[i]? = some q) {params : List Expr} {context : AccessPath} {node : Nat}
    (hcontext : context? AccessPath.segment scope.view params = some context)
    (horigin : context.origin = .input)
    (hnode : s.follow root (context.accessors.map Accessor.step) = some node)
    (hsame : (s.shape node).Same (s.shape q.input)) :
    Renders set s ps n root scope names
      (fun call view => found (context? within view params) >>= call q.name)
      (outputCode (appendAtom (.call q.group q.name context))) := by
  refine .atom ?_
  intro callText callCode env hcalls hinput hfits
  have hbound := context?_all (fun _ part => .segment part) hfits.bound hcontext
  simp only [found_context hcontext, runAtom]
  -- the context has the type of the input, so the function may be called with it
  rcases Types.eval_typed hfin.forest hinput hbound horigin hnode with ⟨v, hv, hholds⟩ | hmissing
  · rw [hv]
    exact hcalls i q hi hq v (Types.Store.holds_of_same hfin.forest hsame hholds)
  · rw [hmissing]
    exact .missing

/-- Further calls make no difference to what functions render. -/
theorem PartialsRender.of_le {qs qs' : List LoweredPartial}
    (h : PartialsRender set s ps programs qs) (hle : PartialsLe qs qs')
    (hlength : qs'.length = qs.length) : PartialsRender set s ps programs qs' := by
  intro i q hq
  have hi : i < qs.length := by
    rw [← hlength]
    exact (List.getElem?_eq_some_iff.1 hq).1
  rcases hle i _ (List.getElem?_eq_getElem hi) with ⟨q', hq', hextends⟩
  rw [hq] at hq'
  cases hq'
  rw [hextends.name, hextends.input, hextends.code]
  exact h i _ (List.getElem?_eq_getElem hi)

theorem lowerBody_correct (hfin : Finished s ps) {include_ : Includer}
    (hinclude : IncluderCorrect set s ps programs include_ opened) {st : State} (hst : st.Valid)
    (hroot : root < st.store.size) {program : Program} (hplain : plainProgram program = true) :
    Lowers opened st
      (fun code st' => Before s ps st' → PartialsRender set s ps programs st.partials →
        PartialsRender set s ps programs st'.partials ∧
          Renders set s ps st'.partials.length root {} []
            (fun call view => textsOf set call view program) code)
      (lowerBody include_ root program st) := by
  refine (lowerBody_lowers hinclude.lowers hst hroot program).mono ?_
  rintro _ st' _ _ ⟨outputs, hderivation, rfl⟩ hbefore hpartials
  obtain ⟨hpartials', hrenders⟩ :=
    correct_of_derivation hfin hinclude hderivation hst hroot hplain hbefore hpartials
  refine ⟨hpartials', ?_⟩
  intro callText callCode env hcalls hinput hfits
  -- the body starts without names, so any environment of its scope fits
  rw [runStmts_closeAppends]
  exact hrenders callText callCode env hcalls hinput (hfits.mono (List.nil_subset _))

/-- A further call of a function that has been completed. -/
theorem calledAgain_correct (hfin : Finished s ps) {st st' : State} {params : List Expr}
    {known : LoweredPartial} {group : Option String} {context : AccessPath}
    (hcontext : context? AccessPath.segment scope.view params = some context)
    (hknown : known ∈ st.partials) (hcalled : CalledAgain st st' known root group context) :
    Correct set s ps programs st root scope
      (fun call view => found (context? within view params) >>= call known.name)
      (appendAtom (.call group known.name context)) st' := by
  intro hbefore hpartials
  rcases hcalled.site with ⟨node, hnode, hst'⟩
  have hlength : st'.partials.length = st.partials.length := by
    rw [hst', List.length_map]
  have hle : PartialsLe st.partials st'.partials := by
    rw [hst']
    exact .map (fun p => p.extends_called _ _) _
  refine ⟨hpartials.of_le hle hlength, ?_⟩
  rcases List.mem_iff_getElem?.1 hknown with ⟨i, hi⟩
  -- the call is recorded with the function, so its context ends up with the type of the input
  have hi' : st'.partials[i]? = some (known.called known.name ⟨node, context⟩) := by
    rw [hst', List.getElem?_map, hi]
    rfl
  have hsite : (⟨node, context⟩ : CallSite) ∈
      (known.called known.name ⟨node, context⟩).callSites := by
    simp [LoweredPartial.called]
  have hextends := known.extends_called known.name ⟨node, context⟩
  rcases hbefore.partials i _ hi' with ⟨q, hq, hextends'⟩
  have hname : q.name = known.name := hextends'.name.trans hextends.name
  have hgroup : q.group = group := hextends'.group.trans (hextends.group.trans hcalled.group_eq)
  have hsame := hfin.same q (List.mem_of_getElem? hq) _ (hextends'.callSites.subset hsite)
  have hlt : i < st'.partials.length := (List.getElem?_eq_some_iff.1 hi').1
  rw [← hname, ← hgroup]
  exact call_renders hfin hlt hq hcontext hcalled.input (hbefore.grows.follow hnode) hsame

/-- A function that is completed behind others, whose body calls only those. -/
theorem PartialsRender.concat {qs : List LoweredPartial} {p : LoweredPartial}
    (h : PartialsRender set s ps programs qs) {program : Program}
    (hprogram : programs.lookup p.name = some program)
    (hrenders : Renders set s ps qs.length p.input {} []
      (fun call view => textsOf set call view program) p.code) :
    PartialsRender set s ps programs (qs ++ [p]) := by
  intro i q hq
  by_cases hi : i < qs.length
  · rw [List.getElem?_append_left hi] at hq
    exact h i q hq
  · have heq : i = qs.length := by
      have hlt := (List.getElem?_eq_some_iff.1 hq).1
      rw [List.length_append, List.length_singleton] at hlt
      omega
    rw [heq, List.getElem?_concat_length] at hq
    cases hq
    rw [heq]
    exact ⟨program, hprogram, hrenders⟩

/-- The first call of a partial, whose function is completed for it. -/
theorem calledFirst_correct (hfin : Finished s ps) {include_ : Includer} {name : String}
    (hinclude : IncluderCorrect set s ps programs include_ (name :: opened)) {st st' : State}
    (hroot : root < st.store.size) {params : List Expr} {group : Option String}
    {context : AccessPath} {program : Program} {node : NodeId} {code : List Stmt}
    {before after : State} (hplain : plainProgram program = true)
    (hprogram : programs.lookup name = some program)
    (hcontext : context? AccessPath.segment scope.view params = some context)
    (hcalled : CalledFirst include_ st st' root name group context program node code before after) :
    Correct set s ps programs st root scope
      (fun call view => found (context? within view params) >>= call name)
      (appendAtom (.call group name context)) st' := by
  intro hbefore hpartials
  have hroot₁ : root < before.store.size := Nat.lt_of_lt_of_le hroot hcalled.grows.size_le
  have hnode : node < before.store.size := hcalled.valid.forest.follow_lt hroot₁ hcalled.node_eq
  have hbody := lowerBody_correct hfin hinclude hcalled.valid hnode hplain
  rw [hcalled.body] at hbody
  rcases hbody with ⟨_, hev, hcorrect⟩
  have hstore : st'.store = after.store := by
    rw [hcalled.after_eq]
  have hst' : st'.partials = after.partials ++ [newPartial name node code group context] := by
    rw [hcalled.after_eq]
  -- the body ends on the way to where the whole lowering ends
  have hafter : Before s ps after := by
    refine ⟨?_, ?_⟩
    · rw [← hstore]
      exact hbefore.grows
    · refine PartialsLe.trans ?_ hbefore.partials
      rw [hst']
      exact .append _ _
  have hpartials₁ : PartialsRender set s ps programs before.partials := by
    rw [hcalled.before_eq]
    exact hpartials
  rcases hcorrect hafter hpartials₁ with ⟨hpartials₂, hrenders⟩
  have hlast : st'.partials[after.partials.length]? =
      some (newPartial name node code group context) := by
    rw [hst']
    exact List.getElem?_concat_length
  refine ⟨?_, ?_⟩
  · rw [hst']
    exact hpartials₂.concat hprogram hrenders
  · rcases hbefore.partials _ _ hlast with ⟨q, hq, hextends⟩
    have hname : q.name = name := hextends.name
    have hgroup : q.group = group := hextends.group
    have hinput : q.input = node := hextends.input
    have hlt : after.partials.length < st'.partials.length :=
      (List.getElem?_eq_some_iff.1 hlast).1
    have hfollow : s.follow root (context.accessors.map Accessor.step) = some node :=
      (hev.grows.trans hafter.grows).follow hcalled.node_eq
    -- the first context is the input of the function itself
    have hsame : (s.shape node).Same (s.shape q.input) := by
      rw [hinput]
      exact .refl _
    rw [← hname, ← hgroup]
    exact call_renders hfin hlt hq hcontext hcalled.input hfollow hsame

/-- The call that an inclusion becomes has the text of the partial on its context. -/
theorem included_correct (hfin : Finished s ps)
    (hplain : ∀ entry ∈ programs, plainProgram entry.2 = true) {level : Nat}
    (hbelow : ∀ below name, level = below + 1 →
      IncluderCorrect set s ps programs (includePartial programs below (name :: opened))
        (name :: opened))
    {st st' : State} (hroot : root < st.store.size) {name : String} {params : List Expr}
    {hash : Hash} {a : Atom}
    (h : Included programs level opened st st' root scope name params hash a) :
    Correct set s ps programs st root scope
      (fun call view => found (context? within view params) >>= call name) (appendAtom a) st' := by
  cases h with
  | again found library argument mem name_eq called =>
    rw [← name_eq]
    exact calledAgain_correct hfin (context?_of_inclusionContext argument) mem called
  | first level_eq found library argument called =>
    have hprogram := hplain _ (Lookup.mem_of_lookup found)
    exact calledFirst_correct hfin (hbelow _ name level_eq) hroot hprogram found
      (context?_of_inclusionContext argument) called

theorem includePartial_correct (hfin : Finished s ps)
    (hplain : ∀ entry ∈ programs, plainProgram entry.2 = true) (level : Nat)
    (opened : List String) :
    IncluderCorrect set s ps programs (includePartial programs level opened) opened := by
  induction level, opened using level_induction with
  | step level opened hbelow =>
    intro st root scope name params hash hst hroot
    refine (includePartial_spec programs ?_ hst hroot name params hash).mono ?_
    · intro below other _ _
      exact includePartial_lowers programs below (other :: opened)
    · intro a st' _ _ hincluded
      exact included_correct hfin hplain hbelow hroot hincluded

/-! ## Calls -/

/-- A function is found by its name and library. -/
theorem find?_partial (hnodup : (ps.map (·.name)).Nodup) {p : LoweredPartial} (hp : p ∈ ps) :
    (ps.find? fun q => q.name == p.name && q.group == p.group) = some p := by
  cases hfind : ps.find? fun q => q.name == p.name && q.group == p.group with
  | none =>
    have hnone := List.find?_eq_none.1 hfind p hp
    simp at hnone
  | some q =>
    have hq := List.find?_some hfind
    have hname : q.name = p.name := by
      simp only [Bool.and_eq_true, beq_iff_eq] at hq
      exact hq.1
    rw [List.inj_on_of_nodup_map hnodup (List.mem_of_find?_eq_some hfind) hp hname]

/-- Calls of the first functions have the texts of their partials, if calls may nest as deep as
there are such functions. -/
theorem calls_agree (hnodup : (ps.map (·.name)).Nodup)
    (hpartials : PartialsRender set s ps programs ps) {depth depth' : Nat} (hdepth : n ≤ depth)
    (hdepth' : n ≤ depth') :
    CallsAgree s ps n (textOfPartial set programs depth) (callPartial set ps depth') := by
  induction n generalizing depth depth' with
  | zero =>
    intro i p hi
    exact absurd hi (Nat.not_lt_zero i)
  | succ n ih =>
    intro i p hi hp v hv
    -- there is a level of nesting for this call
    rcases Nat.exists_eq_add_of_lt (Nat.lt_of_lt_of_le (Nat.zero_lt_succ n) hdepth) with ⟨d, rfl⟩
    rcases Nat.exists_eq_add_of_lt (Nat.lt_of_lt_of_le (Nat.zero_lt_succ n) hdepth') with ⟨d', rfl⟩
    rw [Nat.zero_add] at hdepth hdepth' ⊢
    rw [Nat.zero_add]
    rcases hpartials i p hp with ⟨program, hprogram, hrenders⟩
    -- the body calls functions before this one only, and one level of nesting is used up
    have hcalls : CallsAgree s ps i (textOfPartial set programs d) (callPartial set ps d') :=
      (ih (Nat.le_of_succ_le_succ hdepth) (Nat.le_of_succ_le_succ hdepth')).mono
        (Nat.le_of_lt_succ hi)
    have hyields := hrenders _ _ ⟨v, []⟩ hcalls hv (.root v)
    simp only [textOfPartial, hprogram, callPartial,
      find?_partial hnodup (List.mem_of_getElem? hp)]
    exact hyields.agrees

end

/-! ## Lowered templates -/

/-- What is known about the functions of a lowered template and about its main function. -/
theorem lower_renders {programs : List (String × Program)} {program : Program} {l : Lowered}
    (h : lower programs program = .ok l) (hplain : plainProgram program = true)
    (hplains : ∀ entry ∈ programs, plainProgram entry.2 = true) (set : Setting) :
    (l.partials.map (·.name)).Nodup ∧ PartialsRender set l.store l.partials programs l.partials ∧
      Renders set l.store l.partials l.partials.length l.root {} []
        (fun call view => textsOf set call view program) l.code := by
  rcases lower_ok.1 h with ⟨st, st', hlower, hfinish, hpartials, hstore, hroot⟩
  have hst := valid_of_lowerProgram hlower
  rcases settleTypes_correct hst ((finish_ok_iff hst).1 hfinish) with
    ⟨hst', hgrows, hpartials', hsettled⟩
  have hfin : Finished l.store l.partials := by
    rw [hstore, hpartials]
    exact ⟨hst'.forest, hsettled⟩
  -- the rounds after lowering make the types grow and leave the functions alone
  have hbefore : Before l.store l.partials st := by
    rw [hstore, hpartials, hpartials']
    exact ⟨hgrows, .refl _⟩
  have hempty : PartialsRender set l.store l.partials programs State.initial.partials := by
    intro i q hq
    cases hq
  have hinclude : IncluderCorrect set l.store l.partials programs
      (includePartial programs programs.length []) [] :=
    includePartial_correct hfin hplains programs.length []
  have hbody := lowerBody_correct hfin hinclude State.valid_initial State.valid_initial.nonempty
    hplain
  change Lowers _ _ _ (lowerProgram programs 0 program State.initial) at hbody
  rw [hlower] at hbody
  rcases hbody.2.2 hbefore hempty with ⟨hrender, hmain⟩
  have heq : st.partials = l.partials := by
    rw [hpartials, hpartials']
  rw [heq] at hrender hmain
  rw [hroot]
  refine ⟨?_, hrender, hmain⟩
  rw [hpartials]
  exact hst'.names_nodup

/-- The functions of a lowered template have its text, and the texts of its partials, as results on
all data of their types, and the file declares them with this code. Partials may nest as deep as
there are functions. -/
theorem lower_keeps_text {programs : List (String × Program)} {program : Program} {l : Lowered}
    (h : lower programs program = .ok l) (hplain : plainProgram program = true)
    (hplains : ∀ entry ∈ programs, plainProgram entry.2 = true) (set : Setting)
    {depth depth' : Nat} (hdepth : l.partials.length ≤ depth)
    (hdepth' : l.partials.length ≤ depth') :
    (∀ v, (l.store.shape l.root).Holds v →
      Agrees (interpret set programs depth program v)
        (execute set l.partials depth' l.code v)) ∧
    (∀ p ∈ l.partials, ∃ body, programs.lookup p.name = some body ∧
      ∀ v, (l.store.shape p.input).Holds v →
        Agrees (interpret set programs depth body v)
          (execute set l.partials depth' p.code v)) ∧
    ∀ o constants naming file, SourceFile.assemble o constants naming l = .ok file →
      file.Declares "render" l.code ∧ ∀ p ∈ l.partials, file.Declares p.name p.code := by
  rcases lower_renders h hplain hplains set with ⟨hnodup, hpartials, hmain⟩
  -- all functions are complete, so every call agrees
  have hcalls := calls_agree hnodup hpartials hdepth hdepth'
  refine ⟨?_, ?_, ?_⟩
  · intro v hv
    exact (hmain _ _ ⟨v, []⟩ hcalls hv (.root v)).agrees
  · intro p hp
    rcases List.mem_iff_getElem?.1 hp with ⟨i, hi⟩
    rcases hpartials i p hi with ⟨body, hbody, hrenders⟩
    refine ⟨body, hbody, ?_⟩
    intro v hv
    have hlt : i < l.partials.length := (List.getElem?_eq_some_iff.1 hi).1
    exact (hrenders _ _ ⟨v, []⟩ (hcalls.mono (Nat.le_of_lt hlt)) hv (.root v)).agrees
  · intro o constants naming file hfile
    exact Source.assemble_declares hfile

/-- A reference by names. -/
def nameRef (parts : List String) : PathExpr := { written := ".".intercalate parts, parts }

/-- A line for a person, with a mark behind the old ones. -/
def rosterPartials : List (String × Program) :=
  [("person", [.content "<" {}, .interpolation (.path (nameRef ["name"])) [] [] true {},
    .block (nameRef ["old"]) [] [] [] [.content "!" {}] none {}])]

/-- People below a title, each with the number of its line in two formats. -/
def roster : Program :=
  [.block (nameRef ["with"]) [.path (nameRef ["title"])] [] []
      [.interpolation (.path { written := "this", explicitThis := true }) [] [] true {}] none {},
    .block (nameRef ["each"]) [.path (nameRef ["people"])] [] ["x", "i"]
      [.inclusion "person" [.path (nameRef ["x"])] [] {},
        .interpolation (.path (nameRef ["i"])) [] [] true {},
        .interpolation (.path (nameRef ["uint256"])) [.path (nameRef ["i"])]
          [("decimals", .number "2")] true {}] none {}]

def rosterData : Value :=
  .record [("title", .text [84]), ("people", .array [
    .record [("name", .text [65]), ("old", .flag true)],
    .record [("name", .text [66]), ("old", .flag false)]])]

/-- Numbers as strokes. -/
def strokes : Setting := ⟨fun _ => [], fun _ n _ => List.replicate n.toNat 124⟩

/-- A loop that binds its item and its position, which is passed to a helper for unsigned numbers,
with a partial that has a condition. -/
theorem lower_keeps_text_roster :
    ∃ l, lower rosterPartials roster = .ok l ∧ (l.store.shape l.root).Holds rosterData ∧
      interpret strokes rosterPartials 1 roster rosterData = .ok [84, 60, 65, 33, 60, 66, 124, 124] ∧
      execute strokes l.partials 1 l.code rosterData = .ok [84, 60, 65, 33, 60, 66, 124, 124] := by
  have hrun : endsWith (lowerProgram rosterPartials 0 roster State.initial) (fun st =>
      settlesWith 1 st fun st' => st'.partials.length == 1 && st'.store == ⟨#[
        .struct [("title", 1), ("people", 2)], .string none, .array none 3,
        .struct [("name", 4), ("old", 5)], .string none, .bool]⟩) = true := by
    decide +kernel
  rcases exists_lower_of_endsWith hrun with ⟨l, st', hlower, hpartials, hstore, hroot, hcheck⟩
  simp only [Bool.and_eq_true, beq_iff_eq] at hcheck
  have hlength : l.partials.length ≤ 1 := by
    rw [hpartials]
    exact Nat.le_of_eq hcheck.1
  have hholds : (l.store.shape l.root).Holds rosterData := by
    have hshape : l.store.shape l.root = .struct [("title", .string none),
        ("people", .array none (.struct [("name", .string none), ("old", .bool)]))] := by
      rw [hstore, hroot, hcheck.2]
      rfl
    rw [hshape]
    simp [Types.Shape.Holds, Types.Shape.MembersHold, Types.Label.Holds, rosterData, Value.fields,
      Value.items, List.lookup_cons]
  have htext : interpret strokes rosterPartials 1 roster rosterData =
      .ok [84, 60, 65, 33, 60, 66, 124, 124] := by
    decide +kernel
  have hkeeps := (lower_keeps_text hlower (by decide +kernel) (by decide +kernel) strokes hlength
    hlength).1 rosterData hholds
  refine ⟨l, hlower, hholds, htext, ?_⟩
  rcases hkeeps with ⟨bytes, hbytes, hcode⟩ | ⟨hmissing, _⟩
  · rw [htext] at hbytes
    cases hbytes
    exact hcode
  · rw [htext] at hmissing
    cases hmissing

end Meaning
end Stencil
