import Mathlib.Tactic.Common
import Stencil.Template.Assembly
import Stencil.Proofs.Factor.Sharing
import Stencil.Proofs.Results

/-!
# A shared template is faithful to its sources

The result of reading and sharing a template, for any way of reading sources that does not give
constants. `factor_faithful` says when it fails, and what the result is otherwise:

* its partials are those that the template reaches;
* with the constants replaced by their text, its programs are those of the sources, up to how text
  is divided;
* its constants are numbered in the order of the tour, and all of them are in use.
-/

namespace Stencil
namespace Factor

open Template (Element Expr Hash PathExpr Program Span Statement)

/-! ## Programs without constants -/

/-- A program has no references to constants. -/
def ConstantFree (program : Program) : Prop :=
  ∀ name span, ¬ Within program (.constant name span)

namespace ConstantFree

variable {program rest body : Program} {s : Statement}

theorem nil : ConstantFree [] := by
  intro name span h
  cases h

theorem cons (hs : ConstantFree [s]) (hrest : ConstantFree rest) : ConstantFree (s :: rest) := by
  intro name span h
  cases h with
  | here => exact hs name span .here
  | later h => exact hrest name span h
  | body h => exact hs name span (.body h)
  | inverse h => exact hs name span (.inverse h)

theorem block {head : PathExpr} {params : List Expr} {hash : Hash} {binders : List String}
    {inverse : Option Program} {span : Span} (hbody : ConstantFree body)
    (hinverse : ∀ otherwise, inverse = some otherwise → ConstantFree otherwise) :
    ConstantFree [.block head params hash binders body inverse span] := by
  intro name span h
  cases h with
  | later h => cases h
  | body h => exact hbody name span h
  | inverse h => exact hinverse _ rfl name span h

theorem single (hblock : s.isBlock = false) (hs : reference? s = none) : ConstantFree [s] := by
  intro name span h
  cases h with
  | here => cases hs
  | later h => cases h
  | body => cases hblock
  | inverse => cases hblock

theorem reference?_eq_none (h : ConstantFree program) (hs : Within program s) :
    reference? s = none := by
  cases s with
  | constant name span => exact absurd hs (h name span)
  | _ => rfl

end ConstantFree

mutual

theorem statement_constantFree : (e : Element) → {s : Statement} → e.statement = .ok s →
    ConstantFree [s]
  | .text chars span, s, h => by
    unfold Element.statement at h
    cases h
    exact .single rfl rfl
  | .comment value span, s, h => by
    unfold Element.statement at h
    cases h
    exact .single rfl rfl
  | .output call escaped span, s, h => by
    unfold Element.statement at h
    obtain ⟨head, _, h⟩ := Results.bind_eq_ok.1 h
    obtain ⟨params, _, h⟩ := Results.bind_eq_ok.1 h
    obtain ⟨hash, _, h⟩ := Results.bind_eq_ok.1 h
    cases h
    exact .single rfl rfl
  | .inclusion call span, s, h => by
    unfold Element.statement at h
    obtain ⟨name, _, h⟩ := Results.bind_eq_ok.1 h
    obtain ⟨params, _, h⟩ := Results.bind_eq_ok.1 h
    obtain ⟨hash, _, h⟩ := Results.bind_eq_ok.1 h
    cases h
    exact .single rfl rfl
  | .inclusionBlock, s, h => by
    unfold Element.statement at h
    cases h
  | .decorator, s, h => by
    unfold Element.statement at h
    cases h
  | .block call binders body inverse span, s, h => by
    unfold Element.statement at h
    obtain ⟨name, _, h⟩ := Results.bind_eq_ok.1 h
    obtain ⟨names, _, h⟩ := Results.bind_eq_ok.1 h
    obtain ⟨body', hbody, h⟩ := Results.bind_eq_ok.1 h
    obtain ⟨inverse', hinverse, h⟩ := Results.bind_eq_ok.1 h
    obtain ⟨head, _, h⟩ := Results.bind_eq_ok.1 h
    obtain ⟨params, _, h⟩ := Results.bind_eq_ok.1 h
    obtain ⟨hash, _, h⟩ := Results.bind_eq_ok.1 h
    cases h
    refine .block ?_ (branch_constantFree inverse hinverse)
    cases body' with
    | none => exact .nil
    | some program => exact branch_constantFree body hbody program rfl

theorem statements_constantFree : (es : List Element) → {program : Program} →
    Element.statements es = .ok program → ConstantFree program
  | [], _, h => by
    unfold Element.statements at h
    cases h
    exact .nil
  | e :: rest, _, h => by
    unfold Element.statements at h
    obtain ⟨s, hs, h⟩ := Results.bind_eq_ok.1 h
    obtain ⟨statements, hrest, h⟩ := Results.bind_eq_ok.1 h
    cases h
    exact .cons (statement_constantFree e hs) (statements_constantFree rest hrest)

theorem branch_constantFree : (branch : Option (List Element)) → {result : Option Program} →
    Element.branch branch = .ok result → ∀ program, result = some program → ConstantFree program
  | none, _, h, program, hresult => by
    unfold Element.branch at h
    cases h
    cases hresult
  | some elements, _, h, program, hresult => by
    unfold Element.branch at h
    obtain ⟨statements, hstatements, h⟩ := Results.bind_eq_ok.1 h
    cases h
    cases hresult
    exact statements_constantFree elements hstatements

end

/-- A template has no constants before its text is shared, however it was split. -/
theorem parseWith_constantFree {split : String → Except Error (List Element)} {source : String}
    {program : Program} (h : Template.parseWith split source = .ok program) :
    ConstantFree program := by
  obtain ⟨elements, _, h⟩ := Results.bind_eq_ok.1 h
  exact statements_constantFree elements h

/-! ## What the result is -/

/-- A shared template stands for a program and the bodies of its partials. -/
structure Faithful (bodies : String → Option Program) (program : Program)
    (shared : SharedTemplate) : Prop where
  nodup_keys : (shared.partials.map (·.1)).Nodup
  mem_keys_iff : ∀ name, name ∈ shared.partials.map (·.1) ↔ Reachable bodies program name
  program_eq : fuse (restore shared.constants shared.program) = fuse program
  partials_eq : ∀ e ∈ shared.partials, ∃ body, bodies e.1 = some body ∧
    fuse (restore shared.constants e.2) = fuse body
  names_eq : shared.constants.map (·.1) =
    (List.range shared.constants.length).map fun i => "__constant" ++ Nat.repr i
  /-- The names stand in the order of the first references on the tour. -/
  order_eq : ∃ leaves done met,
    Tour (fun name => shared.partials.lookup name) [] shared.program leaves done met ∧
    shared.constants.map (·.1) = (references leaves).eraseDups

variable {read : String → Except Error Program}

/-- What has been read is shared faithfully. -/
theorem shared_faithful {bodies : String → Option Program} {program : Program} {L : Library}
    {leaves : List Statement} {done : List String} (minLength : Nat)
    (htour : Tour bodies [] program leaves done L.visited)
    (hgathers : Gathers bodies {} L leaves done)
    (hleaves : ∀ s ∈ leaves, reference? s = none) {program' : Program} {S : Sharing}
    (hrun : traverseProgram (share (findRepeats (L.contents.map String.toList) minLength))
      (sharePartial (findRepeats (L.contents.map String.toList) minLength) L.programs
        L.programs.length) (trim program) {} = (program', S)) :
    Faithful bodies program ⟨program', S.programs, S.constants⟩ := by
  have hprograms : L.programs = done.map fun name => (name, trim ((bodies name).getD [])) := by
    simpa using hgathers.programs
  have hkeys : L.programs.map (·.1) = done := by simp [hprograms, Function.comp_def]
  have hlookup : ∀ name ∈ done, ∀ body, bodies name = some body →
      L.programs.lookup name = some (trim body) := by
    intro name hname body hbody
    apply Lookup.lookup_of_mem
    · rw [hkeys]
      exact htour.nodup_done
    · rw [hprograms]
      exact List.mem_map.2 ⟨name, hname, by simp [hbody]⟩
  have hplace : Place (findRepeats (L.contents.map String.toList) minLength).substrings L.contents
      (L.programs.map (·.1)) L.programs.length [] (texts leaves) {} := by
    refine ⟨rfl, by simp [unmet], by simp, ⟨rfl, by simp⟩, ?_⟩
    simp [hgathers.contents]
  obtain ⟨leaves', hadvances, hfused, hfinal⟩ :=
    htour.shares (findRepeats_divides _ _) hleaves hlookup hplace hrun
  obtain ⟨added, hadded, hnames, hbodies⟩ := hadvances.programs
  have hpartials : S.programs = added := hadded
  have hdone : S.programs.map (·.1) = done := by rw [hpartials, hnames]
  have hnodup : (S.programs.map (·.1)).Nodup := hdone ▸ htour.nodup_done
  refine ⟨hnodup, ?_, hfused _ (List.prefix_refl _), ?_, hadvances.sound.keys, ?_⟩
  · intro name
    change name ∈ S.programs.map (·.1) ↔ _
    rw [hdone]
    exact htour.mem_done_iff name
  · intro e he
    exact hbodies _ (List.prefix_refl _) e (hpartials ▸ he)
  · refine ⟨leaves', done, L.visited, hfinal _ ?_, ?_⟩
    · exact fun e he => Lookup.lookup_of_mem hnodup he
    · rw [← foldl_addNew]
      exact hadvances.keys

/-- A template cannot be read, or reaches a partial that has no body. -/
def Unreadable (read : String → Except Error Program) (sources : List (String × String))
    (template : String) : Prop :=
  (∃ e, read template = .error e) ∨
    ∃ program name, read template = .ok program ∧ Reachable (bodyOf read sources) program name ∧
      bodyOf read sources name = none

theorem factor_cases (sources : List (String × String))
    (hfree : ∀ source program, read source = .ok program → ConstantFree program)
    (minLength : Nat) (template : String) :
    (∃ e, factor read sources minLength template = .error e ∧ Unreadable read sources template) ∨
    ∃ shared program, factor read sources minLength template = .ok shared ∧
      read template = .ok program ∧
      (∀ name, Reachable (bodyOf read sources) program name → bodyOf read sources name ≠ none) ∧
      Faithful (bodyOf read sources) program shared := by
  unfold factor
  cases hread : read template with
  | error e =>
    have hfails : readAll read sources template {} = .error e {} := by
      unfold readAll
      simp only [hread]
      rfl
    rw [hfails]
    exact .inl ⟨e, rfl, .inl ⟨e, hread⟩⟩
  | ok program =>
    rcases readAll_reads sources hread with
      ⟨L, leaves, done, hrun, htour, hgathers⟩ | ⟨e, L, name, hrun, hname, hnone⟩
    · have hleaves : ∀ s ∈ leaves, reference? s = none := by
        refine htour.all_leaves (p := fun s => reference? s = none) ?_ ?_
        · exact fun s hs => (hfree template program hread).reference?_eq_none hs
        · intro name body hbody s hs
          obtain ⟨source, _, hsource⟩ := Option.bind_eq_some_iff.1 hbody
          cases hok : read source with
          | error e => simp [hok, Except.toOption] at hsource
          | ok body' =>
            obtain rfl : body' = body := by simpa [hok, Except.toOption] using hsource
            exact (hfree source body' hok).reference?_eq_none hs
      have hbodies : ∀ name, Reachable (bodyOf read sources) program name →
          bodyOf read sources name ≠ none := by
        intro name hname
        obtain ⟨body, hbody, _⟩ := htour.body_of_done ((htour.mem_done_iff name).2 hname)
        simp [hbody]
      rw [hrun]
      exact .inr ⟨_, program, rfl, rfl, hbodies,
        shared_faithful minLength htour hgathers hleaves rfl⟩
    · rw [hrun]
      exact .inl ⟨e, rfl, .inr ⟨program, name, hread, hname, hnone⟩⟩

/-- Reading and sharing a template fails exactly if the template cannot be read, or reaches a
partial that has no source or whose source cannot be read. Otherwise the result is faithful to what
has been read. -/
theorem factor_faithful (parse : String → Except Error Program)
    (hparse : ∀ source program, parse source = .ok program → ConstantFree program)
    (condense : Bool) (sources : List (String × String)) (minLength : Nat) (template : String) :
    ((∃ e, factor (readWith parse condense) sources minLength template = .error e) ↔
      Unreadable (readWith parse condense) sources template) ∧
    ∀ shared, factor (readWith parse condense) sources minLength template = .ok shared →
      ∃ program, readWith parse condense template = .ok program ∧
        Faithful (bodyOf (readWith parse condense) sources) program shared := by
  have hfree : ∀ source program, readWith parse condense source = .ok program →
      ConstantFree program := fun source program h => hparse _ program h
  rcases factor_cases sources hfree minLength template with
    ⟨e, hfails, hunreadable⟩ | ⟨shared, program, hfactor, hread, hbodies, hfaithful⟩
  · refine ⟨⟨fun _ => hunreadable, fun _ => ⟨e, hfails⟩⟩, ?_⟩
    intro shared hfactor
    rw [hfails] at hfactor
    cases hfactor
  · refine ⟨⟨?_, ?_⟩, ?_⟩
    · intro ⟨e, hfails⟩
      rw [hfails] at hfactor
      cases hfactor
    · rintro (⟨e, hfails⟩ | ⟨program', name, hread', hname, hnone⟩)
      · rw [hfails] at hread
        cases hread
      · obtain rfl := Except.ok.inj (hread.symm.trans hread')
        exact absurd hnone (hbodies name hname)
    · intro shared' hfactor'
      obtain rfl := Except.ok.inj (hfactor.symm.trans hfactor')
      exact ⟨program, hread, hfaithful⟩

/-- Two partials that include each other, with text that repeats in the template and in both. -/
theorem factor_faithful_cyclic :
    ∃ shared program,
      factor (readWith Template.parse true)
        [("p", "hello{{#a}}{{> q}}{{/a}}"), ("q", "{{> p}}  hello")] 3 "hello {{> p}}" =
          .ok shared ∧
      shared.partials.map (·.1) = ["q", "p"] ∧ shared.constants = [("__constant0", "hello")] ∧
      readWith Template.parse true "hello {{> p}}" = .ok program ∧
      Faithful (bodyOf (readWith Template.parse true)
        [("p", "hello{{#a}}{{> q}}{{/a}}"), ("q", "{{> p}}  hello")]) program shared := by
  have hresult : (factor (readWith Template.parse true)
      [("p", "hello{{#a}}{{> q}}{{/a}}"), ("q", "{{> p}}  hello")] 3 "hello {{> p}}").toOption.map
        (fun shared => (shared.partials.map (·.1), shared.constants)) =
      some (["q", "p"], [("__constant0", "hello")]) := by decide +kernel
  obtain ⟨hfails, hfaithful⟩ := factor_faithful Template.parse
    (fun _ _ => parseWith_constantFree) true
    [("p", "hello{{#a}}{{> q}}{{/a}}"), ("q", "{{> p}}  hello")] 3 "hello {{> p}}"
  cases hfactor : factor (readWith Template.parse true)
      [("p", "hello{{#a}}{{> q}}{{/a}}"), ("q", "{{> p}}  hello")] 3 "hello {{> p}}" with
  | error e =>
    rw [hfactor] at hresult
    cases hresult
  | ok shared =>
    rw [hfactor] at hresult
    obtain ⟨hpartials, hconstants⟩ := Prod.mk.inj (Option.some.inj hresult)
    obtain ⟨program, hprogram, hshares⟩ := hfaithful shared hfactor
    exact ⟨shared, program, rfl, hpartials, hconstants, hprogram, hshares⟩

end Factor
end Stencil
