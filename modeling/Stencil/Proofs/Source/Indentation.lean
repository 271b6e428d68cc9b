import Stencil.Compile
import Stencil.Proofs.Factor.Sharing
import Stencil.Proofs.Lower.Members
import Stencil.Proofs.Source.Declarations

/-!
# Generated source is laid out

The source that is written for a template can be laid out, as its braces are balanced: text of the
template stands in literals, and all else is made of names and of the words of the target language.
This file defines:

* `Part.Named`  : the names in a part of code that do not come from paths;
* `WellNamed`   : a template whose references and constants have usual names.

The main result is `indent_assembled`: for such a template, layout does not fail.
-/

namespace Stencil

open Name (Tidy)
open Source (Level Plain)

/-! ## Names in code -/

namespace Code

/-- The names in a part of code that do not come from paths: constants have names of some kind,
partials and their libraries are called by tidy names. -/
def Part.Named (constants : String → Prop) : Part → Prop
  | .atom (.constant name) => constants name
  | .atom (.call group name _) => Tidy name ∧ ∀ g ∈ group, Tidy g
  | _ => True

/-- A part is spelled if its paths, its index and its other names are. -/
theorem Part.Named.spelled {part : Part} (h : part.Named Plain)
    (hpaths : ∀ path ∈ part.paths, Plain path.text)
    (hindex : ∀ index ∈ part.declared, Plain index) : part.Spelled := by
  cases part with
  | atom a =>
    cases a with
    | literal text => exact trivial
    | constant name => exact h
    | value path => exact hpaths path List.mem_cons_self
    | number signed path decimals => exact hpaths path List.mem_cons_self
    | call group name context =>
      refine ⟨plain_qualified (fun g hg => .of_tidy (h.2 g hg)) (.of_tidy h.1), ?_⟩
      exact hpaths context List.mem_cons_self
  | condition path => exact hpaths path List.mem_cons_self
  | loop index items => exact ⟨hindex index List.mem_cons_self, hpaths items List.mem_cons_self⟩

end Code

namespace Lower

open Code (Call Placed Stmt calls)
open Template (Hash Program)

/-- All constants that a program refers to have names of some kind. -/
def ConstantsIn (constants : String → Prop) (P : Program) : Prop :=
  ∀ {name span}, Factor.Within P (.constant name span) → constants name

/-- The name of a library is checked where it is asked for. -/
theorem groupArgument_tidy {hash : Hash} {group : Option String}
    (h : groupArgument hash = .ok group) : ∀ g ∈ group, Tidy g := by
  unfold groupArgument at h
  split at h
  · cases h
    rintro g ⟨⟩
  · split at h
    · next hname =>
      cases h
      rintro g ⟨⟩
      exact .of_isIdentifier hname
    · cases h
  · cases h

section

variable {programs : List (String × Program)} {scope : Scope} {around : List String}
  {v v' : Variables} {P : Program} {parts : List Placed} {constants : String → Prop}

theorem Written.named (h : Written programs scope around v P parts v') :
    ConstantsIn constants P → ∀ x ∈ parts, x.2.Named constants := by
  induction h with
  | nil =>
    intro _ x hx
    cases hx
  | content _ ih =>
    intro hconstants
    refine List.forall_mem_append.2 ⟨?_, ih fun hs => hconstants (.later hs)⟩
    split
    · simp
    · exact List.forall_mem_singleton.2 trivial
  | comment _ ih =>
    intro hconstants
    exact ih fun hs => hconstants (.later hs)
  | constant _ ih =>
    intro hconstants
    refine List.forall_mem_cons.2 ⟨hconstants .here, ?_⟩
    exact ih fun hs => hconstants (.later hs)
  | interpolation hplan _ ih =>
    intro hconstants
    refine List.forall_mem_cons.2 ⟨?_, ih fun hs => hconstants (.later hs)⟩
    -- an interpolation is a path or a number, neither of which names a constant
    obtain ⟨_, _, _, _, hatom | ⟨_, _, hatom⟩⟩ := interpolationPlan_resolves hplan
    · rw [hatom]
      exact trivial
    · rw [hatom]
      exact trivial
  | inclusion hplan _ ih =>
    intro hconstants
    refine List.forall_mem_cons.2 ⟨?_, ih fun hs => hconstants (.later hs)⟩
    obtain ⟨hname, _, _, hgroup, _⟩ := inclusionPlan_eq_ok.1 hplan
    exact ⟨.of_isIdentifier hname, groupArgument_tidy hgroup⟩
  | each _ _ _ _ _ ihbody ihrest =>
    intro hconstants
    refine List.forall_mem_cons.2 ⟨trivial, List.forall_mem_append.2 ⟨?_, ?_⟩⟩
    · exact ihbody fun hs => hconstants (.body hs)
    · exact ihrest fun hs => hconstants (.later hs)
  | dive _ _ _ _ ihbody ihrest =>
    intro hconstants
    refine List.forall_mem_append.2 ⟨?_, ?_⟩
    · exact ihbody fun hs => hconstants (.body hs)
    · exact ihrest fun hs => hconstants (.later hs)
  | conditional _ _ htest _ _ _ ihbody ihinverse ihrest =>
    intro hconstants
    refine List.forall_mem_append.2 ⟨?_, List.forall_mem_append.2 ⟨?_,
      List.forall_mem_append.2 ⟨?_, ?_⟩⟩⟩
    · obtain rfl | rfl := htest
      · simp
      · exact List.forall_mem_singleton.2 trivial
    · exact ihbody fun hs => hconstants (.body hs)
    · exact ihinverse fun hs => hconstants (.inverse_getD hs)
    · exact ihrest fun hs => hconstants (.later hs)

end

/-! ## Paths and indices -/

theorem plain_push {path : AccessPath} (h : Plain path.text) {a : Accessor} (ha : Plain a.text) :
    Plain (path.push a).text := by
  have htext : (path.push a).text = path.text ++ a.text := by
    simp [AccessPath.text, AccessPath.push, String.append_assoc]
  rw [htext]
  exact h.append ha

theorem plain_index {expr : String} (h : Tidy expr) : Plain (Accessor.index expr).text :=
  ((by decide : Plain "[").append (.of_tidy h)).append (by decide : Plain "]")

/-- Paths along tidy segments are spelled in plain characters. -/
theorem stable_plain : Stable Tidy fun _ path => Plain path.text where
  segment := by
    intro around path part hpart h
    refine plain_push h ?_
    unfold Accessor.ofSegment
    split
    · exact plain_index hpart
    · exact (by decide : Plain ".").append (.of_tidy hpart)
  inside _ h := h
  item := by
    intro around items index hindex h
    exact plain_push h (plain_index (.of_isIdentifier hindex.isIdentifier))
  position := by
    intro around index hindex
    have htext : AccessPath.text ⟨.variable index, []⟩ = index := by
      simp [AccessPath.text, Origin.text]
    rw [htext]
    exact .of_tidy (.of_isIdentifier hindex.isIdentifier)

section

variable {programs : List (String × Program)} {P : Program} {code : List Stmt}

/-- The code that is written for a program is spelled in plain characters, but for its literals. -/
theorem Writes.spelled (h : Writes programs P code) (hsegments : SegmentsIn Tidy P)
    (hconstants : ConstantsIn Tidy P) : ∀ x ∈ Stmt.allParts [] code, x.2.Spelled := by
  obtain ⟨v, hwritten⟩ := h
  have hroot : ({} : Scope).view.All fun path => Plain path.text :=
    Scope.view_root (by decide : Plain (AccessPath.text {}))
  intro x hx
  refine (hwritten.named (fun hs => .of_tidy (hconstants hs)) x hx).spelled ?_ ?_
  · exact hwritten.places stable_plain hsegments hroot x hx
  · intro index hindex
    have htaken := hwritten.takes.named index (List.mem_flatMap.2 ⟨x, hx, hindex⟩)
    exact .of_tidy (.of_isIdentifier htaken.isIdentifier)

/-- The calls of a program name partials and libraries in tidy characters. -/
theorem Writes.calls_tidy (h : Writes programs P code) :
    ∀ c ∈ calls (Stmt.allParts [] code), Tidy c.name ∧ ∀ g ∈ c.group, Tidy g := by
  obtain ⟨v, hwritten⟩ := h
  intro c hc
  obtain ⟨x, hx, hcall⟩ := List.mem_filterMap.1 hc
  have hnamed : x.2.Named fun _ => True := hwritten.named (fun _ => trivial) x hx
  unfold Code.Part.call? at hcall
  split at hcall
  · next hpart =>
    cases hcall
    rw [hpart] at hnamed
    exact hnamed
  · cases hcall

/-- Partials have the names and the libraries that they are called by. -/
theorem Entered.tidy {opened : List String} {partials done : List LoweredPartial}
    {rest : List Call} (h : Entered programs opened partials rest done) :
    (∀ c ∈ rest, Tidy c.name ∧ ∀ g ∈ c.group, Tidy g) →
      (∀ p ∈ partials, Tidy p.name ∧ ∀ g ∈ p.group, Tidy g) →
        ∀ p ∈ done, Tidy p.name ∧ ∀ g ∈ p.group, Tidy g := by
  induction h with
  | nil => exact fun _ hpartials => hpartials
  | @again _ partials _ _ node call _ _ _ _ ih =>
    intro hcalls hpartials
    refine ih (List.forall_mem_cons.1 hcalls).2 ?_
    intro q hq
    obtain ⟨p, hp, rfl⟩ := List.mem_map.1 hq
    have hextends := p.extends_called call.name ⟨node, call.context⟩
    rw [hextends.name, hextends.group]
    exact hpartials p hp
  | first _ _ _ hwrites _ _ ihinner ih =>
    intro hcalls hpartials
    obtain ⟨hcall, hcalls⟩ := List.forall_mem_cons.1 hcalls
    refine ih hcalls (List.forall_mem_append.2 ⟨ihinner hwrites.calls_tidy hpartials, ?_⟩)
    exact List.forall_mem_singleton.2 hcall

end

end Lower

namespace Source

open Code (Stmt)
open Factor (SharedTemplate constantKey)
open Lower (ConstantsIn Lowered LoweredPartial SegmentsIn lower)
open Template (Program)
open Stencil.Types (Naming TidyNames)

/-! ## Files -/

/-- All names in what has been lowered are plain. -/
structure Lowered.Spelled (l : Lowered) : Prop where
  members : l.store.MembersIn Tidy
  code : ∀ x ∈ Stmt.allParts [] l.code, x.2.Spelled
  partials : ∀ p ∈ l.partials, Tidy p.name ∧ (∀ g ∈ p.group, Tidy g) ∧
    ∀ x ∈ Stmt.allParts [] p.code, x.2.Spelled

theorem exists_of_mem_groupNames {partials : List LoweredPartial} {group : String}
    (h : group ∈ groupNames partials) : ∃ p ∈ partials, p.group = some group := by
  have hadd : (fun done g => if done.contains g then done else done ++ [g]) = Factor.addNew := by
    funext done g
    simp [Factor.addNew]
  rw [groupNames, hadd, Factor.foldl_addNew, List.mem_eraseDups] at h
  exact List.mem_filterMap.1 h

section

variable {o : Options} {naming : Naming} {l : Lowered} {m : Module}

theorem mainModule_spelled (hl : Lowered.Spelled l) (hn : TidyNames naming.entries)
    (hname : Plain o.name) (h : mainModule o naming l = .ok m) : m.Spelled := by
  unfold mainModule at h
  obtain ⟨structs, hstructs, h⟩ := Results.bind_eq_ok.1 h
  obtain ⟨own, hown, h⟩ := Results.bind_eq_ok.1 h
  cases h
  refine ⟨?_, hname, ?_, List.forall_mem_cons.2 ⟨?_, ?_⟩⟩
  · cases o.contract with
    | true => exact (by decide : Plain "contract")
    | false => exact (by decide : Plain "library")
  · intro d hd
    obtain ⟨e, he, hdecl⟩ := Results.forall₂_mem_left (structDecls_eq_ok.1 hstructs).flip hd
    exact structDecl_spelled hl.members hn (mem_entries_of_structs (List.mem_of_mem_filter he)) hdecl
  · exact ⟨(by decide : Plain "render"), (by decide : Plain (Types.inputStructName ++ " memory")),
      (by decide : Plain "public"), hl.code⟩
  · intro f hf
    obtain ⟨p, hp, hfunction⟩ := Results.exists_of_mem_mapM hown hf
    obtain ⟨hpname, _, hcode⟩ := hl.partials p (List.mem_of_mem_filter hp)
    exact partialFunction_spelled hn (by decide) (by rintro name ⟨⟩) (.of_tidy hpname) hcode
      hfunction

theorem groupModule_spelled (hl : Lowered.Spelled l) (hn : TidyNames naming.entries)
    (hname : Plain o.name) {group : String} (hgroup : Tidy group)
    (h : groupModule o naming l group = .ok m) : m.Spelled := by
  unfold groupModule at h
  obtain ⟨functions, hfunctions, h⟩ := Results.bind_eq_ok.1 h
  cases h
  refine ⟨(by decide : Plain "library"), .of_tidy hgroup, by simp, ?_⟩
  intro f hf
  obtain ⟨p, hp, hfunction⟩ := Results.exists_of_mem_mapM hfunctions hf
  obtain ⟨hpname, _, hcode⟩ := hl.partials p (List.mem_of_mem_filter hp)
  refine partialFunction_spelled hn (by decide) ?_ (.of_tidy hpname) hcode hfunction
  rintro name ⟨⟩
  exact hname

end

/-- The declaration of a constant, whatever its text is. -/
theorem neutral_constantLine {constant : String × String} (h : Tidy constant.1) :
    Neutral (constantLine constant) := by
  have hhead : Plain ("string constant " ++ constant.1 ++ " = ") :=
    ((by decide : Plain "string constant ").append (.of_tidy h)).append (by decide)
  exact (hhead.neutral.append (Code.neutral_literal constant.2)).append (by decide : Neutral ";")

theorem level_helperLibrary : Level helperLibrary := by decide +kernel

/-- A file of spelled modules, under a header and a pragma without marks. -/
theorem level_sourceFile {file : SourceFile} (hheader : Unmarked file.header)
    (hpragma : Unmarked file.pragma) (hconstants : ∀ c ∈ file.constants, Tidy c.1)
    (hmodules : ∀ m ∈ file.modules, m.Spelled) : Level file.lines := by
  have hversion : Unmarked ("pragma solidity " ++ file.pragma ++ ";") := by
    -- the words around the version have no slash and no star next to it
    refine ((by decide : Unmarked "pragma solidity ").append hpragma ?_).append (by decide) ?_
    · rintro a ha b _ ⟨rfl, _⟩
      exact absurd ha (by decide)
    · rintro a _ b hb ⟨_, rfl⟩
      exact absurd hb (by decide)
  have htop : Level [file.header, "pragma solidity " ++ file.pragma ++ ";", ""] :=
    hheader.level.cons (hversion.level.cons (by decide))
  have hblank : Level (if file.constants.isEmpty then [] else [""]) := by
    split
    · exact .nil
    · decide
  have hconstants : Level (file.constants.map constantLine) :=
    .map fun c hc => (neutral_constantLine (hconstants c hc)).level
  have hmodules : Level (file.modules.flatMap Module.lines) :=
    .flatMap fun m hm => (hmodules m hm).level
  unfold SourceFile.lines
  exact (((htop.append hconstants).append hblank).append hmodules).append level_helperLibrary

/-! ## Templates -/

/-- A segment of a reference that is an identifier or a number. -/
def Segment (part : String) : Prop :=
  Name.isIdentifier part = true ∨ ∀ c ∈ part.toList, c.isDigit = true

instance (part : String) : Decidable (Segment part) :=
  @instDecidableOr _ _ _ (List.decidableBAll _ _)

theorem Segment.tidy {part : String} (h : Segment part) : Tidy part :=
  h.elim .of_isIdentifier .of_isDigit

theorem tidy_constantKey (i : Nat) : Tidy (constantKey i) :=
  (by decide : Tidy "__constant").append (.repr i)

/-- The program of a template and those of its partials. -/
def programsOf (t : SharedTemplate) : List Program := t.program :: t.partials.map (·.2)

/-- References go along identifiers and numbers, and constants are named by their numbers. -/
structure WellNamed (t : SharedTemplate) : Prop where
  segments : ∀ P ∈ programsOf t, SegmentsIn Segment P
  references : ∀ P ∈ programsOf t, ConstantsIn (fun name => ∃ i, name = constantKey i) P
  constants : ∀ c ∈ t.constants, ∃ i, c.1 = constantKey i

theorem lowered_spelled {t : SharedTemplate} (ht : WellNamed t) {l : Lowered}
    (h : lower t.partials t.program = .ok l) : Lowered.Spelled l := by
  have htidy : ∀ P ∈ programsOf t, SegmentsIn Tidy P ∧ ConstantsIn Tidy P := by
    intro P hP
    refine ⟨fun s hs p hp part hpart => (ht.segments P hP s hs p hp part hpart).tidy, ?_⟩
    intro name span hs
    obtain ⟨i, rfl⟩ := ht.references P hP hs
    exact tidy_constantKey i
  have hmain := htidy t.program List.mem_cons_self
  have hpartials : ∀ x ∈ t.partials, SegmentsIn Tidy x.2 ∧ ConstantsIn Tidy x.2 :=
    fun x hx => htidy x.2 (List.mem_cons_of_mem _ (List.mem_map_of_mem hx))
  obtain ⟨hwrites, hentered⟩ := Lower.lower_writes h
  refine ⟨Lower.lower_membersIn h hmain.1 fun x hx => (hpartials x hx).1,
    hwrites.spelled hmain.1 hmain.2, ?_⟩
  intro p hp
  obtain ⟨body, hbody, hcode⟩ := hentered.writes p hp
  obtain ⟨hsegments, hconstants⟩ := hpartials _ (Lookup.mem_of_lookup hbody)
  obtain ⟨hname, hgroup⟩ := hentered.tidy hwrites.calls_tidy (by simp) p hp
  exact ⟨hname, hgroup, hcode.spelled hsegments hconstants⟩

/-- The file that is written for a template is laid out, whatever its text, the values of its
constants and the arguments of its tags are. So compiling does not end in a fault of layout, in
whatever way templates are read: it gives the laid-out text, or it has refused the template for
reading no data. -/
theorem indent_assembled {t : SharedTemplate} (ht : WellNamed t) {o : Options}
    (ho : o.validate = .ok ()) (hheader : Unmarked o.header) (hpragma : Unmarked o.pragma)
    {l : Lowered} (hlower : lower t.partials t.program = .ok l) {naming : Naming}
    (hnaming : Naming.generate l.store l.root o.style.explicitTypes = .ok naming)
    {file : SourceFile} (hfile : SourceFile.assemble o t.constants naming l = .ok file) :
    ∃ text, indent o.style file.text = .ok text ∧
      ∀ parse template, sharedTemplate o template parse = .ok t →
        compile o template parse =
          if l.store.get l.root == .struct [] then .error .emptyTemplate else .ok text := by
  have hl := lowered_spelled ht hlower
  have hn := Types.generate_tidyNames hl.members hnaming
  -- the name of the main module is checked with the options
  have hname : Plain o.name := by
    unfold Options.validate at ho
    split at ho
    · cases ho
    · next hname => exact .of_tidy (.of_isIdentifier (by simpa using hname))
  have hlevel : Level file.lines := by
    unfold SourceFile.assemble at hfile
    obtain ⟨main, hmain, hfile⟩ := Results.bind_eq_ok.1 hfile
    obtain ⟨libraries, hlibraries, hfile⟩ := Results.bind_eq_ok.1 hfile
    cases hfile
    refine level_sourceFile hheader hpragma ?_ (List.forall_mem_cons.2 ⟨?_, ?_⟩)
    · intro c hc
      obtain ⟨i, hi⟩ := ht.constants c hc
      rw [hi]
      exact tidy_constantKey i
    · exact mainModule_spelled hl hn hname hmain
    · intro m hm
      obtain ⟨group, hgroup, hmodule⟩ := Results.exists_of_mem_mapM hlibraries hm
      obtain ⟨p, hp, hpgroup⟩ := exists_of_mem_groupNames hgroup
      exact groupModule_spelled hl hn hname ((hl.partials p hp).2.1 group hpgroup) hmodule
  obtain ⟨text, htext⟩ := indent_ok_of_level hlevel o.style
  refine ⟨text, htext, ?_⟩
  intro parse template htemplate
  -- the stages that come before layout are those of the hypotheses
  have hsource : sourceFile o template parse =
      if l.store.get l.root == .struct [] then .error .emptyTemplate else .ok file := by
    unfold sourceFile
    simp only [ho, htemplate, hlower, hnaming, hfile, bind, Except.bind]
    rfl
  unfold compile compileWith
  rw [hsource]
  split
  · rfl
  · simp only [bind, Except.bind]
    exact htext

/-- Rows whose last one is a shared text, in which quotes, braces, comments and lines begin and end;
the other rows show their first cell by a partial. -/
def unruly : SharedTemplate where
  program :=
    [.block { written := "each", parts := ["each"] }
      [.path { written := "rows", parts := ["rows"] }] [] ["\x7d", "\""]
      [.block { written := "if", parts := ["if"] }
        [.path { written := "last", parts := ["last"] }] [] []
        [.constant "__constant0" {}]
        (some [.inclusion "cell" [.path { written := "cells.0", parts := ["cells", "0"] }]
          [("extra", .string "Cells")] {}]) {}] none {}]
  partials := [("cell",
    [.content "' // \\" {},
      .interpolation (.path { written := "label", parts := ["label"] }) [] [] true {}])]
  constants := [("__constant0", "\" \x7d\n/* \x7b é")]

theorem wellNamed_unruly : WellNamed unruly := by
  have hprograms : ∀ P ∈ programsOf unruly, ∀ s, Factor.Within P s →
      (∀ p ∈ s.references, ∀ part ∈ p.parts, Segment part) ∧
        ∀ name span, s = .constant name span → name = constantKey 0 := by
    intro P hP s hs
    obtain rfl | hP := List.mem_cons.1 hP
    · cases hs with
      | here => exact ⟨by decide, by rintro name span ⟨⟩⟩
      | later hs => cases hs
      | body hs =>
        cases hs with
        | here => exact ⟨by decide, by rintro name span ⟨⟩⟩
        | later hs => cases hs
        | body hs =>
          cases hs with
          | here =>
            refine ⟨by decide, ?_⟩
            rintro name span ⟨⟩
            decide
          | later hs => cases hs
        | inverse hs =>
          cases hs with
          | here => exact ⟨by decide, by rintro name span ⟨⟩⟩
          | later hs => cases hs
    · cases List.mem_singleton.1 hP
      cases hs with
      | here => exact ⟨by decide, by rintro name span ⟨⟩⟩
      | later hs =>
        cases hs with
        | here => exact ⟨by decide, by rintro name span ⟨⟩⟩
        | later hs => cases hs
  refine ⟨fun P hP s hs => (hprograms P hP s hs).1, ?_, ?_⟩
  · intro P hP name span hs
    exact ⟨0, (hprograms P hP _ hs).2 name span rfl⟩
  · intro c hc
    cases List.mem_singleton.1 hc
    exact ⟨0, by decide⟩

/-- Whether the types of partials and of members have a spelling. -/
def spellsTypes (s : Types.Store) (partials : List LoweredPartial) (naming : Naming) : Bool :=
  (partials.all fun p => (naming.typeName s p.input).isOk) &&
    naming.structs.all fun e => match s.get e.node with
      | .struct members => members.all fun m => (naming.typeName s m.2).isOk
      | _ => false

/-- Text that would unbalance the source if it stood in it, under a header of two lines. -/
theorem indent_assembled_unruly :
    ∃ l naming file, lower unruly.partials unruly.program = .ok l ∧
      Naming.generate l.store l.root true = .ok naming ∧
      SourceFile.assemble { header := "// first /\n* second" } unruly.constants naming l =
        .ok file ∧
      ∃ text, indent {} file.text = .ok text := by
  have hrun : Lower.endsWith (Lower.lowerProgram unruly.partials 0 unruly.program
      Lower.State.initial) (fun st => Lower.settlesWith 1 st fun st' =>
        (Naming.generate st'.store 0 true).toOption.any
          (spellsTypes st'.store st'.partials)) = true := by
    decide +kernel
  have hok : ∀ {x : Except Error String}, x.isOk = true → ∃ type, x = .ok type := by
    intro x hx
    cases x with
    | error e => cases hx
    | ok type => exact ⟨type, rfl⟩
  obtain ⟨l, st', hlower, hpartials, hstore, hroot, hcheck⟩ :=
    Lower.exists_lower_of_endsWith hrun
  rw [← hstore, ← hpartials] at hcheck
  cases hnaming : Naming.generate l.store 0 true with
  | error e =>
    rw [hnaming] at hcheck
    cases hcheck
  | ok naming =>
    rw [hnaming] at hcheck
    obtain ⟨htypes, hstructs⟩ := (Bool.and_eq_true _ _).mp hcheck
    have hdecls : ∃ decls, structDecls l.store naming = .ok decls := by
      have hdecl : ∀ e ∈ naming.structs, ∃ o, structDecl? l.store naming e = .ok o := by
        intro e he
        have hfields := List.all_eq_true.1 hstructs e he
        split at hfields
        · next members hmembers =>
          obtain ⟨d, hd⟩ := exists_structDecl hmembers fun m hm =>
            hok (List.all_eq_true.1 hfields m hm)
          exact ⟨some d, hd⟩
        · cases hfields
      obtain ⟨os, hos⟩ := Results.exists_mapM hdecl
      exact ⟨os.filterMap id, Results.bind_eq_ok.2 ⟨os, hos, rfl⟩⟩
    obtain ⟨decls, hdecls⟩ := hdecls
    obtain ⟨file, hfile⟩ := exists_assemble hdecls
      (fun p hp => hok (List.all_eq_true.1 htypes p hp))
      { header := "// first /\n* second" } unruly.constants
    rw [← hroot] at hnaming
    obtain ⟨text, htext, _⟩ := indent_assembled wellNamed_unruly rfl (by decide)
      (by decide) hlower hnaming hfile
    exact ⟨l, naming, file, hlower, hnaming, hfile, text, htext⟩

end Source
end Stencil
