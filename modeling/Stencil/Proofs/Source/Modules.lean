import Mathlib.Data.List.Perm.Basic
import Stencil.Proofs.Lower.Calls
import Stencil.Proofs.Source.Functions

/-!
# Calls between modules

A partial is written into the library of its group, and into the main module without one. A call
names that library or none, by the group of the partial that it calls. So a call without a library
is found in the main module, and nowhere else: not in the library of a group, if the partial that
makes the call has one.

* `Resolves`         : a call finds its function from a module;
* `perm_by_group`    : the partials, taken apart by their groups;
* `assemble_modules` : what is written where.

The main result is `assemble_resolves`.
-/

namespace Stencil
namespace Source

open Code (Stmt)
open Lower (Lowered LoweredPartial lower targets)
open Results (bind_eq_ok mapM_eq_ok)
open Template (Program)
open Stencil.Types (Naming Store)

/-- A call finds its function: in the module that it stands in, or in the library that it names. -/
def Resolves (libraries : List Module) (m : Module) : Option String × String → Prop
  | (none, name) => ∃ f ∈ m.functions, f.name = name
  | (some library, name) => ∃ g ∈ libraries, g.name = library ∧ ∃ f ∈ g.functions, f.name = name

/-! ## Groups -/

theorem groupNames_nodup (partials : List LoweredPartial) : (groupNames partials).Nodup := by
  have hfold : ∀ (groups done : List String), done.Nodup →
      (groups.foldl (fun done g => if done.contains g then done else done ++ [g]) done).Nodup := by
    intro groups
    induction groups with
    | nil => exact fun done hdone => hdone
    | cons g groups ih =>
      intro done hdone
      apply ih
      dsimp only
      by_cases hg : done.contains g = true
      · rw [if_pos hg]
        exact hdone
      · rw [if_neg hg, List.nodup_append]
        refine ⟨hdone, List.nodup_singleton g, ?_⟩
        intro a ha b hb
        cases List.mem_singleton.1 hb
        rintro rfl
        exact hg (List.contains_iff_mem.2 ha)
  exact hfold _ [] List.nodup_nil

/-- Partials that all have one of the given groups are the members of these groups. -/
theorem perm_members {groups : List String} (hnodup : groups.Nodup) {partials : List LoweredPartial}
    (h : ∀ p ∈ partials, ∃ g ∈ groups, p.group = some g) :
    (groups.flatMap fun g => partials.filter (·.group == some g)).Perm partials := by
  induction groups generalizing partials with
  | nil =>
    cases partials with
    | nil => exact .nil
    | cons p partials =>
      obtain ⟨g, hg, -⟩ := h p List.mem_cons_self
      cases hg
  | cons g groups ih =>
    obtain ⟨hg, hgroups⟩ := List.nodup_cons.1 hnodup
    -- without the members of the first group, the others are as they were
    have hothers : (groups.flatMap fun other => partials.filter (·.group == some other)) =
        groups.flatMap fun other =>
          (partials.filter fun p => !(p.group == some g)).filter (·.group == some other) := by
      apply List.flatMap_congr
      intro other hother
      have hne : other ≠ g := by
        rintro rfl
        exact hg hother
      rw [List.filter_filter]
      apply List.filter_congr
      intro p _
      by_cases hp : p.group = some other
      · simp [hp, hne]
      · simp [hp]
    have hrest : ∀ p ∈ partials.filter (fun p => !(p.group == some g)),
        ∃ other ∈ groups, p.group = some other := by
      intro p hp
      obtain ⟨hmem, hne⟩ := List.mem_filter.1 hp
      obtain ⟨other, hother, hgroup⟩ := h p hmem
      rcases List.mem_cons.1 hother with rfl | hother
      · simp [hgroup] at hne
      · exact ⟨other, hother, hgroup⟩
    rw [List.flatMap_cons, hothers]
    exact ((ih hgroups hrest).append_left _).trans (List.filter_append_perm _ partials)

/-- The partials without a group and the members of all groups are the partials. -/
theorem perm_by_group (partials : List LoweredPartial) :
    (partials.filter (·.group.isNone) ++
      (groupNames partials).flatMap fun g => partials.filter (·.group == some g)).Perm partials := by
  -- the members of groups are the same among all partials and among those with a group
  have hmembers : ((groupNames partials).flatMap fun g => partials.filter (·.group == some g)) =
      (groupNames partials).flatMap fun g =>
        (partials.filter fun p => !p.group.isNone).filter (·.group == some g) := by
    apply List.flatMap_congr
    intro g _
    rw [List.filter_filter]
    apply List.filter_congr
    intro p _
    cases p.group <;> simp
  have hgrouped : ∀ p ∈ partials.filter (fun p => !p.group.isNone),
      ∃ g ∈ groupNames partials, p.group = some g := by
    intro p hp
    obtain ⟨hmem, hsome⟩ := List.mem_filter.1 hp
    obtain ⟨g, hg⟩ : ∃ g, p.group = some g := by
      simpa [Option.isSome_iff_exists] using hsome
    exact ⟨g, mem_groupNames hmem hg, hg⟩
  rw [hmembers]
  exact ((perm_members (groupNames_nodup partials) hgrouped).append_left _).trans
    (List.filter_append_perm _ partials)

/-! ## What is written where -/

/-- The name and the statements of a function. -/
def Function.content (f : Function) : String × List Stmt := (f.name, f.body)

/-- Functions of partials have their names and code. -/
theorem content_of_mapM {s : Store} {naming : Naming} {visibility : String} {main : Option String}
    {partials : List LoweredPartial} {functions : List Function}
    (h : partials.mapM (partialFunction s naming visibility main) = .ok functions) :
    functions.map Function.content = partials.map fun p => (p.name, p.code) := by
  have hforall := mapM_eq_ok.1 h
  clear h
  induction hforall with
  | nil => rfl
  | cons hf _ ih =>
    rw [List.map_cons, List.map_cons, ih]
    unfold partialFunction at hf
    obtain ⟨type, _, hf⟩ := bind_eq_ok.1 hf
    cases hf
    rfl

theorem groupModule_content {o : Options} {naming : Naming} {l : Lowered} {group : String}
    {m : Module} (h : groupModule o naming l group = .ok m) :
    m.name = group ∧ m.functions.map Function.content =
      (l.partials.filter (·.group == some group)).map fun p => (p.name, p.code) := by
  unfold groupModule at h
  obtain ⟨functions, hfunctions, h⟩ := bind_eq_ok.1 h
  cases h
  exact ⟨rfl, content_of_mapM hfunctions⟩

/-- The libraries of groups hold the members of these, in order. -/
theorem libraries_content {o : Options} {naming : Naming} {l : Lowered} {groups : List String}
    {libraries : List Module} (h : groups.mapM (groupModule o naming l) = .ok libraries) :
    libraries.map (·.name) = groups ∧ ∀ m ∈ libraries, m.functions.map Function.content =
      (l.partials.filter (·.group == some m.name)).map fun p => (p.name, p.code) := by
  have hforall := mapM_eq_ok.1 h
  clear h
  induction hforall with
  | nil => simp
  | cons hm _ ih =>
    obtain ⟨hname, hcontent⟩ := groupModule_content hm
    rw [List.map_cons, ih.1, hname]
    refine ⟨rfl, List.forall_mem_cons.2 ⟨?_, ih.2⟩⟩
    rw [hname]
    exact hcontent

/-- What a file is made of: the main function and the partials without a group in the main module,
and the members of each group in its library. -/
structure Modules (l : Lowered) (file : SourceFile) (main : Module) (own : List Function)
    (libraries : List Module) : Prop where
  modules : file.modules = main :: libraries
  functions : main.functions = renderFunction l.code :: own
  own_content : own.map Function.content =
    (l.partials.filter (·.group.isNone)).map fun p => (p.name, p.code)
  names : libraries.map (·.name) = groupNames l.partials
  library_content : ∀ m ∈ libraries, m.functions.map Function.content =
    (l.partials.filter (·.group == some m.name)).map fun p => (p.name, p.code)

theorem assemble_modules {o : Options} {constants : List (String × String)} {naming : Naming}
    {l : Lowered} {file : SourceFile} (h : SourceFile.assemble o constants naming l = .ok file) :
    ∃ main own libraries, Modules l file main own libraries := by
  unfold SourceFile.assemble at h
  obtain ⟨main, hmain, h⟩ := bind_eq_ok.1 h
  obtain ⟨libraries, hlibraries, h⟩ := bind_eq_ok.1 h
  cases h
  unfold mainModule at hmain
  obtain ⟨structs, _, hmain⟩ := bind_eq_ok.1 hmain
  obtain ⟨own, hown, hmain⟩ := bind_eq_ok.1 hmain
  cases hmain
  obtain ⟨hnames, hcontent⟩ := libraries_content hlibraries
  exact ⟨_, own, libraries, rfl, rfl, content_of_mapM hown, hnames, hcontent⟩

namespace Modules

variable {l : Lowered} {file : SourceFile} {main : Module} {own : List Function}
  {libraries : List Module}

/-- Each partial is written once. -/
theorem perm (h : Modules l file main own libraries) :
    ((own ++ libraries.flatMap (·.functions)).map Function.content).Perm
      (l.partials.map fun p => (p.name, p.code)) := by
  have hlibraries : (libraries.flatMap (·.functions)).map Function.content =
      ((groupNames l.partials).flatMap fun g => l.partials.filter (·.group == some g)).map
        fun p => (p.name, p.code) := by
    rw [List.map_flatMap, List.map_flatMap, ← h.names, List.flatMap_map]
    exact List.flatMap_congr h.library_content
  rw [List.map_append, h.own_content, hlibraries, ← List.map_append]
  exact (perm_by_group l.partials).map _

/-- A function of the main module other than the main one is that of a partial without a group. -/
theorem mem_own (h : Modules l file main own libraries) {name : String} {code : List Stmt} :
    (∃ f ∈ own, f.name = name ∧ f.body = code) ↔
      ∃ p ∈ l.partials, p.group = none ∧ p.name = name ∧ p.code = code := by
  have hiff : (name, code) ∈ own.map Function.content ↔ (name, code) ∈
      (l.partials.filter (·.group.isNone)).map fun p => (p.name, p.code) := by
    rw [h.own_content]
  simpa [Function.content, and_assoc] using hiff

/-- A function of a library is that of a partial of its group. -/
theorem mem_library (h : Modules l file main own libraries) {m : Module} (hm : m ∈ libraries)
    {name : String} {code : List Stmt} :
    (∃ f ∈ m.functions, f.name = name ∧ f.body = code) ↔
      ∃ p ∈ l.partials, p.group = some m.name ∧ p.name = name ∧ p.code = code := by
  have hiff : (name, code) ∈ m.functions.map Function.content ↔ (name, code) ∈
      (l.partials.filter (·.group == some m.name)).map fun p => (p.name, p.code) := by
    rw [h.library_content m hm]
  simpa [Function.content, and_assoc] using hiff

/-- Every function is the main one or that of a partial. -/
theorem body_mem (h : Modules l file main own libraries) {m : Module} (hm : m ∈ file.modules)
    {f : Function} (hf : f ∈ m.functions) :
    f.body = l.code ∨ ∃ p ∈ l.partials, f.body = p.code := by
  rw [h.modules] at hm
  obtain rfl | hm := List.mem_cons.1 hm
  · rw [h.functions] at hf
    obtain rfl | hf := List.mem_cons.1 hf
    · exact .inl rfl
    · obtain ⟨p, hp, _, _, hcode⟩ := h.mem_own.1 ⟨f, hf, rfl, rfl⟩
      exact .inr ⟨p, hp, hcode.symm⟩
  · obtain ⟨p, hp, _, _, hcode⟩ := (h.mem_library hm).1 ⟨f, hf, rfl, rfl⟩
    exact .inr ⟨p, hp, hcode.symm⟩

/-- A call of a partial with a group is found from everywhere. -/
theorem resolves_some (h : Modules l file main own libraries) (m : Module) {group name : String}
    (htarget : (some group, name) ∈ targets l.partials) :
    Resolves libraries m (some group, name) := by
  obtain ⟨p, hp, heq⟩ := List.mem_map.1 htarget
  obtain ⟨hgroup, hname⟩ := Prod.mk.inj heq
  have hlibrary : group ∈ libraries.map (·.name) := by
    rw [h.names]
    exact mem_groupNames hp hgroup
  obtain ⟨g, hg, rfl⟩ := List.mem_map.1 hlibrary
  obtain ⟨f, hf, hfname, _⟩ := (h.mem_library hg).2 ⟨p, hp, hgroup, hname, rfl⟩
  exact ⟨g, hg, rfl, f, hf, hfname⟩

/-- A call of a partial without a group is found from the main module. -/
theorem resolves_none (h : Modules l file main own libraries) {name : String}
    (htarget : (none, name) ∈ targets l.partials) : Resolves libraries main (none, name) := by
  obtain ⟨p, hp, heq⟩ := List.mem_map.1 htarget
  obtain ⟨hgroup, hname⟩ := Prod.mk.inj heq
  obtain ⟨f, hf, hfname, _⟩ := h.mem_own.2 ⟨p, hp, hgroup, hname, rfl⟩
  refine ⟨f, ?_, hfname⟩
  rw [h.functions]
  exact List.mem_cons_of_mem _ hf

/-- It is not found from a library, which would hold another partial of its name. -/
theorem not_resolves_none (h : Modules l file main own libraries)
    (hnodup : (l.partials.map (·.name)).Nodup) {m : Module} (hm : m ∈ libraries) {name : String}
    (htarget : (none, name) ∈ targets l.partials) : ¬ Resolves libraries m (none, name) := by
  rintro ⟨f, hf, hname⟩
  obtain ⟨p, hp, hgroup, hpname, _⟩ := (h.mem_library hm).1 ⟨f, hf, hname, rfl⟩
  obtain ⟨q, hq, heq⟩ := List.mem_map.1 htarget
  obtain ⟨hqgroup, hqname⟩ := Prod.mk.inj heq
  have hsame : p = q := List.inj_on_of_nodup_map hnodup hp hq (hpname.trans hqname.symm)
  rw [hsame, hqgroup] at hgroup
  cases hgroup

end Modules

/-- In the file of a lowered template every partial is written once, each group has one library,
and every call in the main module finds its function. A call in the library of a group finds its
function exactly if it names a library: a partial without a group is out of reach there. -/
theorem assemble_resolves {programs : List (String × Program)} {program : Program} {l : Lowered}
    {o : Options} {constants : List (String × String)} {naming : Naming} {file : SourceFile}
    (hlower : lower programs program = .ok l)
    (hfile : SourceFile.assemble o constants naming l = .ok file) :
    ∃ main own libraries, file.modules = main :: libraries ∧
      main.functions = renderFunction l.code :: own ∧
      (libraries.map (·.name)).Nodup ∧ (l.partials.map (·.name)).Nodup ∧
      ((own ++ libraries.flatMap (·.functions)).map Function.content).Perm
        (l.partials.map fun p => (p.name, p.code)) ∧
      (∀ f ∈ main.functions, ∀ call ∈ Stmt.allCalls f.body, Resolves libraries main call) ∧
      ∀ m ∈ libraries, ∀ f ∈ m.functions, ∀ call ∈ Stmt.allCalls f.body,
        Resolves libraries m call ↔ call.1.isSome := by
  obtain ⟨main, own, libraries, hmodules⟩ := assemble_modules hfile
  obtain ⟨hmain, hclosed⟩ := Lower.lower_linked hlower
  obtain ⟨st, hst, _, hpartials, _⟩ := Lower.lower_valid hlower
  have hnodup : (l.partials.map (·.name)).Nodup := by
    rw [← hpartials]
    exact hst.names_nodup
  refine ⟨main, own, libraries, hmodules.modules, hmodules.functions, ?_, hnodup, hmodules.perm,
    ?_, ?_⟩
  · rw [hmodules.names]
    exact groupNames_nodup _
  · intro f hf call hcall
    -- what is called is a lowered partial, from the main function and from the others
    have htarget : call ∈ targets l.partials := by
      rw [hmodules.functions] at hf
      rcases List.mem_cons.1 hf with rfl | hf
      · exact hmain hcall
      · obtain ⟨p, hp, _, _, hcode⟩ := hmodules.mem_own.1 ⟨f, hf, rfl, rfl⟩
        rw [← hcode] at hcall
        exact hclosed p hp hcall
    obtain ⟨group | group, name⟩ := call
    · exact hmodules.resolves_none htarget
    · exact hmodules.resolves_some main htarget
  · intro m hm f hf call hcall
    have htarget : call ∈ targets l.partials := by
      obtain ⟨p, hp, _, _, hcode⟩ := (hmodules.mem_library hm).1 ⟨f, hf, rfl, rfl⟩
      rw [← hcode] at hcall
      exact hclosed p hp hcall
    obtain ⟨group | group, name⟩ := call
    · simpa using hmodules.not_resolves_none hnodup hm htarget
    · simpa using hmodules.resolves_some m htarget

/-- A file can be written if the types of its structs and parameters can. -/
theorem exists_assemble {l : Lowered} {naming : Naming} {decls : List StructDecl}
    (hdecls : structDecls l.store naming = .ok decls)
    (htypes : ∀ p ∈ l.partials, ∃ type, naming.typeName l.store p.input = .ok type) (o : Options)
    (constants : List (String × String)) :
    ∃ file, SourceFile.assemble o constants naming l = .ok file := by
  have hfunctions : ∀ (keep : LoweredPartial → Bool) (visibility : String) (main : Option String),
      ∃ functions, (l.partials.filter keep).mapM
        (partialFunction l.store naming visibility main) = .ok functions := by
    intro keep visibility main
    apply Results.exists_mapM
    intro p hp
    obtain ⟨type, htype⟩ := htypes p (List.mem_of_mem_filter hp)
    exact ⟨_, bind_eq_ok.2 ⟨type, htype, rfl⟩⟩
  have hlibraries : ∃ libraries, (groupNames l.partials).mapM (groupModule o naming l) =
      .ok libraries := by
    apply Results.exists_mapM
    intro group _
    obtain ⟨functions, hf⟩ := hfunctions (·.group == some group) "external" (some o.name)
    exact ⟨_, bind_eq_ok.2 ⟨functions, hf, rfl⟩⟩
  obtain ⟨own, hown⟩ := hfunctions (·.group.isNone) "internal" none
  obtain ⟨libraries, hlibraries⟩ := hlibraries
  have hmain : mainModule o naming l = .ok _ :=
    bind_eq_ok.2 ⟨decls, hdecls, bind_eq_ok.2 ⟨own, hown, rfl⟩⟩
  exact ⟨_, bind_eq_ok.2 ⟨_, hmain, bind_eq_ok.2 ⟨libraries, hlibraries, rfl⟩⟩⟩

/-- A partial that includes another one. -/
def nestedPartials : List (String × Program) :=
  [("q", [.inclusion "p" [] [] {}]),
    ("p", [.interpolation (.path { written := "x", parts := ["x"] }) [] [] true {}])]

/-- The inclusion of a partial in a group; the one inside it has none. -/
def groupedOutside : Program := [.inclusion "q" [] [("extra", .string "G")] {}]

/-- A partial in a library calls one of the main module, without naming that. -/
theorem assemble_resolves_out_of_reach :
    ∃ l file, lower nestedPartials groupedOutside = .ok l ∧
      Naming.generate l.store l.root true = .ok { entries := [⟨"__Input", 0⟩] } ∧
      SourceFile.assemble {} [] { entries := [⟨"__Input", 0⟩] } l = .ok file ∧
      ∃ main libraries, file.modules = main :: libraries ∧
        ∃ m ∈ libraries, m.name = "G" ∧ ∃ f ∈ m.functions, f.name = "q" ∧
          (none, "p") ∈ Stmt.allCalls f.body ∧ ¬ Resolves libraries m (none, "p") := by
  have hrun : Lower.endsWith (Lower.lowerProgram nestedPartials 0 groupedOutside
      Lower.State.initial) (fun st => Lower.settlesWith 1 st fun st' =>
        st'.store == ⟨#[.struct [("x", 1)], .string none]⟩ &&
        (st'.partials.all (·.input == 0) && st'.partials.any fun p =>
          p.name == "q" && p.group == some "G" && Stmt.allCalls p.code == [(none, "p")])) = true := by
    decide +kernel
  obtain ⟨l, st', hlower, hpartials, hstore, hroot, hcheck⟩ :=
    Lower.exists_lower_of_endsWith hrun
  rw [Bool.and_eq_true, Bool.and_eq_true, ← hstore, ← hpartials, beq_iff_eq] at hcheck
  obtain ⟨hnodes, hinputs, hgrouped⟩ := hcheck
  have hnames : Naming.generate l.store l.root true = .ok { entries := [⟨"__Input", 0⟩] } := by
    rw [hnodes, hroot]
    decide +kernel
  have hdecls : structDecls l.store { entries := [⟨"__Input", 0⟩] } =
      .ok [⟨"__Input", [("string", "x")]⟩] := by
    rw [hnodes]
    decide +kernel
  have htypes : ∀ p ∈ l.partials, ∃ type,
      Naming.typeName { entries := [⟨"__Input", 0⟩] } l.store p.input = .ok type := by
    intro p hp
    rw [beq_iff_eq.1 (List.all_eq_true.1 hinputs p hp), hnodes]
    exact ⟨"__Input", by decide +kernel⟩
  obtain ⟨file, hfile⟩ := exists_assemble hdecls htypes {} []
  obtain ⟨main, own, libraries, hfiles, _, _, _, _, _, hcalls⟩ := assemble_resolves hlower hfile
  refine ⟨l, file, hlower, hnames, hfile, main, libraries, hfiles, ?_⟩
  -- the partial in the group is written into its library, with its call
  obtain ⟨q, hq, hq_is⟩ := List.any_eq_true.1 hgrouped
  simp only [Bool.and_eq_true, beq_iff_eq] at hq_is
  obtain ⟨⟨hname, hgroup⟩, hq_calls⟩ := hq_is
  obtain ⟨main', own', libraries', hmodules⟩ := assemble_modules hfile
  have hsame := hmodules.modules
  rw [hfiles] at hsame
  cases hsame
  have hlibrary : "G" ∈ libraries.map (·.name) := by
    rw [hmodules.names]
    exact mem_groupNames hq hgroup
  obtain ⟨m, hm, hm_name⟩ := List.mem_map.1 hlibrary
  rw [← hm_name] at hgroup
  obtain ⟨f, hf, hf_name, hf_body⟩ := (hmodules.mem_library hm).2 ⟨q, hq, hgroup, hname, rfl⟩
  have hcall : (none, "p") ∈ Stmt.allCalls f.body := by
    rw [hf_body, hq_calls]
    exact List.mem_cons_self
  refine ⟨m, hm, hm_name, f, hf, hf_name, hcall, ?_⟩
  rw [hcalls m hm f hf _ hcall]
  decide

end Source
end Stencil
