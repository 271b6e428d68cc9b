import Stencil.Proofs.Results
import Stencil.Source.File

/-!
# Functions of a generated file

A file holds a function for the template and one for each partial, in the main module or in the
library of its group. Each is written as its head, the lines of its statements, and its end.

* `SourceFile.Declares`  : a file declares a function with the given statements;
* `assemble_declares`    : a file declares the functions of a lowered template.
-/

namespace Stencil
namespace Source

open Code (Stmt)
open Lower (Lowered LoweredPartial)
open Results (bind_eq_ok mem_of_mapM)
open Stencil.Types (Naming)

/-- A file holds a function of the given name, whose lines are those of the given statements
between its head and its end. -/
def SourceFile.Declares (file : SourceFile) (name : String) (code : List Stmt) : Prop :=
  ∃ m ∈ file.modules, ∃ f ∈ m.functions, f.name = name ∧
    f.lines = f.head :: (Stmt.allLines code ++ ["\x7d", ""])

/-- The group of every partial has a library. -/
theorem mem_groupNames {partials : List LoweredPartial} {p : LoweredPartial} {group : String}
    (hp : p ∈ partials) (hgroup : p.group = some group) : group ∈ groupNames partials := by
  -- a group is among those that are done as soon as it has been met
  have hfold : ∀ (groups done : List String), group ∈ done ∨ group ∈ groups →
      group ∈ groups.foldl (fun done g => if done.contains g then done else done ++ [g]) done := by
    intro groups
    induction groups with
    | nil =>
      intro done h
      simpa using h
    | cons g groups ih =>
      intro done h
      refine ih _ ?_
      dsimp only
      by_cases hdone : done.contains g = true
      · rw [if_pos hdone]
        rcases h with h | h
        · exact .inl h
        · rcases List.mem_cons.1 h with rfl | h
          · exact .inl (List.contains_iff_mem.1 hdone)
          · exact .inr h
      · rw [if_neg hdone]
        rcases h with h | h
        · exact .inl (List.mem_append_left _ h)
        · rcases List.mem_cons.1 h with rfl | h
          · exact .inl (List.mem_append_right _ List.mem_cons_self)
          · exact .inr h
  refine hfold _ [] (.inr ?_)
  exact List.mem_filterMap.2 ⟨p, hp, hgroup⟩

theorem partialFunction_ok {s : Types.Store} {naming : Naming} {visibility : String}
    {main : Option String} {p : LoweredPartial} {f : Function}
    (h : partialFunction s naming visibility main p = .ok f) :
    f.name = p.name ∧ f.lines = f.head :: (Stmt.allLines p.code ++ ["\x7d", ""]) := by
  unfold partialFunction at h
  rcases bind_eq_ok.1 h with ⟨type, _, h⟩
  cases h
  exact ⟨rfl, rfl⟩

/-- The main module holds the function of the template and those of partials without a group. -/
theorem mainModule_ok {o : Options} {naming : Naming} {l : Lowered} {m : Module}
    (h : mainModule o naming l = .ok m) :
    renderFunction l.code ∈ m.functions ∧ ∀ p ∈ l.partials, p.group = none →
      ∃ f ∈ m.functions, partialFunction l.store naming "internal" none p = .ok f := by
  unfold mainModule at h
  rcases bind_eq_ok.1 h with ⟨structs, _, h⟩
  rcases bind_eq_ok.1 h with ⟨own, hown, h⟩
  cases h
  refine ⟨List.mem_cons_self, ?_⟩
  intro p hp hgroup
  have hmem : p ∈ l.partials.filter (·.group.isNone) := by
    simp [hp, hgroup]
  rcases mem_of_mapM hown hmem with ⟨f, hf, hok⟩
  exact ⟨f, List.mem_cons_of_mem _ hf, hok⟩

/-- A library holds the functions of the partials of its group. -/
theorem groupModule_ok {o : Options} {naming : Naming} {l : Lowered} {group : String} {m : Module}
    (h : groupModule o naming l group = .ok m) {p : LoweredPartial} (hp : p ∈ l.partials)
    (hgroup : p.group = some group) :
    ∃ f ∈ m.functions, partialFunction l.store naming "external" (some o.name) p = .ok f := by
  unfold groupModule at h
  rcases bind_eq_ok.1 h with ⟨functions, hfunctions, h⟩
  cases h
  have hmem : p ∈ l.partials.filter (·.group == some group) := by
    simp [hp, hgroup]
  exact mem_of_mapM hfunctions hmem

/-- A file declares the functions of the lowered template that it was assembled for. -/
theorem assemble_declares {o : Options} {constants : List (String × String)} {naming : Naming}
    {l : Lowered} {file : SourceFile} (h : SourceFile.assemble o constants naming l = .ok file) :
    file.Declares "render" l.code ∧ ∀ p ∈ l.partials, file.Declares p.name p.code := by
  unfold SourceFile.assemble at h
  rcases bind_eq_ok.1 h with ⟨main, hmain, h⟩
  rcases bind_eq_ok.1 h with ⟨groups, hgroups, h⟩
  cases h
  rcases mainModule_ok hmain with ⟨hrender, hown⟩
  refine ⟨⟨main, List.mem_cons_self, _, hrender, rfl, rfl⟩, ?_⟩
  intro p hp
  -- a partial is written in the library of its group, or in the main module without one
  cases hgroup : p.group with
  | none =>
    rcases hown p hp hgroup with ⟨f, hf, hok⟩
    exact ⟨main, List.mem_cons_self, f, hf, partialFunction_ok hok⟩
  | some group =>
    rcases mem_of_mapM hgroups (mem_groupNames hp hgroup) with ⟨m, hm, hmodule⟩
    rcases groupModule_ok hmodule hp hgroup with ⟨f, hf, hok⟩
    exact ⟨m, List.mem_cons_of_mem _ hm, f, hf, partialFunction_ok hok⟩

end Source
end Stencil
