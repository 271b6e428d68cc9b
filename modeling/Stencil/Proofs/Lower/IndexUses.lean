import Stencil.Proofs.Lower.Standing

/-!
# What becomes of loop indices

A loop index is a number without a type of its own, so that it can be written as an unsigned number
and nothing else. This file defines:

* `UsesIndex`      : a program uses a path that starts at a loop index;
* `Use.Renders`, `Use.Refused`, `Use.Unguarded` : the ways of using such a path that write it as an
  unsigned number, those that lowering refuses, and those that nothing looks at;
* `RendersIndices` : code in which all that starts at an index is an index written as a number.

A place that is only looked from apart, every use is one of the three (`Use.index_cases`). No
template with a refused use is lowered (`Uses.not_refused`), and the unguarded uses are what keeps
code from rendering its indices. The main result is `lower_index_uses`.
-/

namespace Stencil

theorem AccessPath.isVariable_iff {path : AccessPath} :
    path.isVariable = true ↔ path.origin ≠ .input ∧ path.accessors = [] := by
  unfold isVariable
  cases path.origin with
  | input => simp
  | «variable» name => simp

theorem AccessPath.input_iff_of_outline {path other : AccessPath}
    (h : path.outline = other.outline) : path.origin = .input ↔ other.origin = .input :=
  ⟨origin_eq_of_outline h, origin_eq_of_outline h.symm⟩

theorem AccessPath.nil_iff_of_outline {path other : AccessPath}
    (h : path.outline = other.outline) : path.accessors = [] ↔ other.accessors = [] := by
  rw [← List.map_eq_nil_iff (f := Accessor.step), steps_eq_of_outline h, List.map_eq_nil_iff]

namespace Lower

open Code (Part Placed Stmt)
open Template (Expr Program Statement)
open Stencil.Types (NodeId Shape)

/-! ## Uses of indices -/

/-- A program uses a path that starts at the index of a loop. -/
def UsesIndex (P : Program) (target : AccessPath) (use : Use) : Prop :=
  Uses {} P target use ∧ target.origin ≠ .input

namespace Use

/-- An index is written as an unsigned number. -/
def Renders (use : Use) (target : AccessPath) : Prop :=
  target.accessors = [] ∧ (use = .text ∨ ∃ width, use = .number false width)

/-- What lowering refuses to do with a path that starts at an index: to pass it to a partial, and to
test an index or run over it. -/
def Refused (use : Use) (target : AccessPath) : Prop :=
  use = .context ∨ target.accessors = [] ∧ (use = .flag ∨ ∃ length, use = .items length)

/-- What lowering lets pass: an index as a signed number or as fixed bytes, and all that can be done
with a member or an element of an index. -/
def Unguarded (use : Use) (target : AccessPath) : Prop :=
  target.accessors = [] ∧ ((∃ width, use = .number true width) ∨ ∃ width, use = .bytes width) ∨
    target.accessors ≠ [] ∧ use ≠ .context ∧ use ≠ .place

theorem index_cases (use : Use) (target : AccessPath) :
    use = .place ∨ use.Renders target ∨ use.Refused target ∨ use.Unguarded target := by
  unfold Renders Refused Unguarded
  by_cases hbare : target.accessors = []
  · cases use with
    | number signed width => cases signed <;> simp [hbare]
    | _ => simp [hbare]
  · cases use <;> simp [hbare]

theorem Renders.not_unguarded {use : Use} {target : AccessPath} (h : use.Renders target) :
    ¬ use.Unguarded target := by
  obtain ⟨hbare, rfl | ⟨width, rfl⟩⟩ := h
  · simp [Unguarded, hbare]
  · simp [Unguarded, hbare]

end Use

/-- All that starts at an index is the index itself, written as an unsigned number. -/
def RendersIndices (code : List Stmt) : Prop :=
  ∀ x ∈ Stmt.allParts [] code, ∀ path ∈ x.2.paths, path.origin ≠ .input →
    path.accessors = [] ∧ ∃ decimals, x.2 = .atom (.number false path decimals)

/-! ## What is refused -/

section

variable {programs : List (String × Program)} {Γ : List Signature} {t : Shape} {scope : Scope}
  {P : Program} {s : Statement} {target : AccessPath} {use : Use}

/-- A statement that fits does not do with an index what is refused. -/
theorem Fits.not_refused (h : Fits programs Γ t scope s) (huses : TagUses scope s target use)
    (horigin : target.origin ≠ .input) : ¬ use.Refused target := by
  have hbare : ∀ {path : AccessPath}, path.isVariable = false → path.origin ≠ .input →
      path.accessors ≠ [] := by
    intro path hvariable hpath hnil
    rw [AccessPath.isVariable_iff.2 ⟨hpath, hnil⟩] at hvariable
    cases hvariable
  cases huses with
  | text => simp [Use.Refused]
  | @helper _ _ _ _ _ _ helper => cases helper <;> simp [Use.Refused, Helper.use]
  | place => simp [Use.Refused]
  | context hcontext =>
    -- the type of a context is looked up in the input, so that it has to start there
    cases h with
    | inclusion hplan hinput =>
      obtain ⟨_, _, _, _, hcontext'⟩ := inclusionPlan_eq_ok.1 hplan
      rw [hcontext] at hcontext'
      cases hcontext'
      exact absurd hinput horigin
  | @items _ _ _ binders body inverse span _ _ hkind htarget hlength =>
    cases h with
    | each _ hplan _ _ =>
      obtain ⟨huses', _, hvariable⟩ := loopPlan_uses hkind hplan binders body inverse span
      obtain ⟨rfl, _⟩ := huses'.unique (.items hkind htarget hlength)
      simp [Use.Refused, hbare hvariable horigin]
    | dive hkind' | conditional hkind' =>
      rw [hkind] at hkind'
      cases hkind'
  | @flag _ _ _ binders body inverse span _ _ hkind htarget =>
    cases h with
    | conditional hkind' hplan _ _ _ =>
      obtain ⟨huses', _, hvariable⟩ := conditionPlan_uses hkind' hplan binders body inverse span
      obtain ⟨rfl, _⟩ := huses'.unique (.flag hkind htarget)
      simp [Use.Refused, hbare hvariable horigin]
    | each hkind' | dive hkind' =>
      rw [hkind] at hkind'
      cases hkind'

theorem Use.Refused.of_outline {other : AccessPath} (h : use.Refused target)
    (houtline : target.outline = other.outline) : use.Refused other := by
  obtain hcontext | ⟨hbare, huse⟩ := h
  · exact .inl hcontext
  · exact .inr ⟨(AccessPath.nil_iff_of_outline houtline).1 hbare, huse⟩

/-- A program that fits has no use of an index that is refused. -/
theorem Uses.not_refused (h : Uses scope P target use)
    (hfits : ∀ x ∈ P, Fits programs Γ t scope x) (horigin : target.origin ≠ .input) :
    ¬ use.Refused target := by
  obtain ⟨s, inner, around, hstands, huses⟩ := h.stands []
  obtain ⟨inner', hinner, hs⟩ := hstands.fits (.refl _) hfits
  obtain ⟨target', huses', houtline⟩ := huses.parallel hinner
  intro hrefused
  have horigin' : target'.origin ≠ .input := fun hinput =>
    horigin ((AccessPath.input_iff_of_outline houtline).2 hinput)
  exact hs.not_refused huses' horigin' (hrefused.of_outline houtline)

end

/-! ## What is written -/

/-- An index that is used to be rendered is written as an unsigned number. -/
theorem Use.Renders.shown {use : Use} {path : AccessPath} {part : Part} (h : use.Renders path)
    (hshown : use.ShownBy path part) (horigin : path.origin ≠ .input) :
    ∃ decimals, part = .atom (.number false path decimals) := by
  obtain ⟨hbare, rfl | ⟨width, rfl⟩⟩ := h
  · refine ⟨0, ?_⟩
    have hvariable := AccessPath.isVariable_iff.2 ⟨horigin, hbare⟩
    simpa [Use.ShownBy, hvariable] using hshown
  · exact hshown

/-- An unguarded use of an index is not written as an unsigned number of it. -/
theorem Use.Unguarded.not_shown {use : Use} {path : AccessPath} {part : Part}
    (h : use.Unguarded path) (hshown : use.ShownBy path part) :
    ¬ (path.accessors = [] ∧ ∃ decimals, part = .atom (.number false path decimals)) := by
  rintro ⟨hbare, decimals, rfl⟩
  obtain ⟨_, ⟨width, rfl⟩ | ⟨width, rfl⟩⟩ | ⟨hne, _⟩ := h
  · obtain ⟨decimals', heq⟩ := hshown
    cases heq
  · cases hshown
  · exact hne hbare

theorem Use.Unguarded.of_outline {use : Use} {path other : AccessPath} (h : use.Unguarded path)
    (houtline : path.outline = other.outline) : use.Unguarded other := by
  unfold Use.Unguarded at h ⊢
  rwa [Ne, ← AccessPath.nil_iff_of_outline houtline]

/-- The functions of a lowered template do nothing with a loop index that is refused. They do no
more than render their indices just if they have no unguarded use; and each unguarded use, but for
a flag that may not have to be tested, is written out as it is. -/
theorem lower_index_uses {programs : List (String × Program)} {program : Program} {l : Lowered}
    (h : lower programs program = .ok l) {name : Option String} {P : Program} {code : List Stmt}
    {input : NodeId} (hroutine : Routine programs program l name P code input) :
    (∀ target use, UsesIndex P target use → ¬ use.Refused target) ∧
    (RendersIndices code ∧
        (∀ target use, UsesIndex P target use → use = .place ∨ use.Renders target) ↔
      ∀ target use, UsesIndex P target use → ¬ use.Unguarded target) ∧
    ∀ target use, UsesIndex P target use → use.Unguarded target → use ≠ .flag →
      ¬ RendersIndices code := by
  obtain ⟨v, hwritten⟩ := hroutine.writes h
  have hrefused : ∀ target use, UsesIndex P target use → ¬ use.Refused target :=
    fun target use ⟨huses, horigin⟩ => huses.not_refused (hroutine.fits h) horigin
  refine ⟨hrefused, ⟨?_, ?_⟩, ?_⟩
  · rintro ⟨_, hrenders⟩ target use huses hunguarded
    obtain rfl | hrendered := hrenders target use huses
    · simp [Use.Unguarded] at hunguarded
    · exact hrendered.not_unguarded hunguarded
  · intro hguarded
    have hrenders : ∀ target use, UsesIndex P target use → use = .place ∨ use.Renders target := by
      intro target use huses
      obtain hplace | hrendered | href | hun := use.index_cases target
      · exact .inl hplace
      · exact .inr hrendered
      · exact absurd href (hrefused target use huses)
      · exact absurd hun (hguarded target use huses)
    refine ⟨?_, hrenders⟩
    intro x hx path hpath horigin
    obtain ⟨use, huses, hshown⟩ := hwritten.used x hx path hpath
    obtain rfl | hrendered := hrenders path use ⟨huses, horigin⟩
    · exact hshown.elim
    · exact ⟨hrendered.1, hrendered.shown hshown horigin⟩
  · rintro target use ⟨huses, horigin⟩ hunguarded hflag hcode
    have hplace : use ≠ .place := by
      rintro rfl
      simp [Use.Unguarded] at hunguarded
    -- the code has it under the names that were taken for indices
    obtain ⟨x, hx, path, houtline, hshown⟩ := huses.shown hwritten hplace hflag
    have hpath : path ∈ x.2.paths := by
      rw [hshown.paths_eq]
      exact List.mem_singleton.2 rfl
    have horigin' : path.origin ≠ .input := fun hinput =>
      horigin ((AccessPath.input_iff_of_outline houtline).1 hinput)
    exact (hunguarded.of_outline houtline.symm).not_shown hshown (hcode x hx path hpath horigin')

/-- A position, as it is and as a signed number. -/
def signedPosition : Program :=
  [.interpolation (.path { written := "i", parts := ["i"] }) [] [] true {},
    .interpolation (.path { written := "int", parts := ["int"] })
      [.path { written := "i", parts := ["i"] }] [] true {}]

/-- The position of each row. -/
def signedRows : Program :=
  [.block { written := "each", parts := ["each"] }
    [.path { written := "rows", parts := ["rows"] }] [] ["row", "i"] signedPosition none {}]

/-- Rows that are numbered by a partial. -/
def signedTable : Program := [.inclusion "rows" [] [] {}]

/-- The template itself has no index to render, and its partial renders one in a wrong way. -/
theorem lower_index_uses_signed : ∃ l p, lower [("rows", signedRows)] signedTable = .ok l ∧
    p ∈ l.partials ∧ p.name = "rows" ∧ RendersIndices l.code ∧
    UsesIndex signedRows ⟨.variable "__i", []⟩ (.number true none) ∧ ¬ RendersIndices p.code := by
  have hrun : endsWith (lowerProgram [("rows", signedRows)] 0 signedTable State.initial)
      (fun st => settlesWith 1 st fun st' => st'.partials.any (·.name == "rows")) = true := by
    decide +kernel
  obtain ⟨l, st', hlower, hpartials, _, _, hrows⟩ := exists_lower_of_endsWith hrun
  obtain ⟨p, hp, hname⟩ := List.any_eq_true.1 hrows
  rw [← hpartials] at hp
  rw [beq_iff_eq] at hname
  obtain ⟨_, hmain, _⟩ := lower_index_uses hlower .main
  have hbody : ([("rows", signedRows)] : List (String × Program)).lookup p.name =
      some signedRows := by
    rw [hname]
    rfl
  obtain ⟨_, _, hpart⟩ := lower_index_uses hlower (.part hp hbody)
  have hrowsOf : (pathArgument [.path { written := "rows", parts := ["rows"] }] "each" >>=
      ({} : Scope).resolve) = .ok ⟨.input, [.member "rows"]⟩ := by
    decide +kernel
  have hposition : Uses (loopScope {} ["row", "i"] ⟨.input, [.member "rows"]⟩ "__i")
      signedPosition ⟨.variable "__i", []⟩ (Helper.use (.integer true none)) :=
    .later (.helper (by decide +kernel) (by decide +kernel))
  have hsigned : UsesIndex signedRows ⟨.variable "__i", []⟩ (.number true none) :=
    ⟨.inLoop (by decide +kernel) hrowsOf hposition, by simp⟩
  refine ⟨l, p, hlower, hp, hname, (hmain.2 ?_).1, hsigned, ?_⟩
  · -- the only tag passes the input on
    rintro target use ⟨huses, horigin⟩
    cases huses with
    | later hrest => cases hrest
    | context hcontext =>
      cases hcontext
      exact absurd rfl horigin
  · exact hpart _ _ hsigned (.inl ⟨rfl, .inl ⟨none, rfl⟩⟩) (by simp)

end Lower
end Stencil
