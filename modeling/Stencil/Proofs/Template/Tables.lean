import Mathlib.Data.String.Basic
import Mathlib.Tactic.Common
import Stencil.Compile
import Stencil.Proofs.Factor.Reading
import Stencil.Proofs.Results

/-!
# The order of keyword arguments

The keyword arguments of a tag come out of a table that has no order of its own, so that the same
text may be split into trees in which they stand differently. This file defines:

* `Alike` : for parameters, tables, calls and elements, to differ in the order of tables only.

Alike trees are read as the same program, or none of them can be read (`ElementsAlike.statements`).
What is compiled is the same then (`compileWith_alike`): the order decides at most which of several
faults is reported.
-/

namespace Stencil
namespace Template

open Results (toOption_bind toOption_map)

mutual

inductive Parameter.Alike : Parameter → Parameter → Prop where
  | refl (p : Parameter) : Parameter.Alike p p
  | call {head head' : Parameter} {params params' : List Parameter}
      {hash hash' : List (String × Parameter)} :
      Parameter.Alike head head' → ParametersAlike params params' → TableAlike hash hash' →
        Parameter.Alike (.call head params hash) (.call head' params' hash')

inductive ParametersAlike : List Parameter → List Parameter → Prop where
  | nil : ParametersAlike [] []
  | cons {p p' : Parameter} {rest rest' : List Parameter} :
      Parameter.Alike p p' → ParametersAlike rest rest' →
        ParametersAlike (p :: rest) (p' :: rest')

/-- Tables with alike values for the same keys, in any order. -/
inductive TableAlike : List (String × Parameter) → List (String × Parameter) → Prop where
  | nil : TableAlike [] []
  | cons {key : String} {p p' : Parameter} {rest rest' : List (String × Parameter)} :
      Parameter.Alike p p' → TableAlike rest rest' →
        TableAlike ((key, p) :: rest) ((key, p') :: rest')
  | swap {e e' : String × Parameter} {rest : List (String × Parameter)} :
      e.1 ≠ e'.1 → TableAlike (e :: e' :: rest) (e' :: e :: rest)
  | trans {t t' t'' : List (String × Parameter)} :
      TableAlike t t' → TableAlike t' t'' → TableAlike t t''

end

theorem TableAlike.refl : (t : List (String × Parameter)) → TableAlike t t
  | [] => .nil
  | (_, p) :: rest => .cons (.refl p) (.refl rest)

/-- Tables with the same entries for different keys. -/
theorem TableAlike.of_perm {t t' : List (String × Parameter)} (h : t.Perm t')
    (hkeys : (t.map (·.1)).Nodup) : TableAlike t t' := by
  induction h with
  | nil => exact .nil
  | cons e _ ih => exact .cons (.refl e.2) (ih (List.nodup_cons.1 hkeys).2)
  | swap e e' rest =>
    have hne : e'.1 ∉ (e :: rest).map (·.1) := (List.nodup_cons.1 hkeys).1
    exact .swap fun heq => hne (heq ▸ List.mem_cons_self)
  | trans hperm _ ih ih' => exact (ih hkeys).trans (ih' ((hperm.map (·.1)).nodup_iff.1 hkeys))

structure Call.Alike (c c' : Call) : Prop where
  head : c.head.Alike c'.head
  params : ParametersAlike c.params c'.params
  hash : TableAlike c.hash c'.hash

mutual

inductive Element.Alike : Element → Element → Prop where
  | refl (e : Element) : Element.Alike e e
  | output {c c' : Call} {escaped : Bool} {span : Span} :
      c.Alike c' → Element.Alike (.output c escaped span) (.output c' escaped span)
  | inclusion {c c' : Call} {span : Span} :
      c.Alike c' → Element.Alike (.inclusion c span) (.inclusion c' span)
  | block {c c' : Call} {binders : Binders} {body body' inverse inverse' : Option (List Element)}
      {span : Span} :
      c.Alike c' → BranchAlike body body' → BranchAlike inverse inverse' →
        Element.Alike (.block c binders body inverse span) (.block c' binders body' inverse' span)

inductive ElementsAlike : List Element → List Element → Prop where
  | nil : ElementsAlike [] []
  | cons {e e' : Element} {rest rest' : List Element} :
      Element.Alike e e' → ElementsAlike rest rest' → ElementsAlike (e :: rest) (e' :: rest')

inductive BranchAlike : Option (List Element) → Option (List Element) → Prop where
  | none : BranchAlike none none
  | some {es es' : List Element} : ElementsAlike es es' → BranchAlike (some es) (some es')

end

/-! ## Tables -/

theorem insertByKey_of_lt {entry e : String × Expr} (h : e.1 < entry.1) (rest : Hash) :
    insertByKey entry (e :: rest) = e :: insertByKey entry rest :=
  if_pos h

theorem insertByKey_of_not_lt {entry e : String × Expr} (h : ¬ e.1 < entry.1) (rest : Hash) :
    insertByKey entry (e :: rest) = entry :: e :: rest :=
  if_neg h

/-- An argument is put behind one with a smaller key, whichever of them comes first. -/
theorem insertByKey_comm_of_lt {a b : String × Expr} (h : a.1 < b.1) (entries : Hash) :
    insertByKey a (insertByKey b entries) = insertByKey b (insertByKey a entries) := by
  have hba : ¬ b.1 < a.1 := lt_asymm h
  induction entries with
  | nil => exact (insertByKey_of_not_lt hba []).trans (insertByKey_of_lt h []).symm
  | cons e rest ih =>
    by_cases ha : e.1 < a.1
    · have hb : e.1 < b.1 := lt_trans ha h
      rw [insertByKey_of_lt hb, insertByKey_of_lt ha, insertByKey_of_lt ha, insertByKey_of_lt hb,
        ih]
    · -- `a` stays in front here, and `b` is put in behind it
      rw [insertByKey_of_not_lt ha, insertByKey_of_lt h]
      by_cases hb : e.1 < b.1
      · rw [insertByKey_of_lt hb, insertByKey_of_not_lt ha]
      · rw [insertByKey_of_not_lt hb, insertByKey_of_not_lt hba]

theorem insertByKey_comm {a b : String × Expr} (h : a.1 ≠ b.1) (entries : Hash) :
    insertByKey a (insertByKey b entries) = insertByKey b (insertByKey a entries) := by
  rcases lt_or_gt_of_ne h with hlt | hlt
  · exact insertByKey_comm_of_lt hlt entries
  · exact (insertByKey_comm_of_lt hlt entries).symm

variable (span : Span)

/-- The keyword arguments of a table, if all of them can be read. -/
def tableEntries (t : List (String × Parameter)) : Option Hash :=
  (Parameter.entries span t).toOption.map sortByKey

theorem tableEntries_cons (key : String) (p : Parameter) (rest : List (String × Parameter)) :
    tableEntries span ((key, p) :: rest) =
      (p.expr span).toOption.bind fun e =>
        (tableEntries span rest).map (insertByKey (key, e)) := by
  unfold tableEntries
  rw [Parameter.entries]
  cases p.expr span with
  | error fault => rfl
  | ok e =>
    cases Parameter.entries span rest with
    | error fault => rfl
    | ok entries => rfl

theorem tableEntries_swap {e e' : String × Parameter} (h : e.1 ≠ e'.1)
    (rest : List (String × Parameter)) :
    tableEntries span (e :: e' :: rest) = tableEntries span (e' :: e :: rest) := by
  obtain ⟨key, p⟩ := e
  obtain ⟨key', p'⟩ := e'
  simp only [tableEntries_cons]
  cases (p.expr span).toOption with
  | none =>
    cases (p'.expr span).toOption with
    | none => rfl
    | some y => rfl
  | some x =>
    cases (p'.expr span).toOption with
    | none => rfl
    | some y =>
      cases tableEntries span rest with
      | none => rfl
      | some entries => exact congrArg some (insertByKey_comm h entries)

theorem expr_call (head : Parameter) (params : List Parameter) (hash : List (String × Parameter)) :
    ((Parameter.call head params hash).expr span).toOption =
      (head.expr span).toOption.bind fun h =>
        (Parameter.exprs span params).toOption.bind fun ps =>
          (tableEntries span hash).map (Expr.call h ps) := by
  simp only [Parameter.expr, toOption_bind]
  congr
  funext h
  congr
  funext ps
  unfold tableEntries
  cases Parameter.entries span hash with
  | error fault => rfl
  | ok entries => rfl

mutual

theorem Parameter.Alike.expr : {p p' : Parameter} → p.Alike p' →
    (p.expr span).toOption = (p'.expr span).toOption
  | _, _, .refl _ => rfl
  | _, _, .call hhead hparams hhash => by
    rw [expr_call, expr_call, hhead.expr, hparams.exprs, hhash.tableEntries]

theorem ParametersAlike.exprs : {ps ps' : List Parameter} → ParametersAlike ps ps' →
    (Parameter.exprs span ps).toOption = (Parameter.exprs span ps').toOption
  | _, _, .nil => rfl
  | _, _, .cons hp hrest => by
    simp only [Parameter.exprs, toOption_bind, hp.expr, hrest.exprs]

theorem TableAlike.tableEntries : {t t' : List (String × Parameter)} → TableAlike t t' →
    Template.tableEntries span t = Template.tableEntries span t'
  | _, _, .nil => rfl
  | _, _, .cons hp hrest => by
    simp only [tableEntries_cons, hp.expr, hrest.tableEntries]
  | _, _, .swap hne => tableEntries_swap span hne _
  | _, _, .trans h h' => h.tableEntries.trans h'.tableEntries

end

-- with two faults in a table, its order decides which one is reported
example :
    Parameter.entries {} [("a", .literal (.array [])), ("b", .reference "@this")] =
      .error (.unsupported .structuredLiteral) ∧
    Parameter.entries {} [("b", .reference "@this"), ("a", .literal (.array []))] =
      .error (.parse (.invalidDataVariable "@this") {}) :=
  ⟨rfl, rfl⟩

/-! ## Elements -/

/-- Neither name of a partial nor of a block is a call, so that there is no table in them. -/
theorem Parameter.Alike.names {p p' : Parameter} (h : p.Alike p') :
    partialName p = partialName p' ∧ blockName p = blockName p' := by
  cases h with
  | refl => exact ⟨rfl, rfl⟩
  | call => exact ⟨rfl, rfl⟩

theorem Call.Alike.entries {c c' : Call} (h : c.Alike c') :
    (c.entries span).toOption = (c'.entries span).toOption := by
  unfold Call.entries
  rw [toOption_map, toOption_map]
  exact h.hash.tableEntries span

mutual

theorem Element.Alike.statement : {e e' : Element} → e.Alike e' →
    e.statement.toOption = e'.statement.toOption
  | _, _, .refl _ => rfl
  | _, _, .output hc => by
    simp only [Element.statement, toOption_bind, hc.head.expr, hc.params.exprs,
      hc.entries]
  | _, _, .inclusion hc => by
    simp only [Element.statement, toOption_bind, hc.head.names.1, hc.params.exprs, hc.entries]
  | _, _, .block hc hbody hinverse => by
    simp only [Element.statement, toOption_bind, hc.head.names.2, hbody.branch, hinverse.branch,
      hc.params.exprs, hc.entries]

theorem ElementsAlike.statements : {es es' : List Element} → ElementsAlike es es' →
    (Element.statements es).toOption = (Element.statements es').toOption
  | _, _, .nil => rfl
  | _, _, .cons he hrest => by
    simp only [Element.statements, toOption_bind, he.statement, hrest.statements]

theorem BranchAlike.branch : {b b' : Option (List Element)} → BranchAlike b b' →
    (Element.branch b).toOption = (Element.branch b').toOption
  | _, _, .none => rfl
  | _, _, .some hes => by
    simp only [Element.branch, toOption_bind, hes.statements]

end

/-! ## Templates -/

/-- Trees that are alike, or no tree on either side. -/
def SplitAlike (x x' : Except Error (List Element)) : Prop :=
  (∃ es es', x = .ok es ∧ x' = .ok es' ∧ ElementsAlike es es') ∨
    ∃ fault fault', x = .error fault ∧ x' = .error fault'

theorem parseWith_alike {split split' : String → Except Error (List Element)} {source : String}
    (h : SplitAlike (split source) (split' source)) :
    (parseWith split source).toOption = (parseWith split' source).toOption := by
  unfold parseWith
  rw [toOption_bind, toOption_bind]
  rcases h with ⟨es, es', hsplit, hsplit', h⟩ | ⟨_, _, hsplit, hsplit'⟩
  · rw [hsplit, hsplit']
    exact h.statements
  · rw [hsplit, hsplit']
    rfl

end Template

open Template (Element SplitAlike parseWith parseWith_alike)

/-- The order of tables does not show in what is compiled. -/
theorem compileWith_alike {split split' : String → Except Error (List Element)}
    (h : ∀ source, SplitAlike (split source) (split' source))
    (format : Source.Style → String → Except Error String) (o : Options) (template : String) :
    (compileWith format o template (parseWith split)).toOption =
      (compileWith format o template (parseWith split')).toOption := by
  -- what follows only sees the shared template
  have hshared : (sharedTemplate o template (parseWith split)).toOption =
      (sharedTemplate o template (parseWith split')).toOption :=
    Factor.factor_congr (fun source => parseWith_alike (h _)) _ _ _
  simp only [compileWith, sourceFile, Results.toOption_bind, hshared]

end Stencil
