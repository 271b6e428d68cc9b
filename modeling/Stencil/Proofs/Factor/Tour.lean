import Mathlib.Data.List.Nodup
import Mathlib.Tactic.Common
import Stencil.Factor.Template

/-!
# The tour of a template and its partials

A template is read in the order of its statements: a block as its body and then its inverse, and a
partial where it is included first. An inclusion of a partial that has been met before is passed by,
so partials may include each other. This file defines:

* `Within P s`                           : the statement `s` stands in `P`, at any depth;
* `Reachable bodies P name`              : the partial `name` is included by `P`, or by a partial
  that `P` reaches;
* `Tour bodies met P leaves done met'`   : the statements without parts that the tour of `P` passes,
  and the partials that it completes, in order.

A tour is determined by where it starts (`Tour.unique`), and a tour on which nothing has been met
before completes exactly the partials that can be reached (`Tour.mem_done_iff`).
-/

namespace Stencil
namespace Factor

open Template (Expr Hash PathExpr Program Span Statement)

/-! ## Statements inside programs -/

/-- A statement stands in a program: among its statements, or in the branches of their blocks. -/
inductive Within : Program → Statement → Prop where
  | here {s : Statement} {rest : Program} : Within (s :: rest) s
  | later {s t : Statement} {rest : Program} : Within rest t → Within (s :: rest) t
  | body {head : PathExpr} {params : List Expr} {hash : Hash} {binders : List String}
      {body : Program} {inverse : Option Program} {span : Span} {rest : Program} {t : Statement} :
      Within body t → Within (.block head params hash binders body inverse span :: rest) t
  | inverse {head : PathExpr} {params : List Expr} {hash : Hash} {binders : List String}
      {body : Program} {otherwise : Program} {span : Span} {rest : Program} {t : Statement} :
      Within otherwise t →
        Within (.block head params hash binders body (some otherwise) span :: rest) t

/-- A program includes a partial. -/
def Includes (program : Program) (name : String) : Prop :=
  ∃ params hash span, Within program (.inclusion name params hash span)

/-- A partial is included by a program, or by a partial that the program reaches. -/
inductive Reachable (bodies : String → Option Program) (program : Program) : String → Prop where
  | direct {name : String} : Includes program name → Reachable bodies program name
  | through {via name : String} {body : Program} :
      Reachable bodies program via → bodies via = some body → Includes body name →
        Reachable bodies program name

variable {bodies : String → Option Program} {P Q : Program} {name : String}

theorem Within.append_left {s : Statement} (h : Within P s) (Q : Program) : Within (P ++ Q) s := by
  induction h with
  | here => exact .here
  | later _ ih => exact .later ih
  | body h _ => exact .body h
  | inverse h _ => exact .inverse h

theorem Within.append_right {s : Statement} (h : Within Q s) (P : Program) :
    Within (P ++ Q) s := by
  induction P with
  | nil => exact h
  | cons t P ih => exact .later ih

theorem Within.inverse_getD {head : PathExpr} {params : List Expr} {hash : Hash}
    {binders : List String} {body : Program} {inverse : Option Program} {span : Span}
    {rest : Program} {t : Statement} (h : Within (inverse.getD []) t) :
    Within (.block head params hash binders body inverse span :: rest) t := by
  cases inverse with
  | none => cases h
  | some otherwise => exact .inverse h

theorem Includes.mono (hwithin : ∀ s, Within P s → Within Q s) (h : Includes P name) :
    Includes Q name := by
  obtain ⟨params, hash, span, h⟩ := h
  exact ⟨params, hash, span, hwithin _ h⟩

namespace Reachable

theorem mono (hwithin : ∀ s, Within P s → Within Q s) (h : Reachable bodies P name) :
    Reachable bodies Q name := by
  induction h with
  | direct h => exact .direct (h.mono hwithin)
  | through _ hbody h ih => exact .through ih hbody h

/-- What the body of a partial reaches is reached by those that reach the partial. -/
theorem trans {via : String} {body : Program} (hvia : Reachable bodies P via)
    (hbody : bodies via = some body) (h : Reachable bodies body name) :
    Reachable bodies P name := by
  induction h with
  | direct h => exact .through hvia hbody h
  | through _ hbody' h ih => exact .through ih hbody' h

end Reachable

/-! ## The tour -/

/-- A statement that neither has parts nor leads to a partial. -/
def isLeaf : Statement → Bool
  | .block .. => false
  | .inclusion .. => false
  | _ => true

/-- The tour of a program, where `met` are the partials that have been met before and `met'` those
that have been met after it. A partial that is met first is completed before the tour goes on. -/
inductive Tour (bodies : String → Option Program) :
    List String → Program → List Statement → List String → List String → Prop where
  | nil {met : List String} : Tour bodies met [] [] [] met
  | leaf {met met' : List String} {s : Statement} {rest : Program} {leaves : List Statement}
      {done : List String} :
      isLeaf s = true → Tour bodies met rest leaves done met' →
        Tour bodies met (s :: rest) (s :: leaves) done met'
  | block {met met₁ met₂ met₃ : List String} {head : PathExpr} {params : List Expr} {hash : Hash}
      {binders : List String} {body : Program} {inverse : Option Program} {span : Span}
      {rest : Program} {l₁ l₂ l₃ : List Statement} {d₁ d₂ d₃ : List String} :
      Tour bodies met body l₁ d₁ met₁ → Tour bodies met₁ (inverse.getD []) l₂ d₂ met₂ →
        Tour bodies met₂ rest l₃ d₃ met₃ →
        Tour bodies met (.block head params hash binders body inverse span :: rest)
          (l₁ ++ (l₂ ++ l₃)) (d₁ ++ (d₂ ++ d₃)) met₃
  | again {met met' : List String} {name : String} {params : List Expr} {hash : Hash}
      {span : Span} {rest : Program} {leaves : List Statement} {done : List String} :
      name ∈ met → Tour bodies met rest leaves done met' →
        Tour bodies met (.inclusion name params hash span :: rest) leaves done met'
  | first {met met₁ met₂ : List String} {name : String} {params : List Expr} {hash : Hash}
      {span : Span} {body rest : Program} {l₁ l₂ : List Statement} {d₁ d₂ : List String} :
      name ∉ met → bodies name = some body → Tour bodies (name :: met) body l₁ d₁ met₁ →
        Tour bodies met₁ rest l₂ d₂ met₂ →
        Tour bodies met (.inclusion name params hash span :: rest)
          (l₁ ++ l₂) (d₁ ++ name :: d₂) met₂

namespace Tour

variable {met met' met'' : List String} {leaves leaves' : List Statement} {done done' : List String}

theorem append (h : Tour bodies met P leaves done met')
    (hrest : Tour bodies met' Q leaves' done' met'') :
    Tour bodies met (P ++ Q) (leaves ++ leaves') (done ++ done') met'' := by
  induction h with
  | nil => exact hrest
  | leaf hs _ ih => exact .leaf hs (ih hrest)
  | block hbody hinverse _ _ _ ih =>
    simpa only [List.append_assoc, List.cons_append] using
      Tour.block hbody hinverse (ih hrest)
  | again hmem _ ih => exact .again hmem (ih hrest)
  | first hmem hname hbody _ _ ih =>
    simpa only [List.append_assoc, List.cons_append] using Tour.first hmem hname hbody (ih hrest)

/-- A tour is determined by where it starts. -/
theorem unique (h : Tour bodies met P leaves done met')
    (h' : Tour bodies met P leaves' done' met'') :
    leaves = leaves' ∧ done = done' ∧ met' = met'' := by
  induction h generalizing leaves' done' met'' with
  | nil =>
    cases h' with
    | nil => exact ⟨rfl, rfl, rfl⟩
  | leaf hs _ ih =>
    cases h' with
    | leaf _ h' =>
      obtain ⟨rfl, rfl, rfl⟩ := ih h'
      exact ⟨rfl, rfl, rfl⟩
    | block => cases hs
    | again => cases hs
    | first => cases hs
  | block _ _ _ ihbody ihinverse ih =>
    cases h' with
    | leaf hs => cases hs
    | block hbody hinverse h' =>
      obtain ⟨rfl, rfl, rfl⟩ := ihbody hbody
      obtain ⟨rfl, rfl, rfl⟩ := ihinverse hinverse
      obtain ⟨rfl, rfl, rfl⟩ := ih h'
      exact ⟨rfl, rfl, rfl⟩
  | again hmem _ ih =>
    cases h' with
    | leaf hs => cases hs
    | again _ h' => exact ih h'
    | first hnew => exact absurd hmem hnew
  | first hnew hname _ _ ihbody ih =>
    cases h' with
    | leaf hs => cases hs
    | again hmem => exact absurd hmem hnew
    | first _ hname' hbody h' =>
      obtain rfl := Option.some.inj (hname.symm.trans hname')
      obtain ⟨rfl, rfl, rfl⟩ := ihbody hbody
      obtain ⟨rfl, rfl, rfl⟩ := ih h'
      exact ⟨rfl, rfl, rfl⟩

/-! ## What a tour meets -/

/-- After a tour, what had been met before has been met, and what it has completed. -/
theorem mem_met_iff (h : Tour bodies met P leaves done met') (x : String) :
    x ∈ met' ↔ x ∈ done ∨ x ∈ met := by
  induction h with
  | nil => simp
  | leaf _ _ ih => exact ih
  | block _ _ _ ihbody ihinverse ih =>
    rw [ih, ihinverse, ihbody]
    simp only [List.mem_append, or_assoc, or_left_comm]
  | again _ _ ih => exact ih
  | first _ _ _ _ ihbody ih =>
    rw [ih, ihbody]
    simp only [List.mem_append, List.mem_cons, or_assoc, or_left_comm]

theorem mem_of_met (h : Tour bodies met P leaves done met') {x : String} (hx : x ∈ met) :
    x ∈ met' :=
  (h.mem_met_iff x).2 (.inr hx)

theorem mem_of_done (h : Tour bodies met P leaves done met') {x : String} (hx : x ∈ done) :
    x ∈ met' :=
  (h.mem_met_iff x).2 (.inl hx)

/-- A tour completes only what has not been met before. -/
theorem not_mem_met (h : Tour bodies met P leaves done met') {x : String} (hx : x ∈ done) :
    x ∉ met := by
  induction h with
  | nil => cases hx
  | leaf _ _ ih => exact ih hx
  | block hbody hinverse _ ihbody ihinverse ih =>
    intro hmet
    rcases List.mem_append.1 hx with hx | hx
    · exact ihbody hx hmet
    · rcases List.mem_append.1 hx with hx | hx
      · exact ihinverse hx (hbody.mem_of_met hmet)
      · exact ih hx (hinverse.mem_of_met (hbody.mem_of_met hmet))
  | again _ _ ih => exact ih hx
  | first hnew _ hbody _ ihbody ih =>
    intro hmet
    rcases List.mem_append.1 hx with hx | hx
    · exact ihbody hx (List.mem_cons_of_mem _ hmet)
    · rcases List.mem_cons.1 hx with rfl | hx
      · exact hnew hmet
      · exact ih hx (hbody.mem_of_met (List.mem_cons_of_mem _ hmet))

/-- Two tours, one after the other, complete different partials. -/
theorem disjoint_done (h : Tour bodies met P leaves done met')
    (hrest : Tour bodies met' Q leaves' done' met'') : done.Disjoint done' := by
  intro x hx hx'
  exact hrest.not_mem_met hx' (h.mem_of_done hx)

theorem nodup_done (h : Tour bodies met P leaves done met') : done.Nodup := by
  induction h with
  | nil => exact List.nodup_nil
  | leaf _ _ ih => exact ih
  | block hbody hinverse hrest ihbody ihinverse ih =>
    have hlast := List.nodup_append'.2 ⟨ihinverse, ih, hinverse.disjoint_done hrest⟩
    refine List.nodup_append'.2 ⟨ihbody, hlast, ?_⟩
    intro x hx hx'
    rcases List.mem_append.1 hx' with hx' | hx'
    · exact hbody.disjoint_done hinverse hx hx'
    · exact hrest.not_mem_met hx' (hinverse.mem_of_met (hbody.mem_of_done hx))
  | again _ _ ih => exact ih
  | first _ _ hbody hrest ihbody ih =>
    have hname := hbody.mem_of_met List.mem_cons_self
    have hlast := List.nodup_cons.2 ⟨fun hx => hrest.not_mem_met hx hname, ih⟩
    refine List.nodup_append'.2 ⟨ihbody, hlast, ?_⟩
    intro x hx hx'
    rcases List.mem_cons.1 hx' with rfl | hx'
    · exact hbody.not_mem_met hx List.mem_cons_self
    · exact hbody.disjoint_done hrest hx hx'

/-! ## What a tour reaches -/

/-- All that a program includes has been met after its tour. -/
theorem met_of_includes (h : Tour bodies met P leaves done met') (hname : Includes P name) :
    name ∈ met' := by
  obtain ⟨params, hash, span, hwithin⟩ := hname
  induction h with
  | nil => cases hwithin
  | leaf hs _ ih =>
    cases hwithin with
    | here => cases hs
    | later hwithin => exact ih hwithin
    | body => cases hs
    | inverse => cases hs
  | block hbody hinverse hrest ihbody ihinverse ih =>
    cases hwithin with
    | later hwithin => exact ih hwithin
    | body hwithin => exact hrest.mem_of_met (hinverse.mem_of_met (ihbody hwithin))
    | inverse hwithin => exact hrest.mem_of_met (ihinverse hwithin)
  | again hmem hrest ih =>
    cases hwithin with
    | here => exact hrest.mem_of_met hmem
    | later hwithin => exact ih hwithin
  | first _ _ hbody hrest _ ih =>
    cases hwithin with
    | here => exact hrest.mem_of_met (hbody.mem_of_met List.mem_cons_self)
    | later hwithin => exact ih hwithin

/-- A partial that a tour completes has a body, and all that this includes has been met too. -/
theorem body_of_done (h : Tour bodies met P leaves done met') {x : String} (hx : x ∈ done) :
    ∃ body, bodies x = some body ∧ ∀ name, Includes body name → name ∈ met' := by
  induction h with
  | nil => cases hx
  | leaf _ _ ih => exact ih hx
  | block _ hinverse hrest ihbody ihinverse ih =>
    rcases List.mem_append.1 hx with hx | hx
    · obtain ⟨body, hx, hmet⟩ := ihbody hx
      exact ⟨body, hx, fun name h => hrest.mem_of_met (hinverse.mem_of_met (hmet name h))⟩
    · rcases List.mem_append.1 hx with hx | hx
      · obtain ⟨body, hx, hmet⟩ := ihinverse hx
        exact ⟨body, hx, fun name h => hrest.mem_of_met (hmet name h)⟩
      · exact ih hx
  | again _ _ ih => exact ih hx
  | first _ hname hbody hrest ihbody ih =>
    rcases List.mem_append.1 hx with hx | hx
    · obtain ⟨body, hx, hmet⟩ := ihbody hx
      exact ⟨body, hx, fun name h => hrest.mem_of_met (hmet name h)⟩
    · rcases List.mem_cons.1 hx with rfl | hx
      · exact ⟨_, hname, fun name h => hrest.mem_of_met (hbody.met_of_includes h)⟩
      · exact ih hx

theorem reachable_of_done (h : Tour bodies met P leaves done met') {x : String} (hx : x ∈ done) :
    Reachable bodies P x := by
  induction h with
  | nil => cases hx
  | leaf _ _ ih => exact (ih hx).mono fun _ => .later
  | block _ _ _ ihbody ihinverse ih =>
    rcases List.mem_append.1 hx with hx | hx
    · exact (ihbody hx).mono fun _ => .body
    · rcases List.mem_append.1 hx with hx | hx
      · exact (ihinverse hx).mono fun _ => .inverse_getD
      · exact (ih hx).mono fun _ => .later
  | again _ _ ih => exact (ih hx).mono fun _ => .later
  | @first _ _ _ name params hash span _ rest _ _ _ _ _ hname _ _ ihbody ih =>
    have hdirect : Reachable bodies (.inclusion name params hash span :: rest) name :=
      .direct ⟨_, _, _, .here⟩
    rcases List.mem_append.1 hx with hx | hx
    · exact hdirect.trans hname (ihbody hx)
    · rcases List.mem_cons.1 hx with rfl | hx
      · exact hdirect
      · exact (ih hx).mono fun _ => .later

/-- A tour on which nothing has been met before completes what can be reached. -/
theorem mem_done_iff (h : Tour bodies [] P leaves done met') (x : String) :
    x ∈ done ↔ Reachable bodies P x := by
  have hmet : ∀ y, y ∈ met' ↔ y ∈ done := by
    intro y
    simpa using h.mem_met_iff y
  constructor
  · exact h.reachable_of_done
  · intro hx
    induction hx with
    | direct hx => exact (hmet _).1 (h.met_of_includes hx)
    | through _ hvia hx ih =>
      obtain ⟨body, hbody, hincluded⟩ := h.body_of_done ih
      obtain rfl := Option.some.inj (hvia.symm.trans hbody)
      exact (hmet _).1 (hincluded _ hx)

/-- The statements of a tour stand in the program or in the body of a partial. -/
theorem all_leaves {p : Statement → Prop} (h : Tour bodies met P leaves done met')
    (hprogram : ∀ s, Within P s → p s)
    (hbodies : ∀ name body, bodies name = some body → ∀ s, Within body s → p s) :
    ∀ s ∈ leaves, p s := by
  induction h with
  | nil =>
    intro s hs
    cases hs
  | leaf _ _ ih =>
    intro s hs
    rcases List.mem_cons.1 hs with rfl | hs
    · exact hprogram _ .here
    · exact ih (fun t ht => hprogram t (.later ht)) s hs
  | block _ _ _ ihbody ihinverse ih =>
    intro s hs
    rcases List.mem_append.1 hs with hs | hs
    · exact ihbody (fun t ht => hprogram t (.body ht)) s hs
    · rcases List.mem_append.1 hs with hs | hs
      · exact ihinverse (fun t ht => hprogram t (.inverse_getD ht)) s hs
      · exact ih (fun t ht => hprogram t (.later ht)) s hs
  | again _ _ ih => exact ih fun t ht => hprogram t (.later ht)
  | first _ hname _ _ ihbody ih =>
    intro s hs
    rcases List.mem_append.1 hs with hs | hs
    · exact ihbody (hbodies _ _ hname) s hs
    · exact ih (fun t ht => hprogram t (.later ht)) s hs

end Tour

/-! ## How many partials are left -/

/-- How many of the keys have not been met. -/
def unmet (keys met : List String) : Nat := keys.countP (· ∉ met)

theorem unmet_le (keys : List String) {met met' : List String} (h : ∀ x ∈ met, x ∈ met') :
    unmet keys met' ≤ unmet keys met := by
  apply List.countP_mono_left
  intro x _ hx
  simp only [decide_eq_true_eq] at hx ⊢
  exact fun hmet => hx (h x hmet)

/-- Meeting a key leaves fewer of them. -/
theorem unmet_lt {keys met : List String} {x : String} (hkey : x ∈ keys) (hnew : x ∉ met) :
    unmet keys (x :: met) < unmet keys met := by
  obtain ⟨before, after, rfl⟩ := List.append_of_mem hkey
  have hmore : ∀ y ∈ met, y ∈ x :: met := fun y => List.mem_cons_of_mem x
  have hbefore := unmet_le before hmore
  have hafter := unmet_le after hmore
  unfold unmet at hbefore hafter ⊢
  simp only [List.countP_append, List.countP_cons, List.mem_cons_self, hnew, not_true,
    not_false_eq_true, decide_true, decide_false, if_true, Bool.false_eq_true, if_false]
  omega

end Factor
end Stencil
