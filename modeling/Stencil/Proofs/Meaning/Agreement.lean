import Stencil.Proofs.Meaning.Execute
import Stencil.Proofs.Meaning.Interpret

/-!
# Agreement of text and code

Generated code agrees with a template if it has the template's text as its result. Where the
template looks for an element that is missing there is no text; the code may then fail for the
same reason, or have a result if it does not look at that element.

This file defines:

* `Agrees` : agreement of two outcomes;
* `Yields` : code that appends the given text to any result so far.

There is a rule for each way in which code is put together: in order (`Yields.seq`), by loops
(`Yields.loop`) and by conditions (`Yields.conditional`).
-/

namespace Stencil
namespace Meaning

open Code (Atom Fragment Output Stmt closeAppends)
open Lower (Branch CodeOutput conditional)

variable {α β : Type}

/-- The second outcome is the first one, or the first one fails for an element that is missing. -/
def Agrees (text code : Outcome α) : Prop :=
  (∃ a, text = .ok a ∧ code = .ok a) ∨ (text = .error .outOfRange ∧ code ≠ .error .stuck)

namespace Agrees

theorem ok (a : α) : Agrees (.ok a) (.ok a) :=
  .inl ⟨a, rfl, rfl⟩

theorem missing : Agrees (.error .outOfRange : Outcome α) (.error .outOfRange) :=
  .inr ⟨rfl, by simp⟩

/-- A result that is there unless an element is missing agrees with itself. -/
theorem of_read {o : Outcome α} (h : (∃ a, o = .ok a) ∨ o = .error .outOfRange) : Agrees o o := by
  rcases h with ⟨a, rfl⟩ | rfl
  · exact .ok a
  · exact .missing

theorem ne_stuck {text code : Outcome α} (h : Agrees text code) : code ≠ .error .stuck := by
  rcases h with ⟨a, _, rfl⟩ | ⟨_, hne⟩
  · simp
  · exact hne

theorem bind {text code : Outcome α} {f g : α → Outcome β} (h : Agrees text code)
    (hfg : ∀ a, Agrees (f a) (g a)) : Agrees (text >>= f) (code >>= g) := by
  rcases h with ⟨a, rfl, rfl⟩ | ⟨rfl, hne⟩
  · exact hfg a
  · -- the code may have gone on with some result of its own
    refine .inr ⟨rfl, ?_⟩
    cases code with
    | ok a => exact (hfg a).ne_stuck
    | error e =>
      rintro ⟨⟩
      exact hne rfl

theorem map {text code : Outcome α} (h : Agrees text code) (f : α → β) :
    Agrees (f <$> text) (f <$> code) := by
  rw [map_eq_pure_bind, map_eq_pure_bind]
  exact h.bind fun a => ok (f a)

end Agrees

/-- Code that appends the given text to any result so far. -/
def Yields (text : Outcome Bytes) (code : Bytes → Outcome Bytes) : Prop :=
  ∀ result, Agrees ((result ++ ·) <$> text) (code result)

namespace Yields

variable {text text' : Outcome Bytes} {code code' : Bytes → Outcome Bytes}

theorem nil : Yields (.ok []) .ok := by
  intro result
  change Agrees (.ok (result ++ [])) (.ok result)
  rw [List.append_nil]
  exact .ok result

/-- From an empty result, the code has the text itself as its result. -/
theorem agrees (h : Yields text code) : Agrees text (code []) := by
  have hnil := h []
  rw [show (fun bytes : Bytes => [] ++ bytes) = id from rfl, id_map] at hnil
  exact hnil

/-- One after the other. -/
theorem seq (h : Yields text code) (h' : Yields text' code') :
    Yields (do let first ← text; return first ++ (← text')) (fun result => code result >>= code') := by
  intro result
  have hsplit : ((result ++ ·) <$> do let first ← text; return first ++ (← text')) =
      ((result ++ ·) <$> text) >>= fun next => (next ++ ·) <$> text' := by
    cases text with
    | error e => rfl
    | ok first =>
      cases text' with
      | error e => rfl
      | ok second =>
        change Except.ok (result ++ (first ++ second)) = Except.ok (result ++ first ++ second)
        rw [List.append_assoc]
  rw [hsplit]
  exact (h result).bind h'

/-- A loop whose body appends the text of each element. -/
theorem loop {each : Nat → Value → Outcome Bytes} {body : Nat → Bytes → Outcome Bytes} {k : Nat}
    {xs : List Value} (h : ∀ i x, xs[i]? = some x → Yields (each (k + i) x) (body (k + i))) :
    Yields (forEach each k xs) (runLoop body k xs.length) := by
  induction xs generalizing k with
  | nil => exact nil
  | cons x xs ih =>
    have hfirst : Yields (each k x) (body k) := h 0 x rfl
    have hrest : Yields (forEach each (k + 1) xs) (runLoop body (k + 1) xs.length) := by
      refine ih ?_
      intro i y hy
      rw [Nat.add_right_comm]
      exact h (i + 1) y hy
    exact hfirst.seq hrest

end Yields

/-! ## Appends -/

section

variable {set : Setting} {call : Option String → String → Value → Outcome Bytes} {env : Env}
  {text : Outcome Bytes}

theorem runStmts_singleton (item : Fragment) (result : Bytes) :
    runStmts set call env [.append [item]] result =
      (result ++ ·) <$> runFragment set call env item := by
  simp only [runStmts, runStmt, runFragments]
  cases runFragment set call env item with
  | error e => rfl
  | ok bytes => simp [bind, Except.bind, pure, Except.pure, Functor.map, Except.map]

/-- An expression that is appended by itself. -/
theorem yields_append {item : Fragment} (h : Agrees text (runFragment set call env item)) :
    Yields text (runStmts set call env [.append [item]]) := by
  intro result
  rw [runStmts_singleton]
  exact h.map (result ++ ·)

/-! ## Conditions -/

theorem code_of (body : Template.Program) (outputs : List CodeOutput) :
    runStmts set call env (Branch.of body outputs).code =
      runStmts set call env (outputCode outputs) := by
  unfold Branch.of
  -- only statements have their appends joined; a single expression is kept for a ternary
  split
  · rfl
  · split
    · exact runStmts_closeAppends _
    · rfl
  · exact runStmts_closeAppends _

theorem holds_eq {path : AccessPath} {flag : Bool}
    (hflag : (path.eval env >>= Value.asFlag) = .ok flag) (negated : Bool) :
    holds env ⟨negated, path⟩ = .ok (flag != negated) := by
  simp only [holds, hflag]
  rfl

theorem runStmts_select {condition : Code.Condition} {b : Bool} (h : holds env condition = .ok b)
    (whenTrue : Atom) (whenFalse : Option Atom) :
    runStmts set call env [.append [.select condition whenTrue whenFalse]] =
      if b then runStmts set call env [.append [.atom whenTrue]]
      else
        match whenFalse with
        | some a => runStmts set call env [.append [.atom a]]
        | none => .ok := by
  funext result
  rw [runStmts_singleton]
  simp only [runFragment, h]
  cases b with
  | true => exact (runStmts_singleton (.atom whenTrue) result).symm
  | false =>
    cases whenFalse with
    | some a => exact (runStmts_singleton (.atom a) result).symm
    | none => exact congrArg Except.ok (List.append_nil result)

theorem runStmts_branch {condition : Code.Condition} {b : Bool} (h : holds env condition = .ok b)
    (body : List Stmt) :
    runStmts set call env [.branch condition body] =
      if b then runStmts set call env body else .ok := by
  funext result
  simp only [runStmts, runStmt, h]
  cases b with
  | true => exact bind_pure _
  | false => rfl

theorem runStmts_branchElse {condition : Code.Condition} {b : Bool}
    (h : holds env condition = .ok b) (body otherwise : List Stmt) :
    runStmts set call env [.branchElse condition body otherwise] =
      if b then runStmts set call env body else runStmts set call env otherwise := by
  funext result
  simp only [runStmts, runStmt, h]
  cases b <;> exact bind_pure _

/-- A condition whose flag is known runs the statements of one branch. -/
theorem runStmts_conditional {path : AccessPath} {flag : Bool}
    (hflag : (path.eval env >>= Value.asFlag) = .ok flag) (negated : Bool) (first second : Branch) :
    runStmts set call env (outputCode (conditional negated path first second)) =
      if flag != negated then runStmts set call env first.code
      else runStmts set call env second.code := by
  have hholds := holds_eq hflag negated
  -- without a first branch the code tests the opposite
  have hopposite : holds env ⟨!negated, path⟩ = .ok (!(flag != negated)) := by
    rw [holds_eq hflag]
    cases flag <;> cases negated <;> rfl
  -- from here on only matters whether the first branch is the one to run
  generalize (flag != negated) = b at hholds hopposite ⊢
  cases first with
  | empty =>
    cases second with
    | empty => cases b <;> rfl
    | atom a =>
      refine (runStmts_select hopposite a none).trans ?_
      cases b <;> rfl
    | statements code =>
      refine (runStmts_branch hopposite code).trans ?_
      cases b <;> rfl
  | atom a =>
    cases second with
    | empty => exact runStmts_select hholds a none
    | atom a' => exact runStmts_select hholds a (some a')
    | statements code => exact runStmts_branchElse hholds _ _
  | statements code =>
    cases second with
    | empty => exact runStmts_branch hholds _
    | atom a => exact runStmts_branchElse hholds _ _
    | statements code' => exact runStmts_branchElse hholds _ _

/-- A condition that cannot be tested fails, or is not tested as nothing depends on it. -/
theorem runStmts_conditional_error {path : AccessPath} {e : Fault}
    (hflag : (path.eval env >>= Value.asFlag) = .error e) (negated : Bool) (first second : Branch)
    (result : Bytes) :
    runStmts set call env (outputCode (conditional negated path first second)) result =
        .error e ∨
      runStmts set call env (outputCode (conditional negated path first second)) result =
        .ok result := by
  have hholds : ∀ n, holds env ⟨n, path⟩ = .error e := by
    intro n
    simp only [holds, hflag]
    rfl
  have hselect : ∀ n a o, runStmts set call env [.append [.select ⟨n, path⟩ a o]] result =
      .error e := by
    intro n a o
    rw [runStmts_singleton]
    simp only [runFragment, hholds]
    rfl
  have hbranch : ∀ n body, runStmts set call env [.branch ⟨n, path⟩ body] result = .error e := by
    intro n body
    simp only [runStmts, runStmt, hholds]
    rfl
  have hbranchElse : ∀ n body otherwise,
      runStmts set call env [.branchElse ⟨n, path⟩ body otherwise] result = .error e := by
    intro n body otherwise
    simp only [runStmts, runStmt, hholds]
    rfl
  -- only a condition without any branch is left out of the code
  cases first with
  | empty =>
    cases second with
    | empty => exact .inr rfl
    | atom a => exact .inl (hselect _ _ _)
    | statements code => exact .inl (hbranch _ _)
  | atom a =>
    cases second with
    | empty => exact .inl (hselect _ _ _)
    | atom a' => exact .inl (hselect _ _ _)
    | statements code => exact .inl (hbranchElse _ _ _)
  | statements code =>
    cases second with
    | empty => exact .inl (hbranch _ _)
    | atom a => exact .inl (hbranchElse _ _ _)
    | statements code' => exact .inl (hbranchElse _ _ _)

/-- A condition on a flag, or on an element that is missing. -/
theorem Yields.conditional {path : AccessPath} {text' : Outcome Bytes} {first second : Branch}
    (hflag : (∃ flag, (path.eval env >>= Value.asFlag) = .ok flag) ∨
      (path.eval env >>= Value.asFlag) = .error .outOfRange) (negated : Bool)
    (hfirst : Yields text (runStmts set call env first.code))
    (hsecond : Yields text' (runStmts set call env second.code)) :
    Yields (do
        let flag ← path.eval env >>= Value.asFlag
        if flag != negated then text else text')
      (runStmts set call env (outputCode (Lower.conditional negated path first second))) := by
  rcases hflag with ⟨flag, hflag⟩ | hmissing
  · rw [runStmts_conditional hflag, hflag]
    change Yields (if flag != negated then text else text') _
    split
    · exact hfirst
    · exact hsecond
  · intro result
    rw [hmissing]
    refine .inr ⟨rfl, ?_⟩
    rcases runStmts_conditional_error hmissing negated first second result with hr | hr
    · rw [hr]
      simp
    · rw [hr]
      simp

end

end Meaning
end Stencil
