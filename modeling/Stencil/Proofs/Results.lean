import Mathlib.Data.List.Forall2
import Mathlib.Tactic.Common

/-!
# Computations that may fail

What it means that a computation made of others has a result.

* `bind_eq_ok`     : one computation after the other;
* `toOption_bind`  : the same where it does not matter why a computation fails;
* `run_bind_eq_ok` : the same for computations on a state;
* `mapM_eq_ok`     : a computation for each element of a list;
* `mem_of_mapM`    : the result of one of the elements;
* `mapM_filterMap_eq_ok` : a computation for those elements that have a value.
-/

namespace Stencil
namespace Results

variable {ε α β : Type}

theorem bind_eq_ok {x : Except ε α} {f : α → Except ε β} {b : β} :
    (x >>= f) = .ok b ↔ ∃ a, x = .ok a ∧ f a = .ok b := by
  constructor
  · intro h
    cases x with
    | error e => cases h
    | ok a => exact ⟨a, rfl, h⟩
  · rintro ⟨a, rfl, h⟩
    exact h

theorem toOption_bind (x : Except ε α) (f : α → Except ε β) :
    (x >>= f).toOption = x.toOption.bind fun a => (f a).toOption := by
  cases x with
  | error e => rfl
  | ok a => rfl

theorem toOption_map (f : α → β) (x : Except ε α) : (f <$> x).toOption = x.toOption.map f := by
  cases x with
  | error e => rfl
  | ok a => rfl

theorem toOption_eq_some {x : Except ε α} {a : α} : x.toOption = some a ↔ x = .ok a := by
  cases x with
  | error e => simp [Except.toOption]
  | ok b => simp [Except.toOption]

section

variable {σ : Type} {m : EStateM ε σ α} {f : α → EStateM ε σ β} {s s' : σ}

theorem run_bind_ok {a : α} (h : m s = .ok a s') : (m >>= f) s = f a s' := by
  change EStateM.bind m f s = _
  unfold EStateM.bind
  rw [h]

theorem run_bind_error {e : ε} (h : m s = .error e s') : (m >>= f) s = .error e s' := by
  change EStateM.bind m f s = _
  unfold EStateM.bind
  rw [h]

theorem run_bind_eq_ok {b : β} :
    (m >>= f) s = .ok b s' ↔ ∃ a s₁, m s = .ok a s₁ ∧ f a s₁ = .ok b s' := by
  constructor
  · intro h
    cases hrun : m s with
    | error e s₁ =>
      rw [run_bind_error hrun] at h
      cases h
    | ok a s₁ =>
      rw [run_bind_ok hrun] at h
      exact ⟨a, s₁, rfl, h⟩
  · rintro ⟨a, s₁, hrun, h⟩
    rw [run_bind_ok hrun]
    exact h

end

theorem mapM_eq_ok {f : α → Except ε β} {xs : List α} {ys : List β} :
    xs.mapM f = .ok ys ↔ List.Forall₂ (fun x y => f x = .ok y) xs ys := by
  induction xs generalizing ys with
  | nil =>
    constructor
    · intro h
      cases h
      exact .nil
    · rintro ⟨⟩
      rfl
  | cons x xs ih =>
    rw [List.mapM_cons, bind_eq_ok]
    constructor
    · rintro ⟨y, hy, h⟩
      rcases bind_eq_ok.1 h with ⟨rest, hrest, h⟩
      cases h
      exact .cons hy (ih.1 hrest)
    · intro h
      cases h with
      | cons hy hrest => exact ⟨_, hy, bind_eq_ok.2 ⟨_, ih.2 hrest, rfl⟩⟩

/-- If all elements have results, they have them together. -/
theorem exists_mapM {f : α → Except ε β} {xs : List α} (h : ∀ x ∈ xs, ∃ y, f x = .ok y) :
    ∃ ys, xs.mapM f = .ok ys := by
  induction xs with
  | nil => exact ⟨[], rfl⟩
  | cons x xs ih =>
    rcases h x List.mem_cons_self with ⟨y, hy⟩
    rcases ih fun z hz => h z (List.mem_cons_of_mem _ hz) with ⟨ys, hys⟩
    exact ⟨y :: ys, mapM_eq_ok.2 (.cons hy (mapM_eq_ok.1 hys))⟩

theorem forall₂_mem_left {R : α → β → Prop} {xs : List α} {ys : List β}
    (h : List.Forall₂ R xs ys) {x : α} (hx : x ∈ xs) : ∃ y ∈ ys, R x y := by
  induction h with
  | nil => cases hx
  | cons hR _ ih =>
    rcases List.mem_cons.1 hx with rfl | hx
    · exact ⟨_, List.mem_cons_self, hR⟩
    · rcases ih hx with ⟨y, hy, hR'⟩
      exact ⟨y, List.mem_cons_of_mem _ hy, hR'⟩

/-- The result of an element is among those of the list. -/
theorem mem_of_mapM {f : α → Except ε β} {xs : List α} {ys : List β} (h : xs.mapM f = .ok ys)
    {x : α} (hx : x ∈ xs) : ∃ y ∈ ys, f x = .ok y :=
  forall₂_mem_left (mapM_eq_ok.1 h) hx

/-- Every result is that of an element. -/
theorem exists_of_mem_mapM {f : α → Except ε β} {xs : List α} {ys : List β}
    (h : xs.mapM f = .ok ys) {y : β} (hy : y ∈ ys) : ∃ x ∈ xs, f x = .ok y :=
  forall₂_mem_left (mapM_eq_ok.1 h).flip hy

/-- The values of those elements that have any. -/
theorem mapM_filterMap_eq_ok {f : α → Except ε (Option β)} {p : α → Bool}
    (hskip : ∀ x, p x = false → f x = .ok none) (hkeep : ∀ x, p x = true → f x ≠ .ok none)
    {xs : List α} {ys : List β} :
    (do return (← xs.mapM f).filterMap id) = Except.ok ys ↔
      List.Forall₂ (fun x y => f x = .ok (some y)) (xs.filter p) ys := by
  induction xs generalizing ys with
  | nil =>
    constructor
    · intro h
      cases h
      exact .nil
    · intro h
      cases h
      rfl
  | cons x xs ih =>
    constructor
    · intro h
      rcases bind_eq_ok.1 h with ⟨os, hos, h⟩
      cases h
      rcases List.forall₂_cons_left_iff.1 (mapM_eq_ok.1 hos) with ⟨o, os, ho, hrest, rfl⟩
      have hothers := ih.1 (bind_eq_ok.2 ⟨os, mapM_eq_ok.2 hrest, rfl⟩)
      cases hp : p x with
      | true =>
        rw [List.filter_cons_of_pos hp]
        cases o with
        | none => exact absurd ho (hkeep x hp)
        | some y => exact .cons ho hothers
      | false =>
        rw [List.filter_cons_of_neg (by simp [hp])]
        cases (hskip x hp).symm.trans ho
        exact hothers
    · intro h
      cases hp : p x with
      | true =>
        rw [List.filter_cons_of_pos hp] at h
        rcases List.forall₂_cons_left_iff.1 h with ⟨y, ys, hy, hrest, rfl⟩
        rcases bind_eq_ok.1 (ih.2 hrest) with ⟨os, hos, h⟩
        cases h
        exact bind_eq_ok.2 ⟨some y :: os, mapM_eq_ok.2 (.cons hy (mapM_eq_ok.1 hos)), rfl⟩
      | false =>
        rw [List.filter_cons_of_neg (by simp [hp])] at h
        rcases bind_eq_ok.1 (ih.2 h) with ⟨os, hos, h⟩
        cases h
        exact bind_eq_ok.2 ⟨none :: os, mapM_eq_ok.2 (.cons (hskip x hp) (mapM_eq_ok.1 hos)), rfl⟩

end Results
end Stencil
