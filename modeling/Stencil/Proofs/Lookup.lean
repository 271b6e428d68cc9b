import Mathlib.Data.List.Nodup
import Mathlib.Tactic.Common

/-!
# Looking up keys

Facts about association lists with the first entry of a key as its value.

* `lookup_map`                     : values replaced by a function of them;
* `mem_of_lookup`, `lookup_of_mem` : a value that is found, and an entry whose key is no other's;
* `lookup_isSome`                  : keys that have a value;
* `lookup_filter`                  : entries kept by their keys.
-/

namespace Stencil
namespace Lookup

variable {κ α β : Type} [BEq κ]

theorem lookup_map (f : α → β) (entries : List (κ × α)) (key : κ) :
    (entries.map fun e => (e.1, f e.2)).lookup key = (entries.lookup key).map f := by
  induction entries with
  | nil => rfl
  | cons e entries ih =>
    rw [List.map_cons, List.lookup_cons, List.lookup_cons, ih]
    cases key == e.1 <;> rfl

variable [LawfulBEq κ] {entries : List (κ × α)} {key : κ} {value : α}

theorem mem_of_lookup (h : entries.lookup key = some value) : (key, value) ∈ entries := by
  rcases List.lookup_eq_some_iff.1 h with ⟨before, after, rfl, _⟩
  simp

theorem lookup_of_mem (hnodup : (entries.map (·.1)).Nodup) (h : (key, value) ∈ entries) :
    entries.lookup key = some value := by
  rcases List.append_of_mem h with ⟨before, after, rfl⟩
  refine List.lookup_eq_some_iff.2 ⟨before, after, rfl, ?_⟩
  intro entry hentry
  rw [List.map_append, List.map_cons] at hnodup
  have hne : entry.1 ≠ key := by
    have hdisj := List.disjoint_of_nodup_append hnodup
    intro heq
    exact hdisj (List.mem_map_of_mem hentry) (by simp [heq])
  simpa using Ne.symm hne

theorem exists_lookup_of_mem (h : key ∈ entries.map (·.1)) : ∃ v, entries.lookup key = some v := by
  cases hv : entries.lookup key with
  | some v => exact ⟨v, rfl⟩
  | none =>
    rcases List.mem_map.1 h with ⟨entry, hentry, rfl⟩
    have hne := List.lookup_eq_none_iff.1 hv entry hentry
    simp at hne

theorem lookup_isSome : (entries.lookup key).isSome = true ↔ key ∈ entries.map (·.1) := by
  constructor
  · intro h
    rcases Option.isSome_iff_exists.1 h with ⟨v, hv⟩
    exact List.mem_map.2 ⟨_, mem_of_lookup hv, rfl⟩
  · intro h
    exact Option.isSome_iff_exists.2 (exists_lookup_of_mem h)

theorem lookup_filter (p : κ → Bool) (entries : List (κ × α)) (key : κ) :
    (entries.filter (p ·.1)).lookup key = if p key then entries.lookup key else none := by
  induction entries with
  | nil => simp
  | cons e entries ih =>
    obtain ⟨k, v⟩ := e
    rw [List.filter_cons]
    by_cases hk : key = k
    · subst hk
      cases hp : p key <;> simp [hp, ih]
    · have hne : (key == k) = false := beq_eq_false_iff_ne.2 hk
      cases hp : p k <;> simp [hne, ih, List.lookup_cons]

end Lookup
end Stencil
