import Mathlib.Logic.Function.Iterate
import Stencil.Name

/-!
# Fresh names

`Search` is the loop that raises a name for as long as it is taken, with the names that it passes
by; it may never end. `freshName` runs it for a bounded number of steps
(`nextFree_eq_some_iff`).

* `Search.names_eq`   : a search looks at the next names in turn;
* `freshName_not_mem` : a name that the search finds is not taken;
* `freshName_head`    : it starts like the name that the search begins with.
-/

namespace Stencil
namespace Name

variable {taken passed : List String} {name fresh : String} {steps : Nat} {c : Char}

/-! ## The loop -/

/-- The loop over the names from a given one on: `Search taken name passed fresh` if it finds the
names `passed` taken, one after the other, and stops at `fresh`. -/
inductive Search (taken : List String) : String → List String → String → Prop
  | stop {name : String} (hfree : name ∉ taken) : Search taken name [] name
  | next {name fresh : String} {passed : List String} (htaken : name ∈ taken)
      (hrest : Search taken (incrementName name) passed fresh) :
      Search taken name (name :: passed) fresh

theorem search_of_free (hfree : name ∉ taken) :
    Search taken name passed fresh ↔ passed = [] ∧ fresh = name := by
  constructor
  · intro h
    cases h with
    | stop => exact ⟨rfl, rfl⟩
    | next htaken => exact absurd htaken hfree
  · rintro ⟨rfl, rfl⟩
    exact .stop hfree

theorem search_of_taken (htaken : name ∈ taken) :
    Search taken name passed fresh ↔
      ∃ rest, passed = name :: rest ∧ Search taken (incrementName name) rest fresh := by
  constructor
  · intro h
    cases h with
    | stop hfree => exact absurd htaken hfree
    | next _ hrest => exact ⟨_, rfl, hrest⟩
  · rintro ⟨rest, rfl, hrest⟩
    exact .next htaken hrest

theorem Search.not_mem (h : Search taken name passed fresh) : fresh ∉ taken := by
  induction h with
  | stop hfree => exact hfree
  | next _ _ ih => exact ih

/-- A search looks at the names after the one that it begins with. -/
theorem Search.names_eq (h : Search taken name passed fresh) :
    passed ++ [fresh] = (List.range (passed.length + 1)).map (incrementName^[·] name) := by
  induction h with
  | stop => rfl
  | @next _ _ passed _ _ ih =>
    have hrange := @List.range_succ_eq_map (passed.length + 1)
    rw [List.cons_append, ih, List.length_cons, hrange, List.map_cons, List.map_map]
    rfl

theorem Search.fresh_eq (h : Search taken name passed fresh) :
    fresh = incrementName^[passed.length] name := by
  induction h with
  | stop => rfl
  | next _ _ ih => exact ih

/-- A search stops at the first name that is free. -/
theorem Search.of_iterate {k : Nat} (hpassed : ∀ i < k, incrementName^[i] name ∈ taken)
    (hfree : incrementName^[k] name ∉ taken) :
    Search taken name ((List.range k).map (incrementName^[·] name)) (incrementName^[k] name) := by
  induction k generalizing name with
  | zero => exact .stop hfree
  | succ k ih =>
    have hrest := ih (fun i hi => hpassed (i + 1) (Nat.succ_lt_succ hi)) hfree
    rw [List.range_succ_eq_map, List.map_cons, List.map_map]
    exact .next (hpassed 0 k.succ_pos) hrest

/-- A name has one search at most. -/
theorem Search.unique {passed' : List String} {fresh' : String}
    (h : Search taken name passed fresh) (h' : Search taken name passed' fresh') :
    passed = passed' ∧ fresh = fresh' := by
  induction h generalizing passed' with
  | stop hfree =>
    obtain ⟨rfl, rfl⟩ := (search_of_free hfree).1 h'
    exact ⟨rfl, rfl⟩
  | next htaken _ ih =>
    obtain ⟨rest, rfl, hrest⟩ := (search_of_taken htaken).1 h'
    obtain ⟨rfl, rfl⟩ := ih hrest
    exact ⟨rfl, rfl⟩

/-! ## The bounded loop -/

theorem nextFree_of_free (hfree : name ∉ taken) : nextFree taken steps name = some name := by
  have hnot : taken.contains name = false := by simpa using hfree
  cases steps with
  | zero => rw [nextFree, hnot]; rfl
  | succ steps => rw [nextFree, hnot]; rfl

/-- A name that is free is found at once, whatever the number of steps. -/
theorem nextFree_of_free_iff (hfree : name ∉ taken) :
    nextFree taken steps name = some fresh ↔
      ∃ passed, passed.length ≤ steps ∧ Search taken name passed fresh := by
  rw [nextFree_of_free hfree]
  constructor
  · rintro ⟨⟩
    exact ⟨[], Nat.zero_le _, .stop hfree⟩
  · rintro ⟨passed, -, hsearch⟩
    rw [((search_of_free hfree).1 hsearch).2]

/-- Looking through the names for some steps finds what a search of so many steps stops at. -/
theorem nextFree_eq_some_iff :
    nextFree taken steps name = some fresh ↔
      ∃ passed, passed.length ≤ steps ∧ Search taken name passed fresh := by
  induction steps generalizing name with
  | zero =>
    by_cases hname : name ∈ taken
    · rw [nextFree, if_pos (List.contains_iff_mem.2 hname)]
      simp [search_of_taken hname]
    · exact nextFree_of_free_iff hname
  | succ steps ih =>
    by_cases hname : name ∈ taken
    · rw [nextFree, if_pos (List.contains_iff_mem.2 hname), ih]
      constructor
      · rintro ⟨passed, hpassed, hrest⟩
        exact ⟨name :: passed, Nat.succ_le_succ hpassed, .next hname hrest⟩
      · rintro ⟨passed, hpassed, hsearch⟩
        obtain ⟨rest, rfl, hrest⟩ := (search_of_taken hname).1 hsearch
        exact ⟨rest, Nat.le_of_succ_le_succ hpassed, hrest⟩
    · exact nextFree_of_free_iff hname

theorem freshName_eq_some {base : String} (h : freshName taken base = some fresh) :
    ∃ passed, Search taken base passed fresh := by
  obtain ⟨passed, -, hsearch⟩ := nextFree_eq_some_iff.1 h
  exact ⟨passed, hsearch⟩

theorem freshName_not_mem {base : String} (h : freshName taken base = some fresh) :
    fresh ∉ taken :=
  (freshName_eq_some h).elim fun _ => Search.not_mem

/-! ## First characters -/

theorem incrementName_head (h : name.toList.head? = some c) :
    (incrementName name).toList.head? = some c := by
  rcases List.head?_eq_some_iff.1 h with ⟨rest, hname⟩
  have hsplit : (splitCounter name.toList = none) ∨
      ∃ base digits, splitCounter name.toList = some (c :: base, digits) := by
    unfold splitCounter
    rw [hname]
    dsimp only
    split
    · exact .inr ⟨_, _, rfl⟩
    · exact .inl rfl
  unfold incrementName
  rcases hsplit with hnone | ⟨base, digits, hsome⟩
  · rw [hnone]
    simp [hname]
  · rw [hsome]
    simp

theorem Search.head (h : Search taken name passed fresh) (hname : name.toList.head? = some c) :
    fresh.toList.head? = some c := by
  induction h with
  | stop => exact hname
  | next _ _ ih => exact ih (incrementName_head hname)

theorem freshName_head {base : String} (hbase : base.toList.head? = some c)
    (h : freshName taken base = some fresh) : fresh.toList.head? = some c :=
  (freshName_eq_some h).elim fun _ hsearch => hsearch.head hbase

end Name
end Stencil
