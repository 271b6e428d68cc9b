import Mathlib.Data.List.Range
import Stencil.Proofs.Counter
import Stencil.Scope
import Stencil.Types.Naming

/-!
# Collisions of names

Local variables and structs are named alike: a name that is taken is raised until one is free.

* `search_ends`, `freshName_eq_some_iff` : this ends, after one step for each name that is taken at
  most, and `freshName` comes to the same name;
* `collisions_end` : so variables and structs get a name that was free;
* `incrementName_suffix`, `suffixValue_iterate` : the number that a name ends in, after one step
  and after several;
* `suffix_counts` : it counts up for as long as it stays below `2 ^ 64`, and no longer.
-/

namespace Stencil
namespace Name

open Text
open Stencil.Types (NamedStruct NodeId Store register sharedStruct?)

/-! ## The end of a search -/

section Ending

variable {taken : List String} (htaken : taken.dedup.length < bound64)
include htaken

/-- A search ends whatever it begins with, and passes by no more names than are taken. -/
theorem search_ends (base : String) :
    ∃ passed fresh, Search taken base passed fresh ∧ passed.length ≤ taken.dedup.length :=
  exists_search fun _ _ hij hj => iterate_incrementName_ne base hij (Nat.lt_of_le_of_lt hj htaken)

/-- The bounded search has the result of the one without a bound. -/
theorem freshName_eq_some_iff {base fresh : String} :
    freshName taken base = some fresh ↔ ∃ passed, Search taken base passed fresh := by
  refine ⟨freshName_eq_some, ?_⟩
  rintro ⟨passed, hsearch⟩
  obtain ⟨passed', fresh', hsearch', hlength⟩ := search_ends htaken base
  obtain ⟨rfl, rfl⟩ := hsearch.unique hsearch'
  have hdedup := (List.dedup_sublist taken).length_le
  exact nextFree_eq_some_iff.2 ⟨passed, Nat.le_trans hlength hdedup, hsearch⟩

end Ending

/-- Among fewer than `2 ^ 64` different names, variables and structs get the name that the search
stops at. It raises a name no more often than names are taken, and the last one was free. -/
theorem collisions_end {taken : List String} (htaken : taken.dedup.length < bound64)
    (base : String) :
    ∃ passed fresh, Search taken base passed fresh ∧ passed.length ≤ taken.dedup.length ∧
      fresh ∉ taken ∧
      (∀ v : Variables, v.names = taken →
        v.allocate base = some (fresh, ⟨taken ++ [fresh]⟩)) ∧
      ∀ (s : Store) (field : String) (id : NodeId) (entries : List NamedStruct),
        entries.map (·.name) = taken → capitalize field = base →
          sharedStruct? s entries id = none →
            register s field id entries = .ok (entries ++ [⟨fresh, id⟩]) := by
  obtain ⟨passed, fresh, hsearch, hlength⟩ := search_ends htaken base
  have hfresh : freshName taken base = some fresh :=
    (freshName_eq_some_iff htaken).2 ⟨passed, hsearch⟩
  refine ⟨passed, fresh, hsearch, hlength, hsearch.not_mem, ?_, ?_⟩
  · rintro v rfl
    unfold Variables.allocate
    rw [hfresh]
    rfl
  · rintro s field id entries rfl rfl hshared
    unfold register
    rw [hshared]
    dsimp only
    rw [hfresh]

/-- Four structs with three names, of which the search passes by two: the zeros of the first are
gone in the second. -/
theorem collisions_end_passes :
    let passes : List NamedStruct := [⟨"__Input", 0⟩, ⟨"Pass007", 1⟩, ⟨"Pass8", 2⟩, ⟨"Pass8", 3⟩]
    let trip : Store := ⟨#[.struct [("pass007", 1), ("pass8", 2), ("last", 3)],
      .struct [("row", 5)], .struct [("seat", 5)], .struct [("seat", 5)], .struct [("gate", 5)],
      .unknown]⟩
    ∃ passed fresh, Search (passes.map (·.name)) "Pass007" passed fresh ∧ passed.length ≤ 3 ∧
      fresh ∉ passes.map (·.name) ∧
      Variables.allocate ⟨passes.map (·.name)⟩ "Pass007" =
        some (fresh, ⟨passes.map (·.name) ++ [fresh]⟩) ∧
      register trip "pass007" 4 passes = .ok (passes ++ [⟨fresh, 4⟩]) := by
  intro passes trip
  obtain ⟨passed, fresh, hsearch, hlength, hfree, hvariable, hstruct⟩ :=
    @collisions_end (passes.map (·.name)) (by decide) "Pass007"
  exact ⟨passed, fresh, hsearch, hlength, hfree, hvariable _ rfl,
    hstruct trip "pass007" 4 passes rfl (by decide) (by decide)⟩

/-! ## Numbers at the end of names -/

/-- The number that a name ends in; zero if it ends in none. -/
def suffixValue (name : String) : Nat :=
  decimalValue (digitSuffix name.toList)

/-- The number that comes after a number at the end of a name: the next one, modulo `2 ^ 64`, and
two after one that has more than 64 bits. -/
def suffixAfter (d : Nat) : Nat :=
  if d < bound64 then (d + 1) % bound64 else 2

theorem suffixAfter_eq_succ {d : Nat} : suffixAfter d = d + 1 ↔ d + 1 < bound64 := by
  unfold suffixAfter bound64
  split <;> omega

theorem counter_digits {digits : List Char} (hne : digits ≠ [])
    (hdigits : ∀ c ∈ digits, c.isDigit = true) :
    counter digits = if decimalValue digits < bound64 then decimalValue digits else 1 := by
  unfold counter
  rw [readUnsigned_digits hne hdigits]
  split <;> rfl

/-- A search looks at numbers that grow just if each step along it raises the number. -/
theorem Search.increasing_iff {taken passed : List String} {name fresh : String}
    (h : Search taken name passed fresh) :
    ((passed ++ [fresh]).map suffixValue).Pairwise (· < ·) ↔
      ∀ i < passed.length,
        suffixValue (incrementName^[i] name) < suffixValue (incrementName^[i + 1] name) := by
  rw [h.names_eq, List.map_map, ← List.isChain_iff_pairwise, List.isChain_map]
  exact List.isChain_range_succ _ _

section Suffix

variable {base : List Char} (hbase : Countable base)
include hbase

variable {digits : List Char} (hdigits : ∀ c ∈ digits, c.isDigit = true) {name : String}
  (hname : name.toList = base ++ digits)
include hdigits hname

theorem splitCounter_eq : splitCounter name.toList = some (base, digits) := by
  rw [hname, hbase.splits digits hdigits]

theorem suffixValue_append : suffixValue name = decimalValue digits := by
  unfold suffixValue
  rw [hname, digitSuffix_append hbase.last hdigits]

omit hdigits hname in
theorem suffixValue_repr (n : Nat) : suffixValue (String.ofList base ++ Nat.repr n) = n := by
  have happend : (String.ofList base ++ Nat.repr n).toList = base ++ (Nat.repr n).toList := by
    rw [String.toList_append, String.toList_ofList]
  rw [suffixValue_append hbase (isDigit_repr n) happend, decimalValue_repr]

variable (hne : digits ≠ [])
include hne

/-- One step takes the number at the end of a name to the one after it. -/
theorem incrementName_suffix :
    incrementName name = String.ofList base ++ Nat.repr (suffixAfter (decimalValue digits)) := by
  rw [incrementName_counted (splitCounter_eq hbase hdigits hname), counter_digits hne hdigits]
  unfold suffixAfter
  split <;> rfl

/-- A number of 64 bits counts up modulo `2 ^ 64`. -/
theorem suffixValue_iterate (hsmall : decimalValue digits < bound64) (i : Nat) :
    suffixValue (incrementName^[i] name) = (decimalValue digits + i) % bound64 := by
  cases i with
  | zero =>
    rw [Function.iterate_zero_apply, suffixValue_append hbase hdigits hname]
    exact (Nat.mod_eq_of_lt hsmall).symm
  | succ i =>
    rw [iterate_counted (splitCounter_eq hbase hdigits hname), suffixValue_repr hbase,
      counter_digits hne hdigits, if_pos hsmall]

/-- Each of `k` steps raises the number at the end of a name just if all numbers have 64 bits. -/
theorem suffixValue_increasing_iff (k : Nat) :
    (∀ i < k, suffixValue (incrementName^[i] name) < suffixValue (incrementName^[i + 1] name)) ↔
      k = 0 ∨ decimalValue digits + k < bound64 := by
  constructor
  · intro hgrows
    by_contra hlarge
    obtain ⟨hk, hlarge⟩ := not_or.1 hlarge
    by_cases hsmall : decimalValue digits < bound64
    · -- the step behind the last number of 64 bits goes back to zero
      have hlast := hgrows (bound64 - 1 - decimalValue digits) (by omega)
      rw [suffixValue_iterate hbase hdigits hname hne hsmall,
        suffixValue_iterate hbase hdigits hname hne hsmall] at hlast
      unfold bound64 at hlast hsmall
      omega
    · -- the first step goes back to two
      have hfirst := hgrows 0 (Nat.pos_of_ne_zero hk)
      rw [Function.iterate_zero_apply, Function.iterate_one,
        incrementName_suffix hbase hdigits hname hne, suffixValue_repr hbase,
        suffixValue_append hbase hdigits hname, suffixAfter, if_neg hsmall] at hfirst
      unfold bound64 at hsmall
      omega
  · intro hk i hi
    have hnext : decimalValue digits + i + 1 < bound64 := by omega
    have hsmall : decimalValue digits < bound64 := by omega
    rw [suffixValue_iterate hbase hdigits hname hne hsmall,
      suffixValue_iterate hbase hdigits hname hne hsmall, ← Nat.add_assoc,
      Nat.mod_eq_of_lt hnext, Nat.mod_eq_of_lt (Nat.lt_of_succ_lt hnext)]
    exact Nat.lt_succ_self _

end Suffix

/-- The number at the end of a name is raised by one just if the next number has 64 bits, and
along a search it grows just if all numbers have. -/
theorem suffix_counts {base digits : List Char} (hbase : Countable base)
    (hdigits : ∀ c ∈ digits, c.isDigit = true) {name : String}
    (hname : name.toList = base ++ digits) (hne : digits ≠ []) :
    incrementName name = String.ofList base ++ Nat.repr (suffixAfter (decimalValue digits)) ∧
      (incrementName name = String.ofList base ++ Nat.repr (decimalValue digits + 1) ↔
        decimalValue digits + 1 < bound64) ∧
      ∀ (taken passed : List String) (fresh : String), Search taken name passed fresh →
        (((passed ++ [fresh]).map suffixValue).Pairwise (· < ·) ↔
          passed = [] ∨ decimalValue digits + passed.length < bound64) := by
  have hstep := incrementName_suffix hbase hdigits hname hne
  refine ⟨hstep, ?_, ?_⟩
  · rw [hstep, ← suffixAfter_eq_succ]
    constructor
    · exact append_repr_injective _
    · intro hnext
      rw [hnext]
  · intro taken passed fresh hsearch
    rw [hsearch.increasing_iff, suffixValue_increasing_iff hbase hdigits hname hne,
      List.length_eq_zero_iff]

/-- After the first number of 65 bits comes two, which is less. -/
theorem suffix_counts_overlong :
    incrementName "x18446744073709551616" = "x2" ∧
      incrementName "x18446744073709551616" ≠ "x18446744073709551617" ∧
      ¬ (["x18446744073709551616", "x2"].map suffixValue).Pairwise (· < ·) := by
  have hbase : Countable ['x'] := {
    nonempty := by decide
    words := List.all_eq_true.1 (by decide)
    last := by
      rintro last ⟨⟩
      decide }
  obtain ⟨hstep, hcount, hgrows⟩ := @suffix_counts ['x'] "18446744073709551616".toList hbase
    (List.all_eq_true.1 (by decide)) "x18446744073709551616" (by decide) (by decide)
  have htwo : incrementName "x18446744073709551616" = "x2" := hstep.trans (by decide)
  have hsearch : Search ["x18446744073709551616"] "x18446744073709551616"
      ["x18446744073709551616"] "x2" := .next (by decide) (htwo ▸ .stop (by decide))
  refine ⟨htwo, ?_, ?_⟩
  · intro hnext
    exact absurd (hcount.1 (hnext.trans (by decide))) (by decide)
  · intro hpairwise
    exact absurd ((hgrows _ _ _ hsearch).1 hpairwise) (by decide)

end Name
end Stencil
